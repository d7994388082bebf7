import Mathlib.Data.List.Lex
import Mathlib.Data.String.Basic

/-!
# The bytes of a text

A text is kept, hashed and compared as the bytes of its characters. The bytes of a greater character
are greater whatever follows them, so texts compare as bytes as they compare as characters.

## Main statements

- `toUTF8_ofList` — the bytes of a text, from its characters
- `toUTF8_le_iff` — the order of texts by their bytes
-/

namespace SpacedReview

/-! ## Bytes from characters -/

theorem toList_loop_bytes (bytes : ByteArray) (i : Nat) (front : List UInt8) :
    ByteArray.toList.loop bytes i front = front.reverse ++ bytes.data.toList.drop i := by
  fun_induction ByteArray.toList.loop bytes i front with
  | case1 i front hi ih =>
    have hlen : i < bytes.data.toList.length := by simpa using hi
    have hget : bytes.get! i = bytes.data.toList[i] := getElem!_pos bytes.data i hi
    rw [ih, List.reverse_cons, List.append_assoc, List.drop_eq_getElem_cons hlen, hget]
    rfl
  | case2 i front hi =>
    have hlen : bytes.data.toList.length ≤ i := by simpa using Nat.le_of_not_lt hi
    rw [List.drop_eq_nil_of_le hlen, List.append_nil]

theorem toUTF8_ofList (cs : List Char) :
    (String.ofList cs).toUTF8.toList = cs.flatMap String.utf8EncodeChar := by
  rw [ByteArray.toList, toList_loop_bytes]
  simp [List.utf8Encode]

/-! ## The order of bytes -/

theorem cons_byte_lt {m n : Nat} (h : m < n) (hn : n < 256) (r s : List UInt8) :
    UInt8.ofNat m :: r < UInt8.ofNat n :: s := by
  refine List.cons_lt_cons_iff.2 (.inl (UInt8.lt_iff_toNat_lt.2 ?_))
  rwa [UInt8.toNat_ofNat_of_lt' (h.trans hn), UInt8.toNat_ofNat_of_lt' hn]

/-- Two numbers are written in order with their last digit if they are without it. -/
theorem append_digit_lt {m n : Nat} (xs ys : List UInt8) (h : m < n)
    (hlt : m / 64 < n / 64 → ∀ r s, xs ++ r < ys ++ s) (heq : m / 64 = n / 64 → xs = ys)
    (r s : List UInt8) :
    (xs ++ [UInt8.ofNat (m % 64 + 128)]) ++ r < (ys ++ [UInt8.ofNat (n % 64 + 128)]) ++ s := by
  rw [List.append_assoc, List.append_assoc]
  rcases Nat.lt_or_eq_of_le (Nat.div_le_div_right h.le) with hdiv | hdiv
  · exact hlt hdiv _ _
  · rw [heq hdiv]
    exact List.append_left_lt (cons_byte_lt (by omega) (by omega) r s)

/-- The bytes of two characters differ in the order of the characters before either ends. -/
theorem utf8EncodeChar_append_lt {c d : Char} (h : c < d) (r s : List UInt8) :
    String.utf8EncodeChar c ++ r < String.utf8EncodeChar d ++ s := by
  have hlt : c.val.toNat < d.val.toNat := h
  have hmost : d.val.toNat < 0x110000 := by
    rcases d.valid with h | h <;> omega
  have hthird (k : Nat) : k / 4096 = k / 64 / 64 := by omega
  have hfourth (k : Nat) : k / 262144 = k / 64 / 64 / 64 := by omega
  rw [String.utf8EncodeChar.eq_1, String.utf8EncodeChar.eq_1]
  simp only [hthird, hfourth]
  split_ifs
  all_goals try omega
  -- Of two characters of different lengths the shorter one has the smaller first byte. Otherwise
  -- that byte comes from the highest digit, and the others follow digit by digit.
  all_goals try exact cons_byte_lt (by omega) (by omega) _ _
  · refine append_digit_lt [_] [_] hlt (fun h => ?_) (fun h => by rw [h]) r s
    exact cons_byte_lt (by omega) (by omega)
  · refine append_digit_lt [_, _] [_, _] hlt (fun h => ?_)
      (fun h => by rw [h]) r s
    refine append_digit_lt [_] [_] h (fun h => ?_) (fun h => by rw [h])
    exact cons_byte_lt (by omega) (by omega)
  · refine append_digit_lt [_, _, _] [_, _, _] hlt (fun h => ?_)
      (fun h => by rw [h]) r s
    refine append_digit_lt [_, _] [_, _] h (fun h => ?_) (fun h => by rw [h])
    refine append_digit_lt [_] [_] h (fun h => ?_) (fun h => by rw [h])
    exact cons_byte_lt (by omega) (by omega)

theorem utf8EncodeChar_ne_nil (c : Char) : String.utf8EncodeChar c ≠ [] := by
  rw [String.utf8EncodeChar.eq_1]
  split_ifs <;> exact List.cons_ne_nil _ _

/-- Lists of characters are compared as their bytes are. -/
theorem flatMap_utf8EncodeChar_lt {cs ds : List Char} (h : cs < ds) :
    cs.flatMap String.utf8EncodeChar < ds.flatMap String.utf8EncodeChar := by
  induction h with
  | @nil d ds =>
    obtain ⟨b, bs, hbytes⟩ := List.exists_cons_of_ne_nil (utf8EncodeChar_ne_nil d)
    rw [List.flatMap_nil, List.flatMap_cons, hbytes]
    exact List.nil_lt_cons b _
  | cons _ ih => exact List.append_left_lt ih
  | rel h => exact utf8EncodeChar_append_lt h _ _

theorem toUTF8_lt_iff {s t : String} : s.toUTF8.toList < t.toUTF8.toList ↔ s < t := by
  have hbytes (s : String) : s.toUTF8.toList = s.toList.flatMap String.utf8EncodeChar := by
    rw [← toUTF8_ofList, String.ofList_toList]
  have hmono {s t : String} (h : s < t) : s.toUTF8.toList < t.toUTF8.toList := by
    rw [hbytes, hbytes]
    exact flatMap_utf8EncodeChar_lt (String.lt_iff_toList_lt.1 h)
  constructor
  · intro h
    rcases lt_trichotomy s t with hst | rfl | hts
    · exact hst
    · exact absurd h (List.lt_irrefl _)
    · exact absurd h (List.lt_asymm (hmono hts))
  · exact hmono

theorem toUTF8_le_iff {s t : String} : s.toUTF8.toList ≤ t.toUTF8.toList ↔ s ≤ t := by
  rw [← List.not_lt, toUTF8_lt_iff, String.not_lt]

end SpacedReview
