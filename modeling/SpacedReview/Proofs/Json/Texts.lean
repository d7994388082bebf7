import Mathlib.Data.List.Induction
import SpacedReview.Json.Reader
import SpacedReview.Json.Writer

/-!
# String literals are read back

A text that is written as a literal is read back as the same text, whatever characters it is made
of. A character is escaped to at most one code unit, which is no half of a surrogate pair, so that
no two of them are joined.

## Main statements

- `Json.readLiteral?_writeLiteral` — reading a string literal
-/

namespace SpacedReview

namespace Json

/-! ## Characters -/

/-- The piece that an escaped character is read as. -/
def pieceOf (c : Char) : Piece :=
  if 0x20 ≤ c.toNat ∨ c.toNat ∈ [8, 9, 10, 12, 13] then .char c else .unit c.toNat

theorem hexValue?_hexDigit {d : Nat} (h : d < 16) : hexValue? (Numeral.hexDigit d) = some d := by
  have hall : ∀ d < 16, hexValue? (Numeral.hexDigit d) = some d := by decide
  exact hall d h

/-- A character that is neither a quote nor a backslash nor a control stands for itself. -/
theorem readPieces?_plain (done : List Piece) {c : Char} (r : List Char) (hquote : c ≠ '"')
    (hslash : c ≠ '\\') (hplain : 0x20 ≤ c.toNat) :
    readPieces? done (c :: r) = readPieces? (.char c :: done) r := by
  have hcontrol : ¬ c.toNat < 0x20 := Nat.not_lt.2 hplain
  rw [readPieces?]
  · rw [if_neg hcontrol]
  · exact hquote
  · intro a b d e r' hc
    exact absurd hc hslash
  · intro c' r' hc
    exact absurd hc hslash

theorem readPieces?_unit (done : List Piece) {c : Char} (r : List Char) (h : c.toNat < 0x20) :
    readPieces? done (['\\', 'u', '0', '0', Numeral.hexDigit (c.toNat / 16),
      Numeral.hexDigit (c.toNat % 16)] ++ r) = readPieces? (.unit c.toNat :: done) r := by
  have hunit : codeUnit? '0' '0' (Numeral.hexDigit (c.toNat / 16))
      (Numeral.hexDigit (c.toNat % 16)) = some c.toNat := by
    have hzero : hexValue? '0' = some 0 := by decide
    have hback : ((0 * 16 + 0) * 16 + c.toNat / 16) * 16 + c.toNat % 16 = c.toNat := by omega
    simp only [codeUnit?, hzero, hexValue?_hexDigit (d := c.toNat / 16) (by omega),
      hexValue?_hexDigit (d := c.toNat % 16) (by omega), Option.bind_eq_bind, Option.bind_some,
      hback]
    rfl
  simp only [List.cons_append, List.nil_append]
  rw [readPieces?, hunit]

theorem readPieces?_escape (done : List Piece) (c : Char) (r : List Char) :
    readPieces? done (escape c ++ r) = readPieces? (pieceOf c :: done) r := by
  by_cases hquote : c = '"'
  · subst hquote
    rfl
  by_cases hslash : c = '\\'
  · subst hslash
    rfl
  by_cases hplain : 0x20 ≤ c.toNat
  · rw [escape, if_neg hquote, if_neg hslash, if_pos hplain, pieceOf, if_pos (.inl hplain)]
    exact readPieces?_plain done r hquote hslash hplain
  by_cases hletter : c.toNat ∈ [8, 9, 10, 12, 13]
  · have hback : Char.ofNat c.toNat = c := Char.ofNat_toNat c
    simp only [List.mem_cons, List.not_mem_nil, or_false] at hletter
    rcases hletter with h | h | h | h | h
    all_goals
      rw [h] at hback
      subst hback
      rfl
  · rw [pieceOf, if_neg (not_or.2 ⟨hplain, hletter⟩),
      ← readPieces?_unit done r (Nat.lt_of_not_le hplain)]
    simp only [List.mem_cons, List.not_mem_nil, or_false, not_or] at hletter
    simp [escape, hquote, hslash, hplain, hletter]

theorem readPieces?_flatMap_escape (cs : List Char) (done : List Piece) (r : List Char) :
    readPieces? done (cs.flatMap escape ++ '"' :: r) =
      some ((cs.map pieceOf).reverse ++ done, r) := by
  induction cs generalizing done with
  | nil => rfl
  | cons c cs ih =>
    rw [List.flatMap_cons, List.append_assoc, readPieces?_escape, ih, List.map_cons,
      List.reverse_cons, List.append_assoc, List.singleton_append]

/-! ## Literals -/

/-- No code unit of an escaped character is half of a surrogate pair. -/
theorem joinPieces?_pieceOf (done : List Char) (c : Char) (ps : List Piece) :
    joinPieces? done (pieceOf c :: ps) = joinPieces? (c :: done) ps := by
  unfold pieceOf
  split
  · rw [joinPieces?]
  · rename_i h
    have hlow : isLowSurrogate c.toNat = false := by
      simp only [isLowSurrogate, Bool.and_eq_false_imp, decide_eq_true_eq, decide_eq_false_iff_not]
      omega
    have hhigh : isHighSurrogate c.toNat = false := by
      simp only [isHighSurrogate, Bool.and_eq_false_imp, decide_eq_true_eq,
        decide_eq_false_iff_not]
      omega
    obtain _ | ⟨p | n, ps⟩ := ps <;> simp [joinPieces?, hlow, hhigh]

theorem joinPieces?_map_pieceOf (cs done : List Char) :
    joinPieces? done (cs.map pieceOf).reverse = some (cs ++ done) := by
  induction cs using List.reverseRecOn generalizing done with
  | nil => rfl
  | append_singleton cs c ih =>
    rw [List.map_append, List.reverse_append, List.map_singleton, List.reverse_singleton,
      List.singleton_append, joinPieces?_pieceOf, ih, List.append_assoc, List.singleton_append]

theorem readLiteral?_escape (s : String) (r : List Char) :
    readLiteral? (s.toList.flatMap escape ++ '"' :: r) = some (some s, r) := by
  rw [readLiteral?, readPieces?_flatMap_escape, List.append_nil]
  simp only [Option.map_some, joinPieces?_map_pieceOf, List.append_nil, String.ofList_toList]

/-- A literal opens with a quote, behind which its text is read back. -/
theorem readLiteral?_writeLiteral (s : String) (r : List Char) :
    ∃ cs, writeLiteral (some s) ++ r = '"' :: cs ∧ readLiteral? cs = some (some s, r) := by
  refine ⟨s.toList.flatMap escape ++ '"' :: r, ?_, readLiteral?_escape s r⟩
  simp [writeLiteral]

end Json

end SpacedReview
