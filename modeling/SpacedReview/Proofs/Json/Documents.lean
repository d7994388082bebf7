import SpacedReview.Json.Number
import SpacedReview.Proofs.Decimal.Tokens
import SpacedReview.Proofs.Json.Texts

/-!
# Documents are read back

A document is formed if every literal in it has a text and every number is well formed, and clean if
its numbers are also in range. What `Json.write` writes of a formed document, `Json.read?` reads as
the same document, so no other one is written in the same way. The induction is on how formed
documents are built; the reader's fuel is two steps for each character, one for the value and one
for its place in a list.

## Main definitions

- `Json.Formed` — documents that are told apart by their texts
- `Json.Clean` — documents without defects, up to a depth

## Main statements

- `Json.read?_write` — reading a document
- `Json.Formed.eq_of_write_eq` — documents with one text
- `Json.Clean.isSound`, `Json.Clean.depth_le` — what a reader checks beforehand
-/

namespace SpacedReview

namespace Json

/-- The literals of a document have texts and its numbers are well formed. -/
inductive Formed : Json → Prop where
  | null : Formed .null
  | bool (b : Bool) : Formed (.bool b)
  | number {t : Decimal.Token} (h : t.WellFormed) : Formed (.number t)
  | string (s : String) : Formed (.string (some s))
  | array {items : List Json} (h : ∀ j ∈ items, Formed j) : Formed (.array items)
  | object {fields : List (Literal × Json)} (hnames : ∀ f ∈ fields, f.1.isSome)
      (h : ∀ f ∈ fields, Formed f.2) : Formed (.object fields)

/-- The literals of a document have texts and its numbers are well formed and in range, and no more
    than a number of arrays and objects enclose any value. -/
inductive Clean : Nat → Json → Prop where
  | null (d : Nat) : Clean d .null
  | bool (d : Nat) (b : Bool) : Clean d (.bool b)
  | number {t : Decimal.Token} (d : Nat) (h : t.WellFormed)
      (hrange : (tokenNat? t).isSome || (tokenFloat? t).isSome) : Clean d (.number t)
  | string (d : Nat) (s : String) : Clean d (.string (some s))
  | array {d : Nat} {items : List Json} (h : ∀ j ∈ items, Clean d j) : Clean (d + 1) (.array items)
  | object {d : Nat} {fields : List (Literal × Json)} (hnames : ∀ f ∈ fields, f.1.isSome)
      (h : ∀ f ∈ fields, Clean d f.2) : Clean (d + 1) (.object fields)

variable {d : Nat} {j : Json}

theorem Clean.formed (h : Clean d j) : Formed j := by
  induction h with
  | null => exact .null
  | bool _ b => exact .bool b
  | number _ ht => exact .number ht
  | string _ s => exact .string s
  | array _ ih => exact .array ih
  | object hnames _ ih => exact .object hnames ih

/-! ## What is checked beforehand -/

theorem depthItems_le {items : List Json} (h : ∀ j ∈ items, j.depth ≤ d) :
    depthItems items ≤ d := by
  induction items with
  | nil => exact Nat.zero_le d
  | cons j js ih =>
    rw [List.forall_mem_cons] at h
    exact Nat.max_le.2 ⟨h.1, ih h.2⟩

theorem depthFields_le {fields : List (Literal × Json)} (h : ∀ f ∈ fields, f.2.depth ≤ d) :
    depthFields fields ≤ d := by
  induction fields with
  | nil => exact Nat.zero_le d
  | cons f fs ih =>
    rw [List.forall_mem_cons] at h
    exact Nat.max_le.2 ⟨h.1, ih h.2⟩

theorem Clean.depth_le (h : Clean d j) : j.depth ≤ d := by
  induction h with
  | null | bool | number | string => exact Nat.zero_le _
  | array _ ih => exact Nat.succ_le_succ (depthItems_le ih)
  | object _ _ ih => exact Nat.succ_le_succ (depthFields_le ih)

theorem areSoundItems_of_forall {items : List Json} (h : ∀ j ∈ items, j.isSound) :
    areSoundItems items := by
  induction items with
  | nil => rfl
  | cons j js ih =>
    rw [List.forall_mem_cons] at h
    rw [areSoundItems, h.1, ih h.2]
    rfl

theorem areSoundFields_of_forall {fields : List (Literal × Json)}
    (hnames : ∀ f ∈ fields, f.1.isSome) (h : ∀ f ∈ fields, f.2.isSound) :
    areSoundFields fields := by
  induction fields with
  | nil => rfl
  | cons f fs ih =>
    rw [List.forall_mem_cons] at hnames h
    rw [areSoundFields, hnames.1, h.1, ih hnames.2 h.2]
    rfl

theorem Clean.isSound (h : Clean d j) : j.isSound := by
  induction h with
  | null | bool | string => rfl
  | number _ _ hrange => exact hrange
  | array _ ih => exact areSoundItems_of_forall ih
  | object hnames _ ih => exact areSoundFields_of_forall hnames ih

/-! ## Reading values -/

theorem skipSpace_cons {c : Char} (r : List Char) (h : isSpace c = false) :
    skipSpace (c :: r) = c :: r := by
  rw [skipSpace, List.dropWhile_cons, h]
  rfl

/-- What a number begins with. -/
theorem ne_of_number {c e : Char} (hc : c = '-' ∨ Numeral.isDigit c) (hminus : e ≠ '-')
    (hdigit : Numeral.isDigit e = false) : c ≠ e := by
  rintro rfl
  rcases hc with rfl | hc
  · exact hminus rfl
  · rw [hdigit] at hc
    cases hc

theorem isSpace_of_number {c : Char} (hc : c = '-' ∨ Numeral.isDigit c) : isSpace c = false := by
  have hne {e : Char} (hminus : e ≠ '-') (hdigit : Numeral.isDigit e = false) : (c == e) = false :=
    beq_false_of_ne (ne_of_number hc hminus hdigit)
  rw [isSpace, hne (by decide) (by decide), hne (by decide) (by decide),
    hne (by decide) (by decide), hne (by decide) (by decide)]
  rfl

/-- A value begins neither with a blank nor with the end of an array. -/
theorem Formed.exists_writeChars_eq_cons (h : Formed j) :
    ∃ c cs, j.writeChars = c :: cs ∧ isSpace c = false ∧ c ≠ ']' := by
  cases h with
  | null => exact ⟨_, _, rfl, by decide, by decide⟩
  | bool b => cases b <;> exact ⟨_, _, rfl, by decide, by decide⟩
  | number ht =>
    obtain ⟨c, cs, hwrite, hc⟩ := ht.exists_write_eq_cons
    exact ⟨c, cs, hwrite, isSpace_of_number hc, ne_of_number hc (by decide) (by decide)⟩
  | string => exact ⟨_, _, rfl, by decide, by decide⟩
  | array => exact ⟨_, _, rfl, by decide, by decide⟩
  | object => exact ⟨_, _, rfl, by decide, by decide⟩

theorem readValue?_of_number {c : Char} (hc : c = '-' ∨ Numeral.isDigit c) (fuel : Nat)
    (cs : List Char) : readValue? (fuel + 1) (c :: cs) =
      (Decimal.Token.read? (c :: cs)).map fun (t, r) => (.number t, r) := by
  rw [readValue?, skipSpace_cons _ (isSpace_of_number hc)]
  split <;> rename_i h <;> try (cases h; exact absurd rfl (ne_of_number hc (by decide) (by decide)))
  rfl

/-- What can stand behind a value: the end of the text, or of the list that the value is in, or a
    comma. -/
def Ends (r : List Char) : Prop :=
  ∀ c ∈ r.head?, c = ',' ∨ c = ']' ∨ c = '\x7d'

theorem Ends.stops {r : List Char} (h : Ends r) : Decimal.Token.Stops r := by
  intro c hc
  rcases h c hc with rfl | rfl | rfl <;> decide

theorem ends_cons {c : Char} (hc : c = ',' ∨ c = ']' ∨ c = '\x7d') (r : List Char) :
    Ends (c :: r) := by
  rintro e ⟨⟩
  exact hc

/-- A value is read back with two steps of fuel for each of its characters. -/
def ReadBack (j : Json) : Prop :=
  ∀ (fuel : Nat) (r : List Char), 2 * j.writeChars.length ≤ fuel → Ends r →
    readValue? fuel (j.writeChars ++ r) = some (j, r)

/-- Items that are read back one by one are read back together. -/
theorem readItems?_writeItems {items : List Json} (h : ∀ j ∈ items, ReadBack j) (hne : items ≠ [])
    (fuel : Nat) (r : List Char) (hfuel : 2 * (writeItems items).length + 1 ≤ fuel) :
    readItems? fuel (writeItems items ++ ']' :: r) = some (items, r) := by
  have hcomma : isSpace ',' = false := by decide
  induction items generalizing fuel with
  | nil => exact absurd rfl hne
  | cons j js ih =>
    obtain ⟨fuel, rfl⟩ : ∃ n, fuel = n + 1 := ⟨fuel - 1, by omega⟩
    rw [List.forall_mem_cons] at h
    obtain _ | ⟨j', js⟩ := js
    · rw [writeItems] at hfuel ⊢
      rw [readItems?, h.1 fuel _ (by omega) (ends_cons (.inr (.inl rfl)) r)]
      rfl
    · have hwrite : writeItems (j :: j' :: js) =
          j.writeChars ++ ',' :: writeItems (j' :: js) := writeItems.eq_3 _ _ (by simp)
      rw [hwrite, List.length_append, List.length_cons] at hfuel
      have hrest := ih h.2 (List.cons_ne_nil _ _) fuel (by omega)
      rw [hwrite, List.append_assoc, List.cons_append, readItems?,
        h.1 fuel _ (by omega) (ends_cons (.inl rfl) _)]
      simp only [Option.bind_eq_bind, Option.bind_some,
        skipSpace_cons _ hcomma, hrest, Option.map_some]

/-- Fields whose values are read back one by one are read back together. -/
theorem readFields?_writeFields {fields : List (Literal × Json)} (hnames : ∀ f ∈ fields, f.1.isSome)
    (h : ∀ f ∈ fields, ReadBack f.2) (hne : fields ≠ []) (fuel : Nat) (r : List Char)
    (hfuel : 2 * (writeFields fields).length + 1 ≤ fuel) :
    readFields? fuel (writeFields fields ++ '\x7d' :: r) = some (fields, r) := by
  have hquote : isSpace '"' = false := by decide
  have hcolon : isSpace ':' = false := by decide
  have hcomma : isSpace ',' = false := by decide
  have hend : isSpace '\x7d' = false := by decide
  induction fields generalizing fuel with
  | nil => exact absurd rfl hne
  | cons f fs ih =>
    obtain ⟨fuel, rfl⟩ : ∃ n, fuel = n + 1 := ⟨fuel - 1, by omega⟩
    rw [List.forall_mem_cons] at h hnames
    obtain ⟨name, j⟩ := f
    obtain ⟨s, rfl⟩ : ∃ s, name = some s := Option.isSome_iff_exists.1 hnames.1
    have hvalue : ReadBack j := h.1
    obtain _ | ⟨f', fs⟩ := fs
    · obtain ⟨cs, hwrite, hname⟩ := readLiteral?_writeLiteral s
        (':' :: (j.writeChars ++ '\x7d' :: r))
      rw [writeFields, List.length_append, List.length_cons] at hfuel
      rw [writeFields, List.append_assoc, List.cons_append, hwrite, readFields?,
        skipSpace_cons _ hquote]
      simp only [hname, Option.bind_eq_bind, Option.bind_some, skipSpace_cons _ hcolon,
        hvalue fuel _ (by omega) (ends_cons (.inr (.inr rfl)) r), skipSpace_cons _ hend]
    · have hfields : writeFields ((some s, j) :: f' :: fs) =
          writeLiteral (some s) ++ ':' :: (j.writeChars ++ ',' :: writeFields (f' :: fs)) :=
        writeFields.eq_3 _ _ _ (by simp)
      obtain ⟨cs, hwrite, hname⟩ := readLiteral?_writeLiteral s
        (':' :: (j.writeChars ++ ',' :: (writeFields (f' :: fs) ++ '\x7d' :: r)))
      rw [hfields] at hfuel ⊢
      simp only [List.length_append, List.length_cons] at hfuel
      have hrest := ih hnames.2 h.2 (List.cons_ne_nil _ _) fuel (by omega)
      simp only [List.append_assoc, List.cons_append]
      rw [hwrite, readFields?, skipSpace_cons _ hquote]
      simp only [hname, Option.bind_eq_bind, Option.bind_some, skipSpace_cons _ hcolon,
        hvalue fuel _ (by omega) (ends_cons (.inl rfl) _), skipSpace_cons _ hcomma, hrest,
        Option.map_some]

/-- The first field begins with a quote. -/
theorem exists_writeFields_eq_cons {fields : List (Literal × Json)} (hne : fields ≠ []) :
    ∃ cs, writeFields fields = '"' :: cs := by
  obtain ⟨f, fs, rfl⟩ := List.exists_cons_of_ne_nil hne
  obtain ⟨name, j⟩ := f
  obtain _ | ⟨f', fs⟩ := fs <;> exact ⟨_, rfl⟩

/-- The items begin as the first of them. -/
theorem exists_writeItems_eq_cons {items : List Json} (h : ∀ j ∈ items, Formed j)
    (hne : items ≠ []) :
    ∃ c cs, writeItems items = c :: cs ∧ isSpace c = false ∧ c ≠ ']' := by
  obtain ⟨j, js, rfl⟩ := List.exists_cons_of_ne_nil hne
  obtain ⟨c, cs, hwrite, hc⟩ := (h j List.mem_cons_self).exists_writeChars_eq_cons
  obtain _ | ⟨j', js⟩ := js
  · exact ⟨c, cs, hwrite, hc⟩
  · have hitems : writeItems (j :: j' :: js) = j.writeChars ++ ',' :: writeItems (j' :: js) :=
      writeItems.eq_3 _ _ (by simp)
    exact ⟨c, _, by rw [hitems, hwrite, List.cons_append], hc⟩

theorem readBack_number {t : Decimal.Token} (ht : t.WellFormed) : ReadBack (.number t) := by
  intro fuel r hfuel hr
  obtain ⟨c, cs, hwrite, hc⟩ := ht.exists_write_eq_cons
  have hread := Decimal.Token.read?_write ht hr.stops
  rw [writeChars, hwrite] at hfuel ⊢
  obtain ⟨fuel, rfl⟩ : ∃ n, fuel = n + 1 := ⟨fuel - 1, by simp at hfuel; omega⟩
  rw [hwrite, List.cons_append] at hread
  rw [List.cons_append, readValue?_of_number hc, hread]
  rfl

theorem readBack_string (s : String) : ReadBack (.string (some s)) := by
  intro fuel r hfuel hr
  obtain ⟨cs, hwrite, hread⟩ := readLiteral?_writeLiteral s r
  obtain ⟨fuel, rfl⟩ : ∃ n, fuel = n + 1 :=
    ⟨fuel - 1, by simp [writeChars, writeLiteral] at hfuel; omega⟩
  rw [writeChars, hwrite, readValue?, skipSpace_cons _ (by decide)]
  simp only [hread, Option.map_some]

theorem readBack_array {items : List Json} (hformed : ∀ j ∈ items, Formed j)
    (h : ∀ j ∈ items, ReadBack j) : ReadBack (.array items) := by
  intro fuel r hfuel hr
  have hbracket : isSpace '[' = false := by decide
  have hend : isSpace ']' = false := by decide
  rw [writeChars, List.length_cons, List.length_append, List.length_singleton] at hfuel
  obtain ⟨fuel, rfl⟩ : ∃ n, fuel = n + 1 := ⟨fuel - 1, by omega⟩
  rw [writeChars, List.cons_append, List.append_assoc, List.singleton_append, readValue?,
    skipSpace_cons _ hbracket]
  by_cases hne : items = []
  · subst hne
    simp only [writeItems, List.nil_append, skipSpace_cons _ hend]
  · obtain ⟨c, cs, hwrite, hspace, hc⟩ := exists_writeItems_eq_cons hformed hne
    have hitems := readItems?_writeItems h hne fuel r (by omega)
    rw [hwrite, List.cons_append] at hitems ⊢
    simp only [skipSpace_cons _ hspace]
    split
    · rename_i heq
      exact absurd (List.cons.inj heq).1 hc
    · rw [hitems]
      rfl

theorem readBack_object {fields : List (Literal × Json)} (hnames : ∀ f ∈ fields, f.1.isSome)
    (h : ∀ f ∈ fields, ReadBack f.2) : ReadBack (.object fields) := by
  intro fuel r hfuel hr
  have hbrace : isSpace '\x7b' = false := by decide
  have hquote : isSpace '"' = false := by decide
  have hend : isSpace '\x7d' = false := by decide
  rw [writeChars, List.length_cons, List.length_append, List.length_singleton] at hfuel
  obtain ⟨fuel, rfl⟩ : ∃ n, fuel = n + 1 := ⟨fuel - 1, by omega⟩
  rw [writeChars, List.cons_append, List.append_assoc, List.singleton_append, readValue?,
    skipSpace_cons _ hbrace]
  by_cases hne : fields = []
  · subst hne
    simp only [writeFields, List.nil_append, skipSpace_cons _ hend]
  · obtain ⟨cs, hwrite⟩ := exists_writeFields_eq_cons hne
    have hfields := readFields?_writeFields hnames h hne fuel r (by omega)
    rw [hwrite, List.cons_append] at hfields ⊢
    simp only [skipSpace_cons _ hquote, hfields, Option.map_some]
    rfl

theorem Formed.readBack (h : Formed j) : ReadBack j := by
  induction h with
  | null =>
    intro fuel r hfuel hr
    obtain ⟨fuel, rfl⟩ : ∃ n, fuel = n + 1 := ⟨fuel - 1, by simp [writeChars] at hfuel; omega⟩
    rfl
  | bool b =>
    intro fuel r hfuel hr
    cases b
    all_goals
      obtain ⟨fuel, rfl⟩ : ∃ n, fuel = n + 1 := ⟨fuel - 1, by simp [writeChars] at hfuel; omega⟩
      rfl
  | number ht => exact readBack_number ht
  | string s => exact readBack_string s
  | array hformed ih => exact readBack_array hformed ih
  | object hnames _ ih => exact readBack_object hnames ih

theorem Formed.read?_write (h : Formed j) : read? j.write = some j := by
  have hread := h.readBack (2 * j.writeChars.length + 2) [] (by omega) (by rintro c ⟨⟩)
  rw [List.append_nil] at hread
  rw [read?, write, String.toList_ofList]
  simp only [hread]
  rfl

/-- The text of a clean document is read as the document. -/
theorem read?_write (h : Clean d j) : read? j.write = some j :=
  h.formed.read?_write

theorem Formed.eq_of_write_eq {k : Json} (hj : Formed j) (hk : Formed k) (h : j.write = k.write) :
    j = k := by
  have hread := hj.read?_write
  rw [h, hk.read?_write] at hread
  exact (Option.some.inj hread).symm

end Json

end SpacedReview
