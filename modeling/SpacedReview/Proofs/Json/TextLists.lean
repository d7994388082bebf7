import Mathlib.Data.List.TakeWhile
import SpacedReview.Document.Catalog
import SpacedReview.Proofs.Json.Documents

/-!
# Lists of texts

A list of texts is written as string literals in brackets, with commas between them and blanks
anywhere around them. In a literal a character stands for itself, or is escaped by a letter, by its
code unit, or by the two code units of a surrogate pair. A document is read as a list of texts
exactly if it is written like this, and no other texts are read than those that it spells.

## Main definitions

- `Json.SpellsText` — the text of a literal
- `Json.SpellsTexts` — the texts of a list

## Main statements

- `Json.readLiteral?_eq_some` — reading a literal
- `Json.optionsOfJson?_read?` — reading a list of texts
-/

namespace SpacedReview

namespace Json

/-! ## Literals -/

/-- The characters in a literal that stand for one character of its text. -/
inductive SpellsChar : List Char → Char → Prop
  | plain {c : Char} (hquote : c ≠ '"') (hslash : c ≠ '\\') (hplain : 0x20 ≤ c.toNat) :
      SpellsChar [c] c
  | escaped {c e : Char} (h : escaped? c = some e) : SpellsChar ['\\', c] e
  | unit {a b c d : Char} {n : Nat} (h : codeUnit? a b c d = some n)
      (hlow : isLowSurrogate n = false) (hhigh : isHighSurrogate n = false) :
      SpellsChar ['\\', 'u', a, b, c, d] (Char.ofNat n)
  | pair {a b c d a' b' c' d' : Char} {m n : Nat} (hm : codeUnit? a b c d = some m)
      (hn : codeUnit? a' b' c' d' = some n) (hhigh : isHighSurrogate m)
      (hlow : isLowSurrogate n) :
      SpellsChar ['\\', 'u', a, b, c, d, '\\', 'u', a', b', c', d'] (pairChar m n)

/-- The characters between the quotes of a literal and its text. -/
inductive SpellsText : List Char → List Char → Prop
  | nil : SpellsText [] []
  | cons {front body text : List Char} {c : Char} (hc : SpellsChar front c)
      (h : SpellsText body text) : SpellsText (front ++ body) (c :: text)

/-- The characters between the quotes and the pieces that they are read as. -/
inductive SpellsPieces : List Char → List Piece → Prop
  | nil : SpellsPieces [] []
  | plain {c : Char} {body : List Char} {ps : List Piece} (hquote : c ≠ '"') (hslash : c ≠ '\\')
      (hplain : 0x20 ≤ c.toNat) (h : SpellsPieces body ps) : SpellsPieces (c :: body) (.char c :: ps)
  | escaped {c e : Char} {body : List Char} {ps : List Piece} (hc : escaped? c = some e)
      (h : SpellsPieces body ps) : SpellsPieces ('\\' :: c :: body) (.char e :: ps)
  | unit {a b c d : Char} {n : Nat} {body : List Char} {ps : List Piece}
      (hn : codeUnit? a b c d = some n) (h : SpellsPieces body ps) :
      SpellsPieces ('\\' :: 'u' :: a :: b :: c :: d :: body) (.unit n :: ps)

/-- The pieces and the text that they are joined to. -/
inductive Joins : List Piece → List Char → Prop
  | nil : Joins [] []
  | char {c : Char} {ps : List Piece} {text : List Char} (h : Joins ps text) :
      Joins (.char c :: ps) (c :: text)
  | unit {n : Nat} {ps : List Piece} {text : List Char} (hlow : isLowSurrogate n = false)
      (hhigh : isHighSurrogate n = false) (h : Joins ps text) :
      Joins (.unit n :: ps) (Char.ofNat n :: text)
  | pair {m n : Nat} {ps : List Piece} {text : List Char} (hhigh : isHighSurrogate m)
      (hlow : isLowSurrogate n) (h : Joins ps text) :
      Joins (.unit m :: .unit n :: ps) (pairChar m n :: text)

theorem Joins.append {ps qs : List Piece} {text more : List Char} (h : Joins ps text)
    (hmore : Joins qs more) : Joins (ps ++ qs) (text ++ more) := by
  induction h with
  | nil => exact hmore
  | char _ ih => exact .char ih
  | unit hlow hhigh _ ih => exact .unit hlow hhigh ih
  | pair hhigh hlow _ ih => exact .pair hhigh hlow ih

/-- A text is spelled by pieces that are joined to it. -/
theorem spellsText_iff {body text : List Char} :
    SpellsText body text ↔ ∃ ps, SpellsPieces body ps ∧ Joins ps text := by
  constructor
  · intro h
    induction h with
    | nil => exact ⟨[], .nil, .nil⟩
    | cons hc _ ih =>
      obtain ⟨ps, hspells, hjoins⟩ := ih
      cases hc with
      | plain hquote hslash hplain =>
        exact ⟨_, .plain hquote hslash hplain hspells, .char hjoins⟩
      | escaped h => exact ⟨_, .escaped h hspells, .char hjoins⟩
      | unit h hlow hhigh => exact ⟨_, .unit h hspells, .unit hlow hhigh hjoins⟩
      | pair hm hn hhigh hlow => exact ⟨_, .unit hm (.unit hn hspells), .pair hhigh hlow hjoins⟩
  · rintro ⟨ps, hspells, hjoins⟩
    induction hjoins generalizing body with
    | nil =>
      cases hspells
      exact .nil
    | char _ ih =>
      cases hspells with
      | plain hquote hslash hplain h => exact .cons (.plain hquote hslash hplain) (ih h)
      | escaped hc h => exact .cons (.escaped hc) (ih h)
    | unit hlow hhigh _ ih =>
      cases hspells with
      | unit hn h => exact .cons (.unit hn hlow hhigh) (ih h)
    | pair hhigh hlow _ ih =>
      cases hspells with
      | unit hm h =>
        cases h with
        | unit hn h => exact .cons (.pair hm hn hhigh hlow) (ih h)

theorem readPieces?_of_spells {body : List Char} {ps : List Piece} (h : SpellsPieces body ps)
    (done : List Piece) (r : List Char) :
    readPieces? done (body ++ '"' :: r) = some (ps.reverse ++ done, r) := by
  induction h generalizing done with
  | nil => rfl
  | plain hquote hslash hplain _ ih =>
    rw [List.cons_append, readPieces?_plain done _ hquote hslash hplain, ih, List.reverse_cons,
      List.append_assoc]
    rfl
  | @escaped c e body ps hc _ ih =>
    have hu : c ≠ 'u' := by
      rintro rfl
      cases hc
    simp only [List.cons_append]
    rw [readPieces?]
    · simp only [hc, ih, List.reverse_cons, List.append_assoc]
      rfl
    · intro a b d e r' hcs
      exact absurd hcs hu
  | unit hn _ ih =>
    simp only [List.cons_append]
    rw [readPieces?, hn]
    simp only [ih, List.reverse_cons, List.append_assoc]
    rfl

theorem spells_of_readPieces? {done rev : List Piece} {cs r : List Char}
    (h : readPieces? done cs = some (rev, r)) :
    ∃ body ps, SpellsPieces body ps ∧ cs = body ++ '"' :: r ∧ rev = ps.reverse ++ done := by
  fun_induction readPieces? done cs with
  | case1 => cases h
  | case2 done r' =>
    obtain ⟨rfl, rfl⟩ := Prod.mk.inj (Option.some.inj h)
    exact ⟨[], [], .nil, rfl, rfl⟩
  | case3 => cases h
  | case4 done a b c d r' n hn ih =>
    obtain ⟨body, ps, hspells, rfl, rfl⟩ := ih h
    exact ⟨_, _, .unit hn hspells, rfl, by simp⟩
  | case5 => cases h
  | case6 done c r' hu e he ih =>
    obtain ⟨body, ps, hspells, rfl, rfl⟩ := ih h
    exact ⟨_, _, .escaped he hspells, rfl, by simp⟩
  | case7 => cases h
  | case8 done c r' hquote hunit hslash hplain ih =>
    obtain ⟨body, ps, hspells, rfl, rfl⟩ := ih h
    have hne : c ≠ '\\' := by
      rintro rfl
      obtain ⟨e, rest, hrest⟩ := List.exists_cons_of_ne_nil (l := body ++ '"' :: r) (by simp)
      exact hslash e rest rfl hrest
    exact ⟨_, _, .plain hquote hne (Nat.le_of_not_lt hplain) hspells, rfl, by simp⟩

/-! ### Surrogate pairs -/

theorem joinPieces?_unit {n : Nat} (hlow : isLowSurrogate n = false)
    (hhigh : isHighSurrogate n = false) (done : List Char) (ps : List Piece) :
    joinPieces? done (.unit n :: ps) = joinPieces? (Char.ofNat n :: done) ps := by
  obtain _ | ⟨c | m, ps⟩ := ps <;> simp [joinPieces?, hlow, hhigh]

/-- Pieces behind others that are joined are joined in front of the text of these. -/
theorem joinPieces?_append {done mid : List Char} {ps : List Piece}
    (h : joinPieces? done ps = some mid) (qs : List Piece) :
    joinPieces? done (ps ++ qs) = joinPieces? mid qs := by
  fun_induction joinPieces? done ps with
  | case1 done =>
    obtain rfl := Option.some.inj h
    rfl
  | case2 done c ps ih =>
    rw [List.cons_append, joinPieces?, ih h]
  | case3 done m n ps hlow hhigh ih =>
    rw [List.cons_append, List.cons_append, joinPieces?, if_pos hlow, if_pos hhigh, ih h]
  | case4 => cases h
  | case5 => cases h
  | case6 done m n ps hlow hhigh ih =>
    rw [Bool.not_eq_true] at hlow hhigh
    rw [List.cons_append, joinPieces?_unit hlow hhigh, ih h]
  | case7 => cases h
  | case8 done m ps hne hplain ih =>
    rw [Bool.or_eq_true, not_or, Bool.not_eq_true, Bool.not_eq_true] at hplain
    rw [List.cons_append, joinPieces?_unit hplain.1 hplain.2, ih h]

theorem joinPieces?_of_joins {ps : List Piece} {text : List Char} (h : Joins ps text)
    (done : List Char) : joinPieces? done ps.reverse = some (text ++ done) := by
  induction h generalizing done with
  | nil => rfl
  | @char c ps text _ ih =>
    rw [List.reverse_cons, joinPieces?_append (ih done)]
    rfl
  | @unit n ps text hlow hhigh _ ih =>
    rw [List.reverse_cons, joinPieces?_append (ih done), joinPieces?_unit hlow hhigh]
    rfl
  | @pair m n ps text hhigh hlow _ ih =>
    rw [List.reverse_cons, List.reverse_cons, List.append_assoc, joinPieces?_append (ih done)]
    simp [joinPieces?, hlow, hhigh]

theorem joins_of_joinPieces? {done text : List Char} {rev : List Piece}
    (h : joinPieces? done rev = some text) :
    ∃ front, Joins rev.reverse front ∧ text = front ++ done := by
  fun_induction joinPieces? done rev with
  | case1 done =>
    obtain rfl := Option.some.inj h
    exact ⟨[], .nil, rfl⟩
  | case2 done c ps ih =>
    obtain ⟨front, hjoins, rfl⟩ := ih h
    refine ⟨front ++ [c], ?_, by simp⟩
    rw [List.reverse_cons]
    exact hjoins.append (.char .nil)
  | case3 done m n ps hlow hhigh ih =>
    obtain ⟨front, hjoins, rfl⟩ := ih h
    refine ⟨front ++ [pairChar n m], ?_, by simp⟩
    rw [List.reverse_cons, List.reverse_cons, List.append_assoc]
    exact hjoins.append (.pair hhigh hlow .nil)
  | case4 => cases h
  | case5 => cases h
  | case6 done m n ps hlow hhigh ih =>
    obtain ⟨front, hjoins, rfl⟩ := ih h
    refine ⟨front ++ [Char.ofNat m], ?_, by simp⟩
    rw [List.reverse_cons]
    exact hjoins.append (.unit (by simpa using hlow) (by simpa using hhigh) .nil)
  | case7 => cases h
  | case8 done m ps hne hplain ih =>
    obtain ⟨front, hjoins, rfl⟩ := ih h
    rw [Bool.or_eq_true, not_or, Bool.not_eq_true, Bool.not_eq_true] at hplain
    refine ⟨front ++ [Char.ofNat m], ?_, by simp⟩
    rw [List.reverse_cons]
    exact hjoins.append (.unit hplain.1 hplain.2 .nil)

/-- A literal is read up to its closing quote as the text that it spells. -/
theorem readLiteral?_eq_some {cs r : List Char} {s : String} :
    readLiteral? cs = some (some s, r) ↔
      ∃ body, SpellsText body s.toList ∧ cs = body ++ '"' :: r := by
  constructor
  · intro h
    obtain ⟨⟨rev, r'⟩, hread, hpair⟩ := Option.map_eq_some_iff.1 h
    obtain ⟨hjoin, rfl⟩ := Prod.mk.inj hpair
    obtain ⟨text, htext, rfl⟩ := Option.map_eq_some_iff.1 hjoin
    obtain ⟨body, ps, hspells, rfl, rfl⟩ := spells_of_readPieces? hread
    obtain ⟨front, hjoins, rfl⟩ := joins_of_joinPieces? htext
    rw [List.append_nil, List.reverse_reverse] at hjoins
    rw [List.append_nil, String.toList_ofList]
    exact ⟨body, spellsText_iff.2 ⟨ps, hspells, hjoins⟩, rfl⟩
  · rintro ⟨body, hspells, rfl⟩
    obtain ⟨ps, hspells, hjoins⟩ := spellsText_iff.1 hspells
    have hjoin := joinPieces?_of_joins hjoins []
    rw [List.append_nil] at hjoin
    rw [readLiteral?, readPieces?_of_spells hspells, List.append_nil]
    simp only [Option.map_some, hjoin, String.ofList_toList]

/-! ## Lists -/

/-- The characters are blanks. -/
def AreSpaces (cs : List Char) : Prop :=
  ∀ c ∈ cs, isSpace c

/-- The characters are a literal of the text with blanks around it. -/
def SpellsItem (cs : List Char) (s : String) : Prop :=
  ∃ front body back, cs = front ++ '"' :: (body ++ '"' :: back) ∧ AreSpaces front ∧
    AreSpaces back ∧ SpellsText body s.toList

/-- The characters are literals of the texts, at least one, with commas between them. -/
inductive SpellsItems : List Char → List String → Prop
  | one {cs : List Char} {s : String} (h : SpellsItem cs s) : SpellsItems cs [s]
  | cons {cs rest : List Char} {s : String} {ss : List String} (h : SpellsItem cs s)
      (hrest : SpellsItems rest ss) : SpellsItems (cs ++ ',' :: rest) (s :: ss)

/-- The characters are a list of the texts with blanks around it. -/
inductive SpellsTexts : List Char → List String → Prop
  | empty {front inner back : List Char} (hfront : AreSpaces front) (hinner : AreSpaces inner)
      (hback : AreSpaces back) : SpellsTexts (front ++ '[' :: (inner ++ ']' :: back)) []
  | items {front inner back : List Char} {ss : List String} (hfront : AreSpaces front)
      (hback : AreSpaces back) (h : SpellsItems inner ss) :
      SpellsTexts (front ++ '[' :: (inner ++ ']' :: back)) ss

theorem skipSpace_append {front : List Char} (h : AreSpaces front) (cs : List Char) :
    skipSpace (front ++ cs) = skipSpace cs :=
  List.dropWhile_append_of_pos h

theorem exists_areSpaces (cs : List Char) :
    ∃ front, AreSpaces front ∧ cs = front ++ skipSpace cs :=
  ⟨cs.takeWhile isSpace, fun _ hc => List.mem_takeWhile_imp hc,
    List.takeWhile_append_dropWhile.symm⟩

theorem skipSpace_eq_nil {cs : List Char} : skipSpace cs = [] ↔ AreSpaces cs :=
  List.dropWhile_eq_nil_iff

/-- What a value begins with that is a literal. -/
theorem readValue?_eq_string {fuel : Nat} {cs r : List Char} {s : String} :
    readValue? (fuel + 1) cs = some (ofString s, r) ↔
      ∃ front body, cs = front ++ '"' :: (body ++ '"' :: r) ∧ AreSpaces front ∧
        SpellsText body s.toList := by
  constructor
  · intro h
    obtain ⟨front, hfront, hcs⟩ := exists_areSpaces cs
    rw [readValue?] at h
    split at h
    · cases h
    · cases h
    · cases h
    · rename_i rest hrest
      obtain ⟨⟨literal, r'⟩, hread, hpair⟩ := Option.map_eq_some_iff.1 h
      obtain ⟨hliteral, rfl⟩ := Prod.mk.inj hpair
      obtain rfl := Json.string.inj hliteral
      obtain ⟨body, hspells, rfl⟩ := readLiteral?_eq_some.1 hread
      exact ⟨front, body, hrest ▸ hcs, hfront, hspells⟩
    · split at h <;> simp [ofString] at h
    · split at h <;> simp [ofString] at h
    · simp [ofString] at h
  · rintro ⟨front, body, rfl, hfront, hspells⟩
    have hquote : isSpace '"' = false := by decide
    rw [readValue?, skipSpace_append hfront, skipSpace_cons _ hquote]
    simp only [readLiteral?_eq_some.2 ⟨body, hspells, rfl⟩, Option.map_some]
    rfl

/-- Items that are literals are read up to the closing bracket. -/
theorem spellsItems_of_readItems? {fuel : Nat} {cs r : List Char} {ss : List String}
    (h : readItems? fuel cs = some (ss.map ofString, r)) :
    ∃ inner, SpellsItems inner ss ∧ cs = inner ++ ']' :: r := by
  induction fuel generalizing cs ss with
  | zero => cases h
  | succ fuel ih =>
    rw [readItems?] at h
    obtain ⟨⟨j, r'⟩, hread, h⟩ := Option.bind_eq_some_iff.1 h
    obtain ⟨back, hback, hr⟩ := exists_areSpaces r'
    -- The first item is a literal, and so there was fuel for it.
    have hitem {s : String} (hj : j = ofString s) : ∃ item, SpellsItem (item ++ back) s ∧
        cs = item ++ r' := by
      subst hj
      cases fuel with
      | zero => cases hread
      | succ fuel =>
        obtain ⟨front, body, rfl, hfront, hspells⟩ := readValue?_eq_string.1 hread
        refine ⟨front ++ '"' :: (body ++ ['"']), ⟨front, body, back, ?_, hfront, hback, hspells⟩,
          ?_⟩
        · simp
        · simp
    dsimp only at h
    split at h
    · rename_i rest hrest
      obtain ⟨⟨js, r''⟩, hitems, hpair⟩ := Option.map_eq_some_iff.1 h
      obtain ⟨hss, rfl⟩ := Prod.mk.inj hpair
      cases ss with
      | nil => cases hss
      | cons s ss =>
        obtain ⟨hj, rfl⟩ := List.cons.inj hss
        obtain ⟨inner, hinner, rfl⟩ := ih hitems
        obtain ⟨item, hspells, rfl⟩ := hitem hj
        refine ⟨_, .cons hspells hinner, ?_⟩
        rw [hr, hrest]
        simp
    · rename_i rest hrest
      obtain ⟨hss, rfl⟩ := Prod.mk.inj (Option.some.inj h)
      cases ss with
      | nil => cases hss
      | cons s ss =>
        obtain ⟨hj, hnil⟩ := List.cons.inj hss
        obtain rfl := List.map_eq_nil_iff.1 hnil.symm
        obtain ⟨item, hspells, rfl⟩ := hitem hj
        refine ⟨_, .one hspells, ?_⟩
        rw [hr, hrest]
        simp
    · cases h

theorem readValue?_of_spellsItem {cs : List Char} {s : String} (h : SpellsItem cs s) (fuel : Nat)
    (r : List Char) : ∃ back, AreSpaces back ∧
      readValue? (fuel + 1) (cs ++ r) = some (ofString s, back ++ r) := by
  obtain ⟨front, body, back, rfl, hfront, hback, hspells⟩ := h
  exact ⟨back, hback, readValue?_eq_string.2 ⟨front, body, by simp, hfront, hspells⟩⟩

/-- One step of fuel for each item and one more are enough. -/
theorem readItems?_of_spellsItems {inner : List Char} {ss : List String}
    (h : SpellsItems inner ss) {fuel : Nat} (hfuel : ss.length < fuel) (r : List Char) :
    readItems? fuel (inner ++ ']' :: r) = some (ss.map ofString, r) := by
  have hend : isSpace ']' = false := by decide
  have hcomma : isSpace ',' = false := by decide
  induction h generalizing fuel with
  | @one cs s h =>
    obtain ⟨fuel, rfl⟩ : ∃ k, fuel = k + 2 := ⟨fuel - 2, by simp at hfuel; omega⟩
    obtain ⟨back, hback, hread⟩ := readValue?_of_spellsItem h fuel (']' :: r)
    rw [readItems?]
    simp only [hread, Option.bind_eq_bind, Option.bind_some, skipSpace_append hback,
      skipSpace_cons _ hend]
    rfl
  | @cons cs rest s ss h _ ih =>
    obtain ⟨fuel, rfl⟩ : ∃ k, fuel = k + 2 := ⟨fuel - 2, by simp at hfuel; omega⟩
    obtain ⟨back, hback, hread⟩ :=
      readValue?_of_spellsItem h fuel (',' :: (rest ++ ']' :: r))
    have hitems : readItems? (fuel + 1) (rest ++ ']' :: r) = some (ss.map ofString, r) :=
      ih (by simp at hfuel; omega)
    rw [List.append_assoc, List.cons_append, readItems?]
    simp only [hread, Option.bind_eq_bind, Option.bind_some, skipSpace_append hback,
      skipSpace_cons _ hcomma, hitems, Option.map_some]
    rfl

/-- Each item has at least its quotes. -/
theorem SpellsItems.length_le {inner : List Char} {ss : List String} (h : SpellsItems inner ss) :
    ss.length ≤ inner.length := by
  have hitem {cs : List Char} {s : String} (h : SpellsItem cs s) : 1 ≤ cs.length := by
    obtain ⟨front, body, back, rfl, -⟩ := h
    simp
    omega
  induction h with
  | one h => exact hitem h
  | cons h _ ih =>
    have := hitem h
    simp only [List.length_cons, List.length_append]
    omega

/-- A literal is no closing bracket. -/
theorem SpellsItems.skipSpace_ne {inner : List Char} {ss : List String} (h : SpellsItems inner ss)
    (r : List Char) : ∃ cs, skipSpace (inner ++ r) = '"' :: cs := by
  have hquote : isSpace '"' = false := by decide
  have hitem {cs : List Char} {s : String} (h : SpellsItem cs s) (r : List Char) :
      ∃ rest, skipSpace (cs ++ r) = '"' :: rest := by
    obtain ⟨front, body, back, rfl, hfront, -⟩ := h
    refine ⟨body ++ '"' :: (back ++ r), ?_⟩
    rw [List.append_assoc, skipSpace_append hfront, List.cons_append, skipSpace_cons _ hquote]
    simp
  cases h with
  | one h => exact hitem h r
  | cons h _ =>
    rw [List.append_assoc]
    exact hitem h _

theorem text?_eq_some {j : Json} {s : String} : text? j = some s ↔ j = ofString s := by
  cases j <;> simp [text?, ofString]

/-- The texts of a list are those of its items. -/
theorem optionsOfJson?_eq_some {j : Json} {ss : List String} :
    Phrasing.optionsOfJson? j = some ss ↔ j = .array (ss.map ofString) := by
  have hitems (js : List Json) : js.mapM text? = some ss ↔ js = ss.map ofString := by
    induction js generalizing ss with
    | nil => cases ss <;> simp
    | cons j js ih =>
      cases ss with
      | nil => simp [List.mapM_cons, Option.bind_eq_some_iff]
      | cons s ss => simp [List.mapM_cons, Option.bind_eq_some_iff, text?_eq_some, ih]
  cases j with
  | array js => simpa [Phrasing.optionsOfJson?, list?] using hitems js
  | _ => simp [Phrasing.optionsOfJson?, list?]

/-- What a value begins with that is a list. -/
theorem readValue?_eq_array {fuel : Nat} {cs r : List Char} {js : List Json} :
    readValue? (fuel + 1) cs = some (.array js, r) ↔
      ∃ front rest, cs = front ++ '[' :: rest ∧ AreSpaces front ∧
        (js = [] ∧ skipSpace rest = ']' :: r ∨
          (∀ r', skipSpace rest ≠ ']' :: r') ∧ readItems? fuel rest = some (js, r)) := by
  constructor
  · intro h
    obtain ⟨front, hfront, hcs⟩ := exists_areSpaces cs
    rw [readValue?] at h
    split at h
    · cases h
    · cases h
    · cases h
    · simp at h
    · rename_i rest hrest
      refine ⟨front, rest, hrest ▸ hcs, hfront, ?_⟩
      split at h
      · rename_i r' hend
        obtain ⟨hjs, rfl⟩ := Prod.mk.inj (Option.some.inj h)
        exact .inl ⟨(Json.array.inj hjs).symm, hend⟩
      · rename_i hne
        obtain ⟨⟨items, r'⟩, hitems, hpair⟩ := Option.map_eq_some_iff.1 h
        obtain ⟨hjs, rfl⟩ := Prod.mk.inj hpair
        obtain rfl := Json.array.inj hjs
        exact .inr ⟨hne, hitems⟩
    · split at h <;> simp at h
    · simp at h
  · rintro ⟨front, rest, rfl, hfront, hrest⟩
    have hbracket : isSpace '[' = false := by decide
    rw [readValue?, skipSpace_append hfront, skipSpace_cons _ hbracket]
    rcases hrest with ⟨rfl, hend⟩ | ⟨hne, hitems⟩
    · simp only [hend]
    · simp only [hitems, Option.map_some]

theorem read?_eq_some {text : String} {j : Json} : read? text = some j ↔
    ∃ back, AreSpaces back ∧
      readValue? (2 * text.toList.length + 2) text.toList = some (j, back) := by
  unfold read?
  constructor
  · intro h
    dsimp only at h
    split at h
    · rename_i j' back hread
      rw [Option.ite_none_right_eq_some, Option.some.injEq] at h
      obtain ⟨hback, rfl⟩ := h
      exact ⟨back, skipSpace_eq_nil.1 hback, hread⟩
    · cases h
  · rintro ⟨back, hback, hread⟩
    simp only [hread, skipSpace_eq_nil.2 hback, if_true]

/-- A text is read as a list of texts exactly if it is written as that list. -/
theorem optionsOfJson?_read? {text : String} {ss : List String} :
    (read? text).bind Phrasing.optionsOfJson? = some ss ↔ SpellsTexts text.toList ss := by
  simp only [Option.bind_eq_some_iff, optionsOfJson?_eq_some, exists_eq_right, read?_eq_some,
    readValue?_eq_array]
  constructor
  · rintro ⟨back, hback, front, rest, htext, hfront, ⟨hss, hend⟩ | ⟨-, hitems⟩⟩
    · obtain ⟨inner, hinner, hrest⟩ := exists_areSpaces rest
      obtain rfl := List.map_eq_nil_iff.1 hss
      rw [htext, hrest, hend]
      exact .empty hfront hinner hback
    · obtain ⟨inner, hinner, rfl⟩ := spellsItems_of_readItems? hitems
      rw [htext]
      exact .items hfront hback hinner
  · generalize htext : text.toList = cs
    intro h
    have hend : isSpace ']' = false := by decide
    cases h with
    | @empty front inner back hfront hinner hback =>
      refine ⟨back, hback, front, _, rfl, hfront, .inl ⟨rfl, ?_⟩⟩
      rw [skipSpace_append hinner, skipSpace_cons _ hend]
    | @items front inner back ss hfront hback h =>
      refine ⟨back, hback, front, _, rfl, hfront, .inr ⟨fun r hr => ?_, ?_⟩⟩
      · obtain ⟨rest, hrest⟩ := h.skipSpace_ne (']' :: back)
        rw [hrest] at hr
        cases hr
      · refine readItems?_of_spellsItems h ?_ back
        have := h.length_le
        simp only [List.length_append, List.length_cons]
        omega

end Json

end SpacedReview
