import SpacedReview.Proofs.Decimal.Shortest
import SpacedReview.Proofs.Json.Records

/-!
# Documents tell values apart

Different values are written as different documents. Where a value is decoded from its document
this is immediate; a float is told apart by its numeral also where the reader is a bit off, and
records with the same names are told apart by the values of their fields.

## Main statements

- `Json.injective_of_encodes` — values that are decoded again
- `Json.ofFloat_inj` — finite floats
- `Json.ofFields_inj` — records
-/

namespace SpacedReview

namespace Json

variable {α : Type} {decode : Json → Option α} {encode : α → Json} {d : Nat}

/-! ## Single values -/

theorem injective_of_encodes (h : ∀ a, Encodes decode d a (encode a)) :
    Function.Injective encode := by
  intro a b hab
  have ha := (h a).decode_eq
  rw [hab, (h b).decode_eq] at ha
  exact (Option.some.inj ha).symm

theorem ofString_injective : Function.Injective ofString :=
  injective_of_encodes (encodes_ofString 0)

theorem ofNat_injective : Function.Injective ofNat := by
  intro m n h
  have hdigits : Numeral.digits m = Numeral.digits n := by
    rw [ofNat, ofNat, number.injEq] at h
    exact congrArg Decimal.Token.whole h
  rw [← Numeral.value_digits m, hdigits, Numeral.value_digits]

theorem formed_ofFloat (x : Float) : Formed (ofFloat x) := by
  unfold ofFloat
  split
  · exact .number (Decimal.Layout.wellFormed_token (by decide) (by decide) (.inr rfl) x)
  · exact .null

/-- Finite floats with one document are the same float. -/
theorem ofFloat_inj {x y : Float} (hx : x.isFinite) (hy : y.isFinite)
    (h : ofFloat x = ofFloat y) : x = y := by
  rw [ofFloat, ofFloat, if_pos hx, if_pos hy, number.injEq] at h
  exact Decimal.Layout.token_inj (by decide) h

/-! ## Records -/

theorem formed_ofFields {fields : List (String × Option Json)}
    (h : ∀ f ∈ fields, ∀ j ∈ f.2, Formed j) : Formed (ofFields fields) := by
  refine .object (fun f hf => ?_) fun f hf => ?_
  all_goals obtain ⟨name, j, hmem, rfl⟩ := mem_ofFields.1 hf
  · rfl
  · exact h _ hmem j rfl

/-- Records with the same names that are written as one document have the same fields. -/
theorem ofFields_inj (names : List String) {fs gs : List (String × Option Json)}
    (h : ofFields fs = ofFields gs) (hfs : fs.map (·.1) = names) (hgs : gs.map (·.1) = names)
    (hnodup : names.Nodup) : fs = gs := by
  -- A name that is written is one of the names.
  have hfresh {name : String} (j : Json) (fs : List (String × Option Json))
      (hname : name ∉ fs.map (·.1)) : (some name, j) ∉
        fs.filterMap fun f => f.2.map fun v => ((some f.1, v) : Literal × Json) := by
    intro hmem
    obtain ⟨n, v, hfield, heq⟩ := mem_ofFields.1 hmem
    obtain rfl : name = n := Option.some.inj (congrArg Prod.fst heq)
    exact hname (List.mem_map_of_mem hfield)
  rw [ofFields, ofFields, object.injEq] at h
  induction names generalizing fs gs with
  | nil => rw [List.map_eq_nil_iff.1 hfs, List.map_eq_nil_iff.1 hgs]
  | cons name names ih =>
    obtain ⟨⟨_, v⟩, fs, rfl, rfl, hfs'⟩ := List.map_eq_cons_iff.1 hfs
    obtain ⟨⟨_, w⟩, gs, rfl, rfl, hgs'⟩ := List.map_eq_cons_iff.1 hgs
    rw [List.nodup_cons] at hnodup
    cases v with
    | none =>
      cases w with
      | none =>
        have hrest : fs = gs := ih h hfs' hgs' hnodup.2
        rw [hrest]
      | some k =>
        have hmem := hfresh k fs (hfs' ▸ hnodup.1)
        exact absurd (h ▸ List.mem_cons_self) hmem
    | some j =>
      cases w with
      | none =>
        have hmem := hfresh j gs (hgs' ▸ hnodup.1)
        exact absurd (h ▸ List.mem_cons_self) hmem
      | some k =>
        obtain ⟨hvalue, hfields⟩ := List.cons.inj h
        obtain rfl : j = k := congrArg Prod.snd hvalue
        rw [ih hfields hfs' hgs' hnodup.2]

end Json

end SpacedReview
