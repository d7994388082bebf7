import SpacedReview.Proofs.Document.Session
import SpacedReview.Proofs.Json.Distinct
import SpacedReview.Proofs.Session.Consistency
import SpacedReview.Session.Fingerprint

/-!
# What a fingerprint tells apart

The text behind a fingerprint is a document of the view and of all that does not drift in the
candidate. No other document has this text, and its records are told apart field by field, so two
texts are equal only if the views are and the candidates agree in everything but the estimated
recall.

## Main definitions

- `ReviewCandidate.AgreesUpToRecall` — candidates that differ in the estimated recall at most

## Main statements

- `fingerprintText_eq_iff` — candidates and views with one text
-/

namespace SpacedReview

open Json

/-! ## Concepts -/

theorem Instant.toJson_injective : Function.Injective toJson :=
  injective_of_encodes (encodes_toJson 0)

theorem MemoryState.formed_toJson (m : MemoryState) : m.toJson.Formed := by
  have hstate := (m.state.encodes_toJson 0).clean.formed
  have hinstant (t : Instant) : t.toJson.Formed := (t.clean_toJson 0).formed
  have hword (n : UInt32) : (ofNat n.toNat).Formed := (clean_word32 0 n).formed
  exact formed_ofFields (by simp [hstate, formed_ofFloat, hinstant, hword])

theorem Concept.formed_toJson (c : Concept) : c.toJson.Formed := by
  have htext (s : String) : (ofString s).Formed := .string s
  have hinstant (t : Instant) : t.toJson.Formed := (t.clean_toJson 0).formed
  exact formed_ofFields (by simp [htext, c.memory.formed_toJson, hinstant])

theorem MemoryState.toJson_inj {m n : MemoryState} (hm : ∀ x ∈ m.floats, x.isFinite)
    (hn : ∀ x ∈ n.floats, x.isFinite) (h : m.toJson = n.toJson) : m = n := by
  have hfields := ofFields_inj fieldNames h rfl rfl (by decide)
  simp only [List.cons.injEq, Prod.mk.injEq, Option.some.injEq, true_and, and_true] at hfields
  obtain ⟨hstate, hstability, hdifficulty, hreps, hlapses, hlast, hnext⟩ := hfields
  have hword : Function.Injective fun n : UInt32 => ofNat n.toNat :=
    injective_of_encodes (encodes_word32 0)
  have hstate := injective_of_encodes (LearningState.encodes_toJson 0) hstate
  have hstability := ofFloat_inj (hm _ (by simp [floats])) (hn _ (by simp [floats])) hstability
  have hdifficulty := ofFloat_inj (hm _ (by simp [floats])) (hn _ (by simp [floats])) hdifficulty
  have hlast := Option.map_injective Instant.toJson_injective hlast
  cases m
  cases n
  simp only at *
  rw [hstate, hstability, hdifficulty, hword hreps, hword hlapses, hlast,
    Instant.toJson_injective hnext]

theorem Concept.toJson_inj {c d : Concept} (hc : ∀ x ∈ c.memory.floats, x.isFinite)
    (hd : ∀ x ∈ d.memory.floats, x.isFinite) (h : c.toJson = d.toJson) : c = d := by
  have hfields := ofFields_inj fieldNames h rfl rfl (by decide)
  simp only [List.cons.injEq, Prod.mk.injEq, Option.some.injEq, true_and, and_true] at hfields
  obtain ⟨hid, htitle, hdescription, hmemory, hcanonical, hcreated, hupdated⟩ := hfields
  have hmemory := MemoryState.toJson_inj hc hd hmemory
  have htext := Option.map_injective ofString_injective
  cases c
  cases d
  simp only at *
  rw [ofString_injective hid, ofString_injective htitle, htext hdescription, hmemory,
    htext hcanonical, Instant.toJson_injective hcreated, Instant.toJson_injective hupdated]

/-! ## Views -/

theorem IdSet.encodes_toJson (s : IdSet) : Encodes ofJson? 1 s s.toJson :=
  encodes_listing 0 fun _ => Iff.rfl

theorem SkipView.toJson_injective : Function.Injective SkipView.toJson := by
  intro v w h
  have hfields := ofFields_inj ["skipped", "lastAutoSkipped"] h rfl rfl (by decide)
  simp only [List.cons.injEq, Prod.mk.injEq, Option.some.injEq, true_and, and_true] at hfields
  obtain ⟨hskipped, hlast⟩ := hfields
  have htext : Function.Injective (ofOption ofString) :=
    injective_of_encodes fun _ => encodes_ofOption (d := 0) rfl fun t _ => encodes_ofString 0 t
  cases v
  cases w
  simp only at *
  rw [injective_of_encodes IdSet.encodes_toJson hskipped, htext hlast]

theorem PollView.toJson_injective : Function.Injective PollView.toJson := by
  intro v w h
  have hfields := ofFields_inj ["generation", "skips"] h rfl rfl (by decide)
  simp only [List.cons.injEq, Prod.mk.injEq, Option.some.injEq, true_and, and_true] at hfields
  cases v
  cases w
  simp only at *
  rw [ofNat_injective hfields.1, SkipView.toJson_injective hfields.2]

/-! ## Candidates -/

namespace ReviewCandidate

/-- The candidates agree in everything but the estimated recall. -/
def AgreesUpToRecall : ReviewCandidate → ReviewCandidate → Prop
  | pending, pending => True
  | empty, empty => True
  | found f, found g => { f with retrievability := g.retrievability } = g
  | _, _ => False

/-- The memory of a found candidate has finite numbers. -/
def HasFiniteMemory : ReviewCandidate → Prop
  | found f => ∀ x ∈ f.concept.memory.floats, x.isFinite
  | _ => True

theorem stableJson_eq_of_agrees {c d : ReviewCandidate} (h : c.AgreesUpToRecall d) :
    c.stableJson = d.stableJson := by
  cases c <;> cases d <;> simp only [AgreesUpToRecall] at h
  · rfl
  · rfl
  · rw [← h]
    rfl

/-- The kind stands in front of the other fields. -/
theorem kind_eq_of_stableJson_eq {c d : ReviewCandidate} (h : c.stableJson = d.stableJson) :
    c.kind = d.kind := by
  unfold stableJson ofFields at h
  rw [object.injEq] at h
  exact ofString_injective (congrArg Prod.snd (List.cons.inj h).1)

theorem agrees_of_found {f g : FoundCandidate} (hf : (found f).HasFiniteMemory)
    (hg : (found g).HasFiniteMemory) (h : (found f).stableJson = (found g).stableJson) :
    (found f).AgreesUpToRecall (found g) := by
  have hfields := ofFields_inj ["kind", "concept", "phrasing", "phrasingStats",
    "selectionReason", "interactionHistory"] h rfl rfl (by decide)
  simp only [List.cons.injEq, Prod.mk.injEq, Option.some.injEq, true_and, and_true] at hfields
  obtain ⟨-, hconcept, hphrasing, hstats, hreason, hhistory⟩ := hfields
  have hplace : Function.Injective (ofOption PhrasingStats.toJson) :=
    injective_of_encodes fun _ => encodes_ofOption rfl fun s _ => s.encodes_toJson 0
  have hlist : Function.Injective fun is : List Interaction => array (is.map Interaction.toJson) :=
    injective_of_encodes Interaction.encodes_history
  have hconcept := Concept.toJson_inj hf hg hconcept
  have hphrasing := injective_of_encodes Phrasing.encodes_toJson hphrasing
  have hstats := hplace hstats
  have hreason := injective_of_encodes (SelectionReason.encodes_toJson 0) hreason
  have hhistory := hlist hhistory
  show { f with retrievability := g.retrievability } = g
  rw [hconcept, hphrasing, hstats, hreason, hhistory]

theorem agrees_of_stableJson_eq {c d : ReviewCandidate} (hc : c.HasFiniteMemory)
    (hd : d.HasFiniteMemory) (h : c.stableJson = d.stableJson) : c.AgreesUpToRecall d := by
  have hkind := kind_eq_of_stableJson_eq h
  cases c with
  | pending => cases d <;> first | trivial | simp [kind] at hkind
  | empty => cases d <;> first | trivial | simp [kind] at hkind
  | found f =>
    cases d with
    | pending | empty => simp [kind] at hkind
    | found g => exact agrees_of_found hc hd h

theorem formed_stableJson (c : ReviewCandidate) : c.stableJson.Formed := by
  have hkind : Formed (ofString c.kind) := .string c.kind
  refine formed_ofFields (List.forall_mem_cons.2 ⟨by simp [hkind], ?_⟩)
  cases c with
  | pending | empty => exact List.forall_mem_nil _
  | found f =>
    have hstats : Formed (ofOption PhrasingStats.toJson f.phrasingStats) :=
      (encodes_ofOption rfl fun s _ => s.encodes_toJson 0).clean.formed
    have hreason := (f.selectionReason.encodes_toJson 0).clean.formed
    have hhistory := (Interaction.encodes_history f.interactionHistory).clean.formed
    simp [f.concept.formed_toJson, f.phrasing.encodes_toJson.clean.formed, hstats, hreason,
      hhistory]

end ReviewCandidate

theorem PollView.formed_toJson (v : PollView) : v.toJson.Formed := by
  have hskipped := v.skips.skipped.encodes_toJson.clean.formed
  have hlast : Formed (ofOption ofString v.skips.lastAutoSkipped) :=
    (encodes_ofOption rfl fun t _ => encodes_ofString 0 t).clean.formed
  have hskips : Formed v.skips.toJson := formed_ofFields (by simp [hskipped, hlast])
  have hgeneration : Formed (ofNat v.generation) :=
    .number (Decimal.Token.wellFormed_ofNat v.generation)
  exact formed_ofFields (by simp [hgeneration, hskips])

/-- Two candidates whose memories are finite have one text, each under its view, exactly if the
    views are the same and the candidates agree in everything but the estimated recall. -/
theorem fingerprintText_eq_iff {v w : PollView} {c d : ReviewCandidate} (hc : c.HasFiniteMemory)
    (hd : d.HasFiniteMemory) :
    fingerprintText v c = fingerprintText w d ↔ v = w ∧ c.AgreesUpToRecall d := by
  have hformed (v : PollView) (c : ReviewCandidate) : (array [v.toJson, c.stableJson]).Formed :=
    .array (List.forall_mem_cons.2 ⟨v.formed_toJson,
      List.forall_mem_singleton.2 c.formed_stableJson⟩)
  constructor
  · intro h
    have hitems := (hformed v c).eq_of_write_eq (hformed w d) h
    simp only [array.injEq, List.cons.injEq, and_true] at hitems
    obtain ⟨hview, hstable⟩ := hitems
    exact ⟨PollView.toJson_injective hview, ReviewCandidate.agrees_of_stableJson_eq hc hd hstable⟩
  · rintro ⟨rfl, h⟩
    rw [fingerprintText, fingerprintText, ReviewCandidate.stableJson_eq_of_agrees h]

/-- A text outlives a drift of the estimated recall, but neither a review nor a new view. -/
theorem fingerprintText_eq_iff_unreviewed :
    let fresh : FoundCandidate := .unreviewed "c"
    let drifted : FoundCandidate := { fresh with retrievability := 0.5 }
    let reviewed : FoundCandidate :=
      { fresh with concept := { fresh.concept with memory := { fresh.concept.memory with
        stability := 2.5 } } }
    fingerprintText .first (.found fresh) = fingerprintText .first (.found drifted) ∧
      fingerprintText .first (.found fresh) ≠ fingerprintText .first (.found reviewed) ∧
      fingerprintText .first (.found fresh) ≠
        fingerprintText (.succeed .first .empty) (.found fresh) := by
  intro fresh drifted reviewed
  have hfresh : (ReviewCandidate.found fresh).HasFiniteMemory :=
    List.forall_mem_cons.2 ⟨by decide +kernel, List.forall_mem_singleton.2 (by decide +kernel)⟩
  have hreviewed : (ReviewCandidate.found reviewed).HasFiniteMemory :=
    List.forall_mem_cons.2 ⟨by decide +kernel, List.forall_mem_singleton.2 (by decide +kernel)⟩
  have hchanged : fresh ≠ reviewed := by decide +kernel
  refine ⟨(fingerprintText_eq_iff hfresh hfresh).2 ⟨rfl, rfl⟩, fun h => ?_, fun h => ?_⟩
  · obtain ⟨-, hagrees⟩ := (fingerprintText_eq_iff hfresh hreviewed).1 h
    exact hchanged hagrees
  · obtain ⟨hview, -⟩ := (fingerprintText_eq_iff hfresh hfresh).1 h
    exact absurd hview (by decide)

end SpacedReview
