import SpacedReview.Json.Decoder
import SpacedReview.Proofs.Json.Documents

/-!
# Records are decoded from the documents that they are written as

`Encodes decode d a j` says that `j` is a clean document from which `decode` gets `a`. It holds of
what is written for texts, numbers, lists and optional values, and from the fields of a record it
goes over to the record: the fields of `Json.ofFields` are found again by their names, as long as
no two names are the same.

## Main definitions

- `Json.Encodes` — a document of a value
- `Json.ReadsBack` — a float whose text is read as the same float

## Main statements

- `Json.Encodes.read?_write` — decoding the text of a value
- `Json.exists_record?` — finding the fields of a record
-/

namespace SpacedReview

namespace Json

/-- The document is clean up to a depth, and the value is what is decoded from it. -/
structure Encodes {α : Type} (decode : Json → Option α) (d : Nat) (a : α) (j : Json) : Prop where
  clean : Clean d j
  decode_eq : decode j = some a

/-- The text of a finite float is read as the same float. -/
structure ReadsBack (x : Float) : Prop where
  finite : x.isFinite
  read?_eq : (read? (ofFloat x).write).bind float? = some x

variable {α : Type} {decode : Json → Option α} {encode : α → Json} {d : Nat} {a : α} {j : Json}

theorem Encodes.read?_write (h : Encodes decode d a j) : (read? j.write).bind decode = some a := by
  rw [Json.read?_write h.clean, Option.bind_some, h.decode_eq]

/-! ## Single values -/

@[simp] theorem clean_ofString (d : Nat) (s : String) : Clean d (ofString s) :=
  .string d s

@[simp] theorem clean_bool (d : Nat) (b : Bool) : Clean d (.bool b) :=
  .bool d b

theorem encodes_ofString (d : Nat) (s : String) : Encodes text? d s (ofString s) :=
  ⟨.string d s, rfl⟩

theorem encodes_bool (d : Nat) (b : Bool) : Encodes bool? d b (.bool b) :=
  ⟨.bool d b, rfl⟩

theorem tokenNat?_ofNat {n : Nat} (h : n ≤ Numeral.word64Limit) :
    tokenNat? (.ofNat n) = some n := by
  have hvalue : Numeral.value (Decimal.Token.ofNat n).whole = n := Numeral.value_digits n
  rw [tokenNat?, hvalue, if_pos]
  simp [Decimal.Token.isWhole, Decimal.Token.ofNat, h]

theorem clean_ofNat (d : Nat) {n : Nat} (h : n ≤ Numeral.word64Limit) : Clean d (ofNat n) := by
  refine .number d (Decimal.Token.wellFormed_ofNat n) ?_
  rw [tokenNat?_ofNat h]
  rfl

theorem word32_le (n : UInt32) : n.toNat ≤ Numeral.word32Limit :=
  Nat.le_of_lt_succ n.toNat_lt

theorem word64_le (n : UInt64) : n.toNat ≤ Numeral.word64Limit :=
  Nat.le_of_lt_succ n.toNat_lt

@[simp] theorem clean_word32 (d : Nat) (n : UInt32) : Clean d (ofNat n.toNat) :=
  clean_ofNat d ((word32_le n).trans (by decide))

@[simp] theorem clean_word64 (d : Nat) (n : UInt64) : Clean d (ofNat n.toNat) :=
  clean_ofNat d (word64_le n)

theorem encodes_word32 (d : Nat) (n : UInt32) : Encodes word32? d n (ofNat n.toNat) := by
  refine ⟨clean_word32 d n, ?_⟩
  rw [ofNat, word32?, tokenNat?_ofNat ((word32_le n).trans (by decide)), Option.bind_some,
    if_pos (word32_le n), UInt32.ofNat_toNat]

theorem encodes_word64 (d : Nat) (n : UInt64) : Encodes word64? d n (ofNat n.toNat) := by
  refine ⟨clean_word64 d n, ?_⟩
  rw [ofNat, word64?, tokenNat?_ofNat (word64_le n), Option.map_some, UInt64.ofNat_toNat]

theorem encodes_ofFloat (d : Nat) {x : Float} (h : ReadsBack x) :
    Encodes float? d x (ofFloat x) := by
  have htoken : ofFloat x = .number (floatLayout.token x) := if_pos h.finite
  have hformed : (floatLayout.token x).WellFormed :=
    Decimal.Layout.wellFormed_token (by decide) (by decide) (.inr rfl) x
  have hread := h.read?_eq
  rw [htoken, read?, write, String.toList_ofList] at hread
  have hback := readBack_number hformed
    (2 * (writeChars (.number (floatLayout.token x))).length + 2) [] (by omega) (by rintro c ⟨⟩)
  rw [List.append_nil] at hback
  have hfloat : tokenFloat? (floatLayout.token x) = some x := by
    simpa only [hback, skipSpace, List.dropWhile_nil, if_true, Option.bind_some, float?] using hread
  rw [htoken]
  refine ⟨.number d hformed ?_, hfloat⟩
  rw [hfloat, Option.isSome_some, Bool.or_true]

/-- A value with a name is found by it among values with different names. -/
theorem encodes_named (d : Nat) {name : α → String} {values : List α} (hmem : a ∈ values)
    (hnames : ∀ b ∈ values, name b = name a → b = a) :
    Encodes (named? name values) d a (ofString (name a)) := by
  refine ⟨.string d _, ?_⟩
  show (values.find? fun b => name b = name a) = some a
  obtain ⟨b, hb⟩ := Option.isSome_iff_exists.1
    (List.find?_isSome (p := fun b => decide (name b = name a)).2 ⟨a, hmem, decide_eq_true rfl⟩)
  have hname : name b = name a := by simpa using List.find?_some hb
  rw [hb, hnames b (List.mem_of_find?_eq_some hb) hname]

/-! ## Lists and optional values -/

theorem mapM_map_of_forall {as : List α} (h : ∀ a ∈ as, decode (encode a) = some a) :
    (as.map encode).mapM decode = some as := by
  induction as with
  | nil => rfl
  | cons a as ih =>
    rw [List.forall_mem_cons] at h
    rw [List.map_cons, List.mapM_cons, h.1, ih h.2]
    rfl

theorem encodes_list {as : List α} (h : ∀ a ∈ as, Encodes decode d a (encode a)) :
    Encodes (list? decode) (d + 1) as (.array (as.map encode)) where
  clean := .array fun j hj => by
    obtain ⟨a, ha, rfl⟩ := List.mem_map.1 hj
    exact (h a ha).clean
  decode_eq := mapM_map_of_forall fun a ha => (h a ha).decode_eq

/-- An optional value is read as it was written if `null` is no value. -/
theorem option?_of_decode (hnull : decode .null = none) (h : decode j = some a) :
    option? decode j = some (some a) := by
  unfold option?
  split
  · rw [hnull] at h
    cases h
  · rw [h]
    rfl

theorem encodes_ofOption (hnull : decode .null = none) {o : Option α}
    (h : ∀ a ∈ o, Encodes decode d a (encode a)) :
    Encodes (option? decode) d o (ofOption encode o) := by
  obtain _ | a := o
  · exact ⟨.null d, rfl⟩
  · exact ⟨(h a rfl).clean, option?_of_decode hnull (h a rfl).decode_eq⟩

/-! ## The fields of a record -/

/-- The fields that are there. -/
def present (fields : List (String × Option Json)) : List (String × Json) :=
  fields.filterMap fun f => f.2.map fun j => (f.1, j)

theorem mem_names_of_mem_present {fields : List (String × Option Json)} {f : String × Json}
    (h : f ∈ present fields) : f.1 ∈ fields.map (·.1) := by
  obtain ⟨⟨name, v⟩, hmem, hv⟩ := List.mem_filterMap.1 h
  obtain ⟨j, -, rfl⟩ := Option.map_eq_some_iff.1 hv
  exact List.mem_map_of_mem hmem

/-- What is written of some fields, with their names as literals. -/
theorem mem_ofFields {fields : List (String × Option Json)} {f : Literal × Json} :
    (f ∈ fields.filterMap fun f => f.2.map fun v => ((some f.1, v) : Literal × Json)) ↔
      ∃ name j, (name, some j) ∈ fields ∧ f = (some name, j) := by
  rw [List.mem_filterMap]
  constructor
  · rintro ⟨⟨name, v⟩, hmem, hv⟩
    obtain ⟨j, rfl, rfl⟩ := Option.map_eq_some_iff.1 hv
    exact ⟨name, j, hmem, rfl⟩
  · rintro ⟨name, j, hmem, rfl⟩
    exact ⟨_, hmem, rfl⟩

theorem clean_ofFields_iff {fields : List (String × Option Json)} :
    Clean (d + 1) (ofFields fields) ↔ ∀ f ∈ fields, ∀ j ∈ f.2, Clean d j := by
  constructor
  · rintro h ⟨name, v⟩ hmem j rfl
    cases h with
    | object _ hfields => exact hfields _ (mem_ofFields.2 ⟨name, j, hmem, rfl⟩)
  · intro h
    refine .object (fun f hf => ?_) fun f hf => ?_
    all_goals obtain ⟨name, j, hmem, rfl⟩ := mem_ofFields.1 hf
    · rfl
    · exact h _ hmem j rfl

theorem knownFields?_ofFields {names : List String} {fields : List (String × Option Json)}
    (hnames : ∀ n ∈ fields.map (·.1), n ∈ names) (hnodup : (fields.map (·.1)).Nodup) :
    knownFields? names (fields.filterMap fun f => f.2.map fun v => (some f.1, v)) =
      some (present fields) := by
  induction fields with
  | nil => rfl
  | cons f fields ih =>
    obtain ⟨name, v⟩ := f
    rw [List.map_cons, List.forall_mem_cons] at hnames
    rw [List.map_cons, List.nodup_cons] at hnodup
    have hrest := ih hnames.2 hnodup.2
    obtain _ | j := v
    · exact hrest
    · have hfresh : (present fields).any (fun f => decide (f.1 = name)) = false := by
        rw [List.any_eq_false]
        intro f hf heq
        exact hnodup.1 (of_decide_eq_true heq ▸ mem_names_of_mem_present hf)
      show knownFields? names ((some name, j) :: _) = some ((name, j) :: present fields)
      rw [knownFields?, hrest]
      simp [hnames.1, hfresh]

theorem find?_present {fields : List (String × Option Json)} (hnodup : (fields.map (·.1)).Nodup)
    {name : String} {v : Option Json} (hmem : (name, v) ∈ fields) :
    ((present fields).find? fun f => f.1 = name).map (·.2) = v := by
  induction fields with
  | nil => exact absurd hmem List.not_mem_nil
  | cons f fields ih =>
    rw [List.map_cons, List.nodup_cons] at hnodup
    rcases List.mem_cons.1 hmem with rfl | hrest
    · obtain _ | j := v
      · -- A field that is left out is not found among the others, which have other names.
        rw [Option.map_eq_none_iff, List.find?_eq_none]
        intro f hf heq
        exact hnodup.1 (of_decide_eq_true heq ▸ mem_names_of_mem_present hf)
      · simp [present]
    · have hne : f.1 ≠ name := by
        rintro rfl
        exact hnodup.1 (List.mem_map.2 ⟨_, hrest, rfl⟩)
      obtain ⟨n, w⟩ := f
      obtain _ | j := w
      · exact ih hnodup.2 hrest
      · show (List.find? _ ((n, j) :: present fields)).map (·.2) = v
        rw [List.find?_cons_of_neg (by simpa using hne)]
        exact ih hnodup.2 hrest

/-- A document that is written from fields with different names is a record in which each of them
    is found. -/
theorem exists_record? (j : Json) (names : List String) {fields : List (String × Option Json)}
    (hj : j = ofFields fields) (hnames : fields.map (·.1) = names) (hnodup : names.Nodup) :
    ∃ r, record? names j = some r ∧
      ∀ (i : Nat) {name : String} {v : Option Json}, fields[i]? = some (name, v) →
        r.find? name = v := by
  subst hj hnames
  refine ⟨⟨present fields, false⟩, ?_, fun i name v hi => ?_⟩
  · rw [ofFields, record?, knownFields?_ofFields (fun _ hn => hn) hnodup, Option.map_some]
  · exact find?_present hnodup (List.mem_of_getElem? hi)

namespace Record

variable {r : Record} {name : String}

theorem required?_eq (hfind : r.find? name = some j) (h : Encodes decode d a j) :
    r.required? name decode = some a := by
  rw [required?, hfind, Option.bind_some, h.decode_eq]

theorem defaulted?_eq {default : α} (hfind : r.find? name = some j) (h : Encodes decode d a j) :
    r.defaulted? name default decode = some a := by
  rw [defaulted?, hfind]
  exact h.decode_eq

theorem nullable?_eq {o : Option α} (hfind : r.find? name = some j)
    (h : Encodes (option? decode) d o j) : r.nullable? name decode = some o := by
  rw [nullable?, hfind]
  exact h.decode_eq

theorem optional?_eq {o : Option α} (hfind : r.find? name = some j)
    (h : Encodes (option? decode) d o j) : r.optional? name decode = some o := by
  rw [optional?, hfind]
  exact h.decode_eq

/-- A field that is left out when it has no value. -/
theorem optional?_eq_of_map {o : Option α} (hfind : r.find? name = o.map encode)
    (hnull : decode .null = none) (h : ∀ a ∈ o, Encodes decode d a (encode a)) :
    r.optional? name decode = some o := by
  rw [optional?, hfind]
  obtain _ | a := o
  · rfl
  · exact option?_of_decode hnull (h a rfl).decode_eq

end Record

end Json

end SpacedReview
