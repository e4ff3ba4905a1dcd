import DecisionRules.Proofs.Time.RoundTrip
import DecisionRules.Proofs.Value.KeyOrder
import DecisionRules.Proofs.Value.RoundTrip
import DecisionRules.Record.Write

/-!
# Proofs/Record/Field — a record is read back field by field

A document conveys something if it can be written, has a shape, and is read by the reader for that
shape (`Conveys`).  The documents that fields are written as convey what is in them, and so do lists
of such documents.

A record is written in the order of its fields, some of which may be left out (`Written`).  Since no
two fields of a record go by one name (`RecordKind.find?_isNamed`), the document of a record that is
written so has the shape of the record as soon as its fields have theirs, and its fields are found
again under their names (`Written.check_eq`, `Written.fieldsOf_eq`).
-/

namespace DecisionRules

variable {α β : Type}

/-- A document that can be written, has a shape, and is read as `a`. -/
structure Conveys (s : Shape) (read : Json → Option α) (j : Json) (a : α) : Prop where
  legible : j.Legible
  check_eq : Shape.check j s = .ok ()
  read_eq : read j = some a

/-- **What a document conveys is read from its text**, if its decimals are rounded correctly and it
does not nest too deep. -/
theorem Conveys.readText_eq [Rounding] {s : Shape} {read : Json → Option α} {j : Json} {a : α}
    (h : Conveys s read j a) (hround : j.RoundsCorrectly) (hdepth : j.depth ≤ Json.nestingLimit) :
    readText s read j.write = .ok a := by
  have hread : Json.read s.policy j.write = .ok j := Json.read_write h.legible hround hdepth
  rw [readText, Shape.read, hread]
  simp only [h.check_eq, h.read_eq]

/-! ## Scalars -/

theorem conveys_text (s : String) : Conveys .text Json.string? (.string s) s := ⟨trivial, rfl, rfl⟩

theorem conveys_truth (b : Bool) : Conveys .truth Json.bool? (.bool b) b := ⟨trivial, rfl, rfl⟩

theorem conveys_natural {bound n : Nat} (hn : n < bound) (hbound : bound ≤ Nat.pow 2 64) :
    Conveys (.natural bound) natOfJson? (.ofNat n) n := by
  have hread {limit : Nat} (h : n < limit) : (Json.ofNat n).natBelow? limit = some n := by
    simp [Json.natBelow?, Json.ofNat, Json.integer?, h]
  have hlimit : n < Nat.pow 2 64 := Nat.lt_of_lt_of_le hn hbound
  have hchecked : Shape.check (.ofNat n) (.natural bound) =
    if ((Json.ofNat n).natBelow? bound).isSome then .ok () else .error .mistyped := rfl
  refine ⟨?_, ?_, hread hlimit⟩
  · simp only [Json.ofNat, Json.Legible, Number.Legible, Number.leastInteger, Number.integerLimit,
      Nat.pow_eq] at hlimit ⊢
    omega
  · rw [hchecked, hread hn]
    rfl

theorem conveys_version {n : Nat} (h : n < Nat.pow 2 32) :
    Conveys .versionNumber natOfJson? (.ofNat n) n :=
  conveys_natural h (Nat.pow_le_pow_right (by decide) (by decide))

theorem conveys_size {n : Nat} (h : n < Nat.pow 2 64) : Conveys .size natOfJson? (.ofNat n) n :=
  conveys_natural h (Nat.le_refl _)

theorem conveys_value {v : Value} (h : v.IsFinite) :
    Conveys .value Value.ofJson? v.document v.reread :=
  ⟨Value.legible_document h, Value.check_value _, rfl⟩

theorem conveys_timestamp {t : Timestamp} (h : t.IsWritable) :
    Conveys .timestamp Timestamp.ofJson? t.toJson t := by
  have hread := Timestamp.ofText?_text h
  have hchecked : Shape.check t.toJson .timestamp =
    if (Timestamp.ofText? t.text).isSome then .ok () else .error .mistyped := rfl
  refine ⟨trivial, ?_, ?_⟩
  · rw [hchecked, hread]
    rfl
  · rw [Timestamp.toJson, Timestamp.ofJson?, Json.string?, Option.bind_some, hread]

theorem conveys_status (s : RuleStatus) : Conveys .status RuleStatus.ofJson? s.toJson s := by
  refine ⟨trivial, ?_, ?_⟩
  · cases s <;> simp [RuleStatus.toJson, RuleStatus.name, Shape.check, Shape.checkScalar,
      Shape.statusNames]
  · cases s <;> simp [RuleStatus.toJson, RuleStatus.name, RuleStatus.ofJson?, RuleStatus.ofName?]

/-! ## Lists and labels -/

theorem mapM_eq_some {read : Json → Option β} {f : α → Json} {g : α → β} {as : List α}
    (h : ∀ a ∈ as, read (f a) = some (g a)) : (as.map f).mapM read = some (as.map g) := by
  induction as with
  | nil => rfl
  | cons a rest ih =>
    rw [List.forall_mem_cons] at h
    rw [List.map_cons, List.mapM_cons, h.1, ih h.2]
    rfl

/-- **A list of documents conveys what each of them does.** -/
theorem conveys_list {s : Shape} {read : Json → Option β} {f : α → Json} {g : α → β} {as : List α}
    (h : ∀ a ∈ as, Conveys s read (f a) (g a)) :
    Conveys (.list s) (listOfJson? read) (.array (as.map f)) (as.map g) := by
  refine ⟨?_, ?_, mapM_eq_some fun a ha => (h a ha).read_eq⟩
  · change Json.LegibleItems (as.map f)
    induction as with
    | nil => trivial
    | cons a rest ih =>
      rw [List.forall_mem_cons] at h
      exact ⟨h.1.legible, ih h.2⟩
  · change Shape.checkItems (as.map f) s = .ok ()
    induction as with
    | nil => rfl
    | cons a rest ih =>
      rw [List.forall_mem_cons] at h
      rw [List.map_cons, Shape.checkItems, h.1.check_eq]
      exact ih h.2

/-- The entries of a map made of a list are those of the list, sorted. -/
theorem KeyMap.entries_ofList (entries : List (String × α)) :
    (ofList entries).entries = sortEntries entries :=
  (List.foldl_hom KeyMap.entries fun _ _ => rfl).symm

/-- A map is made again from its entries. -/
theorem KeyMap.ofList_entries (m : KeyMap α) : ofList m.entries = m := by
  have hentries : (ofList m.entries).entries = m.entries := by
    rw [entries_ofList]
    refine (sorted_sortEntries _).ext m.sorted fun key => ?_
    rw [lookup_sortEntries, lookup_reverse m.sorted.nodup]
  obtain ⟨entries, sorted⟩ := m
  exact (KeyMap.mk.injEq ..).mpr hentries

theorem conveys_labels (labels : KeyMap String) :
    Conveys .labels labelsOfJson? (labelsJson labels) labels := by
  refine ⟨?_, ?_, ?_⟩
  · change Json.LegibleEntries (labels.entries.map _)
    induction labels.entries with
    | nil => trivial
    | cons entry rest ih => exact ⟨trivial, ih⟩
  · change Shape.checkLabels (labels.entries.map _) = .ok ()
    induction labels.entries with
    | nil => rfl
    | cons entry rest ih => exact ih
  · have hentries : (labels.entries.map fun entry => (entry.1, Json.string entry.2)).mapM
        (fun entry => entry.2.string?.map fun text => (entry.1, text)) = some labels.entries := by
      induction labels.entries with
      | nil => rfl
      | cons entry rest ih =>
        rw [List.map_cons, List.mapM_cons, ih]
        rfl
    change Option.bind (List.mapM _ _) (fun entries => some (KeyMap.ofList entries)) = some labels
    rw [hentries, Option.bind_some, KeyMap.ofList_entries]

/-! ## What may be absent -/

/-- Reads what may be `null`. -/
def orNull? (read : Json → Option α) : Json → Option (Option α)
  | .null => some none
  | j => (read j).map some

theorem orNull?_of_ne {read : Json → Option α} {j : Json} (h : j ≠ .null) :
    orNull? read j = (read j).map some := by
  cases j with
  | null => exact absurd rfl h
  | _ => rfl

/-- What has a shape has it also where `null` could stand. -/
theorem check_orNull {s : Shape} {j : Json} (h : Shape.check j s = .ok ()) :
    Shape.check j (.orNull s) = .ok () := by
  cases j with
  | null => rfl
  | _ => exact h

theorem Conveys.present {s : Shape} {read : Json → Option α} {j : Json} {a : α}
    (h : Conveys s read j a) (hnull : j ≠ .null) : Conveys (.orNull s) (orNull? read) j (some a) :=
  ⟨h.legible, check_orNull h.check_eq, by rw [orNull?_of_ne hnull, h.read_eq]; rfl⟩

theorem conveys_ofOption {s : Shape} {read : Json → Option β} {f : α → Json} {g : α → β}
    {o : Option α} (h : ∀ a ∈ o, Conveys s read (f a) (g a)) (hnull : ∀ a ∈ o, f a ≠ .null) :
    Conveys (.orNull s) (orNull? read) (.ofOption f o) (o.map g) := by
  cases o with
  | none => exact ⟨trivial, rfl, rfl⟩
  | some a => exact (h a rfl).present (hnull a rfl)

theorem conveys_optionalText (o : Option String) :
    Conveys (.orNull .text) (orNull? Json.string?) (.ofOption .string o) o := by
  have h := conveys_ofOption (o := o) (fun s _ => conveys_text s) (fun _ _ => nofun)
  rwa [Option.map_id'] at h

theorem conveys_optionalVersion {o : Option Nat} (h : ∀ n ∈ o, n < Nat.pow 2 32) :
    Conveys (.orNull .versionNumber) (orNull? natOfJson?) (.ofOption .ofNat o) o := by
  have h := conveys_ofOption (fun n hn => conveys_version (h n hn)) (fun _ _ => nofun)
  rwa [Option.map_id'] at h

theorem conveys_optionalTimestamp {o : Option Timestamp} (h : ∀ t ∈ o, t.IsWritable) :
    Conveys (.orNull .timestamp) (orNull? Timestamp.ofJson?) (.ofOption Timestamp.toJson o) o := by
  have h := conveys_ofOption (fun t ht => conveys_timestamp (h t ht)) (fun _ _ => nofun)
  rwa [Option.map_id'] at h

/-! ## Names of fields -/

/-- **No two fields of a record go by one name**, also if one has aliases. -/
theorem RecordKind.find?_isNamed (kind : RecordKind) :
    ∀ f ∈ kind.fields, kind.fields.find? (·.isNamed f.name) = some f := by
  cases kind <;>
    simp [fields, draftFields, RecordField.required, RecordField.nullable, RecordField.omittable,
      RecordField.withDefault, RecordField.isNamed]

theorem RecordKind.nodup_names (kind : RecordKind) : (kind.fields.map (·.name)).Nodup := by
  cases kind <;>
    simp [fields, draftFields, RecordField.required, RecordField.nullable, RecordField.omittable,
      RecordField.withDefault]

/-! ## Records -/

/-- Entries that are fields of a record in their order.  One may be left out if it may be
missing. -/
inductive Written : List RecordField → List (String × Json) → Prop
  | nil : Written [] []
  | field {fields : List RecordField} {f : RecordField} {entries : List (String × Json)} {α : Type}
      {read : Json → Option α} {j : Json} {a : α} (h : Conveys f.shape read j a)
      (rest : Written fields entries) : Written (f :: fields) ((f.name, j) :: entries)
  | skip {fields : List RecordField} {f : RecordField} {entries : List (String × Json)}
      (h : f.mayBeMissing = true) (rest : Written fields entries) : Written (f :: fields) entries

namespace Written

variable {fields all : List RecordField} {entries : List (String × Json)} {kind : RecordKind}

theorem legible (h : Written fields entries) : Json.LegibleEntries entries := by
  induction h with
  | nil => trivial
  | field h _ ih => exact ⟨h.legible, ih⟩
  | skip _ _ ih => exact ih

/-- What is not there may be missing. -/
theorem mayBeMissing (h : Written fields entries) :
    ∀ f ∈ fields, f.name ∈ entries.map Prod.fst ∨ f.mayBeMissing = true := by
  induction h with
  | nil => exact fun _ hf => absurd hf List.not_mem_nil
  | field _ _ ih =>
    refine List.forall_mem_cons.mpr ⟨.inl List.mem_cons_self, fun f hf => ?_⟩
    exact (ih f hf).imp_left (List.mem_cons_of_mem _)
  | skip h _ ih => exact List.forall_mem_cons.mpr ⟨.inr h, ih⟩

/-- Each entry is checked as the field it is, and none is repeated. -/
theorem checkEntries_eq (h : Written fields entries)
    (hall : ∀ f ∈ fields, all.find? (·.isNamed f.name) = some f) :
    ∀ seen : List String, (fields.map (·.name) ++ seen).Nodup →
      Shape.checkEntries entries all seen = .ok ((entries.map Prod.fst).reverse ++ seen) := by
  induction h with
  | nil => exact fun _ _ => rfl
  | @field fields f entries α read j a h _ ih =>
    intro seen hnodup
    rw [List.forall_mem_cons] at hall
    rw [List.map_cons, List.cons_append, List.nodup_cons, List.mem_append, not_or] at hnodup
    have hrest : (fields.map (·.name) ++ f.name :: seen).Nodup := by
      rw [List.nodup_middle, List.nodup_cons, List.mem_append, not_or]
      exact hnodup
    rw [Shape.checkEntries, hall.1]
    simp only [List.contains_eq_mem, hnodup.1.2, decide_false, Bool.false_eq_true, if_false,
      h.check_eq]
    refine (ih hall.2 _ hrest).trans ?_
    rw [List.map_cons, List.reverse_cons, List.append_assoc, List.singleton_append]
  | skip _ _ ih =>
    intro seen hnodup
    rw [List.map_cons, List.cons_append, List.nodup_cons] at hnodup
    exact ih (List.forall_mem_cons.mp hall).2 seen hnodup.2

/-- **A record that is written field by field has its shape.** -/
theorem check_eq (h : Written kind.fields entries) :
    Shape.check (.object entries) (.record kind) = .ok () := by
  have hentries := h.checkEntries_eq kind.find?_isNamed []
    (by rw [List.append_nil]; exact kind.nodup_names)
  rw [List.append_nil] at hentries
  have hseen : (kind.fields.all fun f =>
      (entries.map Prod.fst).reverse.contains f.name || f.mayBeMissing) = true := by
    rw [List.all_eq_true]
    intro f hf
    rw [Bool.or_eq_true, List.contains_iff_mem, List.mem_reverse]
    exact h.mayBeMissing f hf
  rw [Shape.check]
  simp only [Shape.present, hentries]
  exact if_pos hseen

theorem filterMap_eq (h : Written fields entries)
    (hall : ∀ f ∈ fields, all.find? (·.isNamed f.name) = some f) :
    (entries.filterMap fun (key, j) => (all.find? (·.isNamed key)).map fun f => (f.name, j)) =
      entries := by
  induction h with
  | nil => rfl
  | field _ _ ih =>
    rw [List.forall_mem_cons] at hall
    simp only [List.filterMap_cons, hall.1, Option.map_some]
    exact congrArg _ (ih hall.2)
  | skip _ _ ih => exact ih (List.forall_mem_cons.mp hall).2

/-- **Its fields are its entries**, under the names they were written with. -/
theorem fieldsOf_eq (h : Written kind.fields entries) :
    fieldsOf kind (.object entries) = entries := h.filterMap_eq kind.find?_isNamed

end Written

theorem Written.conveys {kind : RecordKind} {entries : List (String × Json)}
    {read : Json → Option α} {a : α} (h : Written kind.fields entries)
    (hread : read (.object entries) = some a) :
    Conveys (.record kind) read (.object entries) a := ⟨h.legible, h.check_eq, hread⟩

/-! ## Looking fields up -/

@[simp] theorem RecordField.name_required (name : String) (s : Shape) :
    (required name s).name = name := rfl

@[simp] theorem RecordField.name_nullable (name : String) (s : Shape) :
    (nullable name s).name = name := rfl

@[simp] theorem RecordField.name_omittable (name : String) (s : Shape) :
    (omittable name s).name = name := rfl

@[simp] theorem RecordField.name_withDefault (name : String) (s : Shape) :
    (withDefault name s).name = name := rfl

@[simp] theorem Json.string?_string (s : String) : (Json.string s).string? = some s := rfl

@[simp] theorem Json.bool?_bool (b : Bool) : (Json.bool b).bool? = some b := rfl

namespace Fields

variable (fields : List (String × Json)) (key name : String) (j : Json) (read : Json → Option α)

@[simp] theorem required_cons : required ((key, j) :: fields) name read =
    if name = key then read j else required fields name read := by
  rw [required, KeyMap.lookup_cons]
  split <;> rfl

@[simp] theorem withDefault_cons (default : α) :
    withDefault ((key, j) :: fields) name default read =
      if name = key then read j else withDefault fields name default read := by
  rw [withDefault, KeyMap.lookup_cons]
  by_cases h : name = key
  · rw [if_pos h, if_pos h]
  · rw [if_neg h, if_neg h]
    rfl

@[simp] theorem optional_nil : optional [] name read = some none := rfl

@[simp] theorem optional_cons : optional ((key, j) :: fields) name read =
    if name = key then orNull? read j else optional fields name read := by
  rw [optional, KeyMap.lookup_cons]
  by_cases h : name = key
  · rw [if_pos h, if_pos h]
    cases j <;> rfl
  · rw [if_neg h, if_neg h]
    rfl

end Fields

end DecisionRules
