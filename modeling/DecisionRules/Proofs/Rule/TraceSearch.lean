import DecisionRules.Rule.Trace
import Mathlib.Data.List.Sort

/-!
# Proofs/Rule/TraceSearch — counting and searching a trace follow its listing

A step below another one has an address there: the numbers of the children that lead to it.  In
lexicographic order the addresses make the pre-order of the steps, since an address comes before
those that go on from it.  `listing` and `listAll` list the steps in that order, each once
(`listsInPreorder_listing`), and there is no other list that does (`ListsInPreorder.unique`).

Counting and searching recurse over the trace on their own, and the search stops at its first hit.
They come to the length of the listing and to the first entry with the operator, which is the step
with the least address (`find?_eq_some_iff`).
-/

namespace DecisionRules

namespace TraceStep

/-! ## Induction over a forest -/

mutual

/-- What holds of a step's children holds below the step. -/
theorem childrenInduction {motive : List TraceStep → Prop} (nil : motive [])
    (cons : ∀ s rest, motive s.children → motive rest → motive (s :: rest)) :
    ∀ s : TraceStep, motive s.children
  | ⟨_, _, _, _, children⟩ => forestInduction nil cons children
  termination_by structural s => s

/-- **Induction over a forest**: what stands below its first step, and what stands beside it. -/
@[elab_as_elim] theorem forestInduction {motive : List TraceStep → Prop} (nil : motive [])
    (cons : ∀ s rest, motive s.children → motive rest → motive (s :: rest)) :
    ∀ forest : List TraceStep, motive forest
  | [] => nil
  | s :: rest => cons s rest (childrenInduction nil cons s) (forestInduction nil cons rest)
  termination_by structural forest => forest

end

theorem count_eq (s : TraceStep) : s.count = 1 + countAll s.children := by
  rcases s with ⟨path, operator, result, arguments, children⟩
  rfl

theorem countAll_cons (s : TraceStep) (rest : List TraceStep) :
    countAll (s :: rest) = 1 + countAll s.children + countAll rest := by
  rw [countAll, count_eq]

theorem listAll_cons (s : TraceStep) (rest : List TraceStep) :
    listAll (s :: rest) = s :: (listAll s.children ++ listAll rest) := by
  rw [listAll, listing_eq, List.cons_append]

theorem find?_eq (name : String) (s : TraceStep) :
    s.find? name = if s.operator = name then some s else findFirst? name s.children := by
  rcases s with ⟨path, operator, result, arguments, children⟩
  rfl

/-! ## Addresses -/

/-- The step at an address in a subtree: each number picks a child. -/
def stepAt? : TraceStep → List Nat → Option TraceStep
  | s, [] => some s
  | s, i :: rest => s.children[i]?.bind fun child => child.stepAt? rest

/-- The step at an address in a forest: the first number picks a tree. -/
def stepIn? (forest : List TraceStep) : List Nat → Option TraceStep
  | [] => none
  | i :: rest => forest[i]?.bind fun s => s.stepAt? rest

theorem stepAt?_cons (s : TraceStep) (i : Nat) (rest : List Nat) :
    s.stepAt? (i :: rest) = stepIn? s.children (i :: rest) := rfl

theorem stepIn?_zero (s : TraceStep) (forest : List TraceStep) (rest : List Nat) :
    stepIn? (s :: forest) (0 :: rest) = s.stepAt? rest := rfl

theorem stepIn?_succ (s : TraceStep) (forest : List TraceStep) (i : Nat) (rest : List Nat) :
    stepIn? (s :: forest) ((i + 1) :: rest) = stepIn? forest (i :: rest) := rfl

/-! ## Listings in pre-order -/

/-- **A list has in pre-order what stands at addresses**: with their addresses its entries are all
that stands anywhere, and the addresses grow in lexicographic order. -/
def ListsInPreorder (at? : List Nat → Option TraceStep) (steps : List TraceStep) : Prop :=
  ∃ entries : List (List Nat × TraceStep), entries.map Prod.snd = steps ∧
    entries.Pairwise (fun p q => p.1 < q.1) ∧ ∀ a t, (a, t) ∈ entries ↔ at? a = some t

/-- In a list that grows, the first hit is the least one. -/
theorem find?_eq_some_iff_of_pairwise {α : Type} {r : α → α → Prop} [Std.Asymm r] {p : α → Bool}
    {x : α} {xs : List α} (h : xs.Pairwise r) :
    xs.find? p = some x ↔ x ∈ xs ∧ p x = true ∧ ∀ y ∈ xs, r y x → p y = false := by
  constructor
  · intro hfind
    obtain ⟨hp, before, after, rfl, hbefore⟩ := List.find?_eq_some_iff_append.mp hfind
    obtain ⟨-, hafter, -⟩ := List.pairwise_append.mp h
    refine ⟨List.mem_append_right _ List.mem_cons_self, hp, fun y hy hyx => ?_⟩
    rcases List.mem_append.mp hy with hy | hy
    · simpa using hbefore y hy
    · rcases List.mem_cons.mp hy with rfl | hy
      · exact absurd hyx (Std.Asymm.asymm _ _ hyx)
      · exact absurd hyx (Std.Asymm.asymm _ _ (List.rel_of_pairwise_cons hafter hy))
  · rintro ⟨hx, hp, hleast⟩
    obtain ⟨before, after, rfl⟩ := List.append_of_mem hx
    obtain ⟨-, -, hcross⟩ := List.pairwise_append.mp h
    refine List.find?_eq_some_iff_append.mpr ⟨hp, before, after, rfl, fun y hy => ?_⟩
    rw [hleast y (List.mem_append_left _ hy) (hcross y hy x List.mem_cons_self)]
    rfl

/-- Of two addresses at most one comes before the other. -/
instance asymm_address : Std.Asymm fun p q : List Nat × TraceStep => p.1 < q.1 :=
  ⟨fun _ _ => List.lt_asymm⟩

namespace ListsInPreorder

variable {at? : List Nat → Option TraceStep} {steps steps' : List TraceStep}

/-- **There is one such list.** -/
theorem unique (h : ListsInPreorder at? steps) (h' : ListsInPreorder at? steps') :
    steps = steps' := by
  obtain ⟨entries, rfl, hsorted, hmem⟩ := h
  obtain ⟨entries', rfl, hsorted', hmem'⟩ := h'
  have hentries : entries = entries' :=
    hsorted.eq_of_mem_iff hsorted' fun ⟨a, t⟩ => (hmem a t).trans (hmem' a t).symm
  rw [hentries]

/-- The entries are what stands somewhere. -/
theorem mem_iff (h : ListsInPreorder at? steps) {t : TraceStep} :
    t ∈ steps ↔ ∃ a, at? a = some t := by
  obtain ⟨entries, rfl, -, hmem⟩ := h
  constructor
  · intro ht
    obtain ⟨⟨a, u⟩, hentry, rfl⟩ := List.mem_map.mp ht
    exact ⟨a, (hmem a u).mp hentry⟩
  · rintro ⟨a, ha⟩
    exact List.mem_map.mpr ⟨(a, t), (hmem a t).mpr ha, rfl⟩

/-- **The first hit has the least address.** -/
theorem find?_eq_some_iff (h : ListsInPreorder at? steps) {p : TraceStep → Bool} {t : TraceStep} :
    steps.find? p = some t ↔
      ∃ a, at? a = some t ∧ p t = true ∧ ∀ b u, b < a → at? b = some u → p u = false := by
  obtain ⟨entries, rfl, hsorted, hmem⟩ := h
  rw [List.find?_map, Option.map_eq_some_iff]
  constructor
  · rintro ⟨⟨a, u⟩, hfind, rfl⟩
    obtain ⟨hentry, hp, hleast⟩ := (find?_eq_some_iff_of_pairwise hsorted).mp hfind
    exact ⟨a, (hmem a u).mp hentry, hp, fun b v hlt hb => hleast (b, v) ((hmem b v).mpr hb) hlt⟩
  · rintro ⟨a, ha, hp, hleast⟩
    exact ⟨(a, t), (find?_eq_some_iff_of_pairwise hsorted).mpr ⟨(hmem a t).mpr ha, hp,
      fun ⟨b, u⟩ hentry hlt => hleast b u hlt ((hmem b u).mp hentry)⟩, rfl⟩

end ListsInPreorder

/-! ## The listing with addresses -/

mutual

/-- The steps of a subtree in pre-order, each with its address. -/
def addressed : TraceStep → List (List Nat × TraceStep)
  | ⟨path, op, result, arguments, children⟩ =>
    ([], ⟨path, op, result, arguments, children⟩) :: addressedAll children
  termination_by structural s => s

/-- The steps of a forest in pre-order, each with its address: into the first tree, or past it. -/
def addressedAll : List TraceStep → List (List Nat × TraceStep)
  | [] => []
  | s :: rest => s.addressed.map (Prod.map (0 :: ·) id) ++
      (addressedAll rest).map (Prod.map (List.modifyHead (· + 1)) id)
  termination_by structural forest => forest

end

theorem addressed_eq (s : TraceStep) : s.addressed = ([], s) :: addressedAll s.children := by
  rcases s with ⟨path, operator, result, arguments, children⟩
  rfl

theorem map_snd_addressedAll (forest : List TraceStep) :
    (addressedAll forest).map Prod.snd = listAll forest := by
  induction forest using forestInduction with
  | nil => rfl
  | cons s forest ihchildren ihrest =>
    have hsnd (f : List Nat → List Nat) :
        (Prod.snd ∘ Prod.map f id : List Nat × TraceStep → TraceStep) = Prod.snd := rfl
    rw [addressedAll, List.map_append, List.map_map, List.map_map, hsnd, hsnd, ihrest, addressed_eq,
      List.map_cons, ihchildren, listAll_cons, List.cons_append]

theorem mem_map_fst {f : List Nat → List Nat} {entries : List (List Nat × TraceStep)}
    {a : List Nat} {t : TraceStep} :
    (a, t) ∈ entries.map (Prod.map f id) ↔ ∃ b, (b, t) ∈ entries ∧ f b = a := by
  constructor
  · intro h
    obtain ⟨⟨b, u⟩, hentry, heq⟩ := List.mem_map.mp h
    cases heq
    exact ⟨b, hentry, rfl⟩
  · rintro ⟨b, hentry, rfl⟩
    exact List.mem_map.mpr ⟨(b, t), hentry, rfl⟩

theorem modifyHead_succ_eq_cons {b rest : List Nat} {i : Nat} :
    List.modifyHead (· + 1) b = i :: rest ↔ ∃ j, i = j + 1 ∧ b = j :: rest := by
  cases b with
  | nil => simp
  | cons j b => simp [eq_comm, and_comm]

/-- What stands below a step stands at the addresses of its children. -/
theorem mem_addressed_of {s : TraceStep}
    (h : ∀ a t, (a, t) ∈ addressedAll s.children ↔ stepIn? s.children a = some t) (a : List Nat)
    (t : TraceStep) : (a, t) ∈ s.addressed ↔ s.stepAt? a = some t := by
  rw [addressed_eq, List.mem_cons, h]
  cases a with
  | nil => simp [stepAt?, stepIn?, eq_comm]
  | cons i rest => simp [stepAt?_cons]

/-- **What is listed with an address stands there, and what stands there is listed.** -/
theorem mem_addressedAll (forest : List TraceStep) :
    ∀ a t, (a, t) ∈ addressedAll forest ↔ stepIn? forest a = some t := by
  induction forest using forestInduction with
  | nil =>
    intro a t
    rw [addressedAll]
    cases a <;> simp [stepIn?]
  | cons s forest ihchildren ihrest =>
    intro a t
    rw [addressedAll, List.mem_append, mem_map_fst, mem_map_fst]
    simp only [mem_addressed_of ihchildren, ihrest]
    rcases a with _ | ⟨_ | i, rest⟩
    · simp [stepIn?]
    · simp [stepIn?_zero, modifyHead_succ_eq_cons]
    · simp [stepIn?_succ, modifyHead_succ_eq_cons]

/-- Nothing in a forest stands at the empty address. -/
theorem exists_cons_of_mem_addressedAll {forest : List TraceStep} {q : List Nat × TraceStep}
    (h : q ∈ addressedAll forest) : ∃ i rest, q.1 = i :: rest := by
  obtain ⟨a, t⟩ := q
  cases a with
  | nil => cases (mem_addressedAll forest [] t).mp h
  | cons i rest => exact ⟨i, rest, rfl⟩

theorem modifyHead_succ_lt {a b : List Nat} (h : a < b) :
    List.modifyHead (· + 1) a < List.modifyHead (· + 1) b := by
  cases b with
  | nil => exact absurd h (List.not_lt_nil a)
  | cons j b =>
    cases a with
    | nil => exact List.nil_lt_cons _ _
    | cons i a =>
      rw [List.modifyHead_cons, List.modifyHead_cons, List.cons_lt_cons_iff]
      exact (List.cons_lt_cons_iff.mp h).imp Nat.succ_lt_succ (.imp_left (congrArg (· + 1)))

theorem pairwise_addressed_of {s : TraceStep}
    (h : (addressedAll s.children).Pairwise (fun p q => p.1 < q.1)) :
    s.addressed.Pairwise (fun p q => p.1 < q.1) := by
  rw [addressed_eq, List.pairwise_cons]
  refine ⟨fun q hq => ?_, h⟩
  obtain ⟨i, rest, heq⟩ := exists_cons_of_mem_addressedAll hq
  rw [heq]
  exact List.nil_lt_cons i rest

/-- **The addresses grow**: those into the first tree start with `0`, and those past it do not. -/
theorem pairwise_addressedAll (forest : List TraceStep) :
    (addressedAll forest).Pairwise (fun p q => p.1 < q.1) := by
  induction forest using forestInduction with
  | nil => exact .nil
  | cons s forest ihchildren ihrest =>
    rw [addressedAll, List.pairwise_append, List.pairwise_map, List.pairwise_map]
    refine ⟨(pairwise_addressed_of ihchildren).imp fun h => ?_, ihrest.imp modifyHead_succ_lt, ?_⟩
    · exact List.cons_lt_cons_iff.mpr (.inr ⟨rfl, h⟩)
    · intro p hp q hq
      obtain ⟨p, -, rfl⟩ := List.mem_map.mp hp
      obtain ⟨q, hmem, rfl⟩ := List.mem_map.mp hq
      obtain ⟨i, rest, heq⟩ := exists_cons_of_mem_addressedAll hmem
      rw [Prod.map_fst, Prod.map_fst, heq, List.modifyHead_cons]
      exact List.cons_lt_cons_iff.mpr (.inl (Nat.succ_pos i))

/-- **The listing of a forest is in pre-order.** -/
theorem listsInPreorder_listAll (forest : List TraceStep) :
    ListsInPreorder (stepIn? forest) (listAll forest) :=
  ⟨addressedAll forest, map_snd_addressedAll forest, pairwise_addressedAll forest,
    mem_addressedAll forest⟩

/-- **The listing of a subtree is in pre-order.** -/
theorem listsInPreorder_listing (s : TraceStep) : ListsInPreorder s.stepAt? s.listing := by
  refine ⟨s.addressed, ?_, pairwise_addressed_of (pairwise_addressedAll s.children),
    mem_addressed_of (mem_addressedAll s.children)⟩
  rw [addressed_eq, List.map_cons, map_snd_addressedAll, listing_eq]

/-! ## Counting and searching -/

/-- **Counting comes to the length of the listing.** -/
theorem countAll_eq_length (forest : List TraceStep) :
    countAll forest = (listAll forest).length := by
  induction forest using forestInduction with
  | nil => rfl
  | cons s rest ihchildren ihrest =>
    rw [countAll_cons, listAll_cons, List.length_cons, List.length_append, ihchildren, ihrest,
      Nat.add_comm 1, Nat.add_right_comm]

theorem find?_listing (name : String) (s : TraceStep) :
    s.listing.find? (fun t => t.operator = name) = if s.operator = name then some s
      else (listAll s.children).find? (fun t => t.operator = name) := by
  rw [listing_eq, List.find?_cons]
  by_cases h : s.operator = name
  · simp [h]
  · simp [h]

/-- **A search of a forest comes to the first hit in its listing.** -/
theorem findFirst?_eq_find? (name : String) (forest : List TraceStep) :
    findFirst? name forest = (listAll forest).find? (fun t => t.operator = name) := by
  induction forest using forestInduction with
  | nil => rfl
  | cons s rest ihchildren ihrest =>
    rw [findFirst?, find?_eq, ihchildren, ← find?_listing, ihrest, listAll, List.find?_append]

/-- **A search of a subtree comes to the first hit in its listing.** -/
theorem find?_eq_find? (name : String) (s : TraceStep) :
    s.find? name = s.listing.find? (fun t => t.operator = name) := by
  rw [find?_eq, findFirst?_eq_find?, find?_listing]

/-- **A search finds the step with the least address** of those with the operator. -/
theorem find?_eq_some_iff {name : String} {s t : TraceStep} :
    s.find? name = some t ↔ ∃ a, s.stepAt? a = some t ∧ t.operator = name ∧
      ∀ b u, b < a → s.stepAt? b = some u → u.operator ≠ name := by
  rw [find?_eq_find?, (listsInPreorder_listing s).find?_eq_some_iff]
  simp only [decide_eq_true_eq, decide_eq_false_iff_not, ne_eq]

/-- **A search finds nothing just where no step of the subtree has the operator.** -/
theorem find?_eq_none_iff {name : String} {s : TraceStep} :
    s.find? name = none ↔ ∀ a t, s.stepAt? a = some t → t.operator ≠ name := by
  have hmem (t : TraceStep) : t ∈ s.listing ↔ ∃ a, s.stepAt? a = some t :=
    (listsInPreorder_listing s).mem_iff
  simp only [find?_eq_find?, List.find?_eq_none, hmem, decide_eq_true_eq, forall_exists_index,
    ne_eq]
  exact forall_comm

/-- **Counting and searching follow the listing.**  The listing of a forest has its steps in
pre-order, and as many as are counted.  So has the listing of any step with those below it, and a
search there comes to its first entry with the operator, and to nothing just where no step of the
subtree has it. -/
theorem count_and_find?_follow_listing (forest : List TraceStep) (name : String) :
    ListsInPreorder (stepIn? forest) (listAll forest) ∧
      countAll forest = (listAll forest).length ∧
      ∀ s : TraceStep, ListsInPreorder s.stepAt? s.listing ∧
        s.count = s.listing.length ∧
        s.find? name = s.listing.find? (fun t => t.operator = name) ∧
        (s.find? name = none ↔ ∀ a t, s.stepAt? a = some t → t.operator ≠ name) := by
  refine ⟨listsInPreorder_listAll forest, countAll_eq_length forest, fun s =>
    ⟨listsInPreorder_listing s, ?_, find?_eq_find? name s, find?_eq_none_iff⟩⟩
  rw [count_eq, countAll_eq_length, listing_eq, List.length_cons, Nat.add_comm]

/-- What stands deeper in the first child comes before the second child. -/
example :
    let step (path operator : String) (children : List TraceStep) : TraceStep :=
      ⟨path, operator, .null, none, children⟩
    let s := step "$" "or" [step "$.args[0]" "!" [step "$.args[0].args[0]" "var" []],
      step "$.args[1]" "var" []]
    (s.find? "var").map TraceStep.path = some "$.args[0].args[0]" := by
  decide

end TraceStep

end DecisionRules
