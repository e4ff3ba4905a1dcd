import DecisionRules.Proofs.Value.Addressing

/-!
# Proofs/Value/Composition — a path may be followed in stages

A path is cut at its dots, and its segments are followed one after the other.  So the dot between two
paths is a cut like any other, whatever stands on either side of it: following both paths as one is
following the first and then, from where that leads, the second (`Value.resolve_append`).  Paths
that start or end with a dot are no exception, since the empty segments there are segments too.

The empty path is one.  On its own it leads to the value itself, but next to a dot it is an empty
segment, and that leads to the entry with the empty key (`Value.resolve_append_dot`,
`Value.resolve_dot_append`).
-/

namespace DecisionRules.Value

/-! ## Segments -/

/-- **Segments may be followed in stages.** -/
theorem walk_append (before after : List String) (v : Value) :
    v.walk (before ++ after) = (v.walk before).bind fun inner => inner.walk after := by
  induction before generalizing v with
  | nil => rfl
  | cons segment rest ih =>
    rw [List.cons_append, walk, walk, Option.bind_assoc]
    exact Option.bind_congr fun inner _ => ih inner

/-- A path that is not empty is followed segment by segment. -/
theorem resolve_eq_walk {path : String} (h : path ≠ "") (v : Value) :
    v.resolve path = v.walk (segments path) := by
  rw [resolve, if_neg (by simpa using h)]

/-- A path with a dot in it is not empty. -/
theorem append_dot_append_ne_empty (p q : String) : p ++ "." ++ q ≠ "" := by
  simp

/-- Two paths with a dot between them, followed segment by segment. -/
theorem resolve_append_eq_bind_walk (v : Value) (p q : String) : v.resolve (p ++ "." ++ q) =
    (v.walk (segments p)).bind fun inner => inner.walk (segments q) := by
  rw [resolve_eq_walk (append_dot_append_ne_empty p q), segments_append, walk_append]

/-! ## The empty path beside a dot -/

/-- Next to a dot, the empty path is an empty segment. -/
theorem walk_segments_empty (v : Value) : v.walk (segments "") = v.child? "" := by
  have hempty : segments "" = [""] := segments_of_no_dot List.not_mem_nil
  rw [hempty]
  exact Option.bind_fun_some _

/-- A dot at the end of a path leads on to the entry with the empty key. -/
theorem resolve_append_dot {p : String} (hp : p ≠ "") (v : Value) :
    v.resolve (p ++ ".") = (v.resolve p).bind fun inner => inner.child? "" := by
  have hsplit := resolve_append_eq_bind_walk v p ""
  rw [String.append_empty] at hsplit
  simp only [hsplit, walk_segments_empty, resolve_eq_walk hp]

/-- A dot at the start of a path leads through the entry with the empty key. -/
theorem resolve_dot_append {q : String} (hq : q ≠ "") (v : Value) :
    v.resolve ("." ++ q) = (v.child? "").bind fun inner => inner.resolve q := by
  have hsplit := resolve_append_eq_bind_walk v "" q
  rw [String.empty_append] at hsplit
  simp only [hsplit, walk_segments_empty, resolve_eq_walk hq]

/-! ## Composition -/

theorem intercalate_ne_empty {p : String} (hp : p ≠ "") (rest : List String) :
    ".".intercalate (p :: rest) ≠ "" := by
  cases rest with
  | nil => rwa [String.intercalate_singleton]
  | cons q rest =>
    rw [String.intercalate_cons_cons]
    exact append_dot_append_ne_empty p _

/-- **Paths may be followed in stages**, any number of them. -/
theorem resolve_intercalate {paths : List String} (hne : paths ≠ [])
    (hpaths : ∀ path ∈ paths, path ≠ "") (v : Value) :
    v.resolve (".".intercalate paths) = paths.foldlM resolve v := by
  induction paths generalizing v with
  | nil => exact absurd rfl hne
  | cons p rest ih =>
    obtain ⟨hp, hrest⟩ := List.forall_mem_cons.mp hpaths
    rw [List.foldlM_cons]
    rcases rest with _ | ⟨q, rest⟩
    · rw [String.intercalate_singleton]
      exact (Option.bind_fun_some _).symm
    · have hlater := ih (List.cons_ne_nil q rest) hrest
      have hbehind := intercalate_ne_empty (List.forall_mem_cons.mp hrest).1 rest
      rw [String.intercalate_cons_cons, resolve_append_eq_bind_walk, resolve_eq_walk hp]
      exact Option.bind_congr fun inner _ => by rw [← resolve_eq_walk hbehind, hlater]

/-- **A path may be followed in two stages.**  For paths that are not empty, whatever dots are in
them: two paths with a dot between them lead from a value to where the second leads from where the
first does, and nowhere if the first leads nowhere. -/
theorem resolve_append (v : Value) (p q : String) (hp : p ≠ "") (hq : q ≠ "") :
    v.resolve (p ++ "." ++ q) = (v.resolve p).bind fun inner => inner.resolve q := by
  simp only [resolve_append_eq_bind_walk, resolve_eq_walk hp, resolve_eq_walk hq]

/-- Dots at the ends of both paths, two in a row, and an array behind objects; and a first path
that leads nowhere. -/
theorem resolve_append_dots :
    let v : Value := .object [("", .object [("a", .object [("", .array [.object [("", .null)]])])])]
    ".a." ≠ "" ∧ "0." ≠ "" ∧ "a" ≠ "" ∧
      (v.resolve (".a." ++ "." ++ "0.") = (v.resolve ".a.").bind fun inner => inner.resolve "0.") ∧
      v.resolve (".a." ++ "." ++ "0.") = some .null ∧
      (v.resolve ("a" ++ "." ++ "0.") = (v.resolve "a").bind fun inner => inner.resolve "0.") ∧
      v.resolve ("a" ++ "." ++ "0.") = none := by
  intro v
  have hfirst : ".a." ≠ "" := by decide
  have hsecond : "0." ≠ "" := by decide
  have hkey : "a" ≠ "" := by decide
  exact ⟨hfirst, hsecond, hkey, resolve_append v ".a." "0." hfirst hsecond, rfl,
    resolve_append v "a" "0." hkey hsecond, rfl⟩

/-- With an empty path the two stages need not agree. -/
example :
    let v : Value := .object [("a", .bool true)]
    v.resolve ("" ++ "." ++ "a") = none ∧
      (v.resolve "").bind (fun inner => inner.resolve "a") = some (.bool true) := ⟨rfl, rfl⟩

end DecisionRules.Value
