import DecisionRules.Json.Reader
import DecisionRules.Proofs.Json.Spelling

/-!
# Proofs/Json/RoundTrip — a document is read back from its text

The reader takes one token at a time and keeps what is open as holes. A spelling that it meets where
a value belongs puts the document there (`run_spelling`), whatever is open around it, as long as the
policy has room for what the document opens itself. On an empty list of holes that is the document,
and with the tokens of the written text it is the way back (`read_write`), if the layer below rounds
the decimals of that text correctly.

The induction is on the document, with all holes at once: an item is read with one hole more than
its array.
-/

namespace DecisionRules.Json

namespace Reader

theorem run_cons {p : Policy} {state next : State} {t : Token} (h : step p state t = some next)
    (ts : List Token) : run p state (t :: ts) = run p next ts := by
  rw [run, h]

theorem Policy.hasRoom_of_lt {p : Policy} {holes : List Hole} (h : holes.length < p.limit) :
    p.hasRoom holes = true := by
  simp [hasRoom, h]

theorem step_openArray {p : Policy} {holes : List Hole} (h : holes.length < p.limit) :
    step p (.value holes) .openArray = some (.firstItem holes) := if_pos (Policy.hasRoom_of_lt h)

theorem step_openObject {p : Policy} {holes : List Hole} (h : holes.length < p.limit) :
    step p (.value holes) .openObject = some (.firstKey holes) := if_pos (Policy.hasRoom_of_lt h)

/-- The first token of a spelling fits where a value belongs, and does not end an array. -/
theorem spelling_start {p : Policy} {j : Json} {holes : List Hole}
    (h : holes.length + j.depth ≤ p.limit) :
    ∃ t ts next, j.spelling = t :: ts ∧ t ≠ .closeArray ∧ step p (.value holes) t = some next := by
  cases j with
  | array items =>
    have hroom : holes.length < p.limit := by
      rw [depth] at h
      omega
    cases items <;> exact ⟨_, _, _, rfl, nofun, step_openArray hroom⟩
  | object entries =>
    have hroom : holes.length < p.limit := by
      rw [depth] at h
      omega
    cases entries <;> exact ⟨_, _, _, rfl, nofun, step_openObject hroom⟩
  | _ => exact ⟨_, _, _, rfl, nofun, rfl⟩

/-- Where the array may also end, a spelling is an item all the same. -/
theorem run_firstItem {p : Policy} {j : Json} {holes : List Hole}
    (h : (Hole.item [] :: holes).length + j.depth ≤ p.limit) (ts : List Token) :
    run p (.firstItem holes) (j.spelling ++ ts) =
      run p (.value (.item [] :: holes)) (j.spelling ++ ts) := by
  obtain ⟨t, rest, next, hspelling, ht, hvalue⟩ := spelling_start h
  have hfirst : step p (.firstItem holes) t = some next := by
    rw [← hvalue]
    cases t with
    | closeArray => exact absurd rfl ht
    | _ => rfl
  rw [hspelling, List.cons_append, run_cons hfirst, run_cons hvalue]

mutual

/-- **A spelling where a value belongs puts the document there.** -/
theorem run_spelling {p : Policy} : ∀ {j : Json} {holes : List Hole},
    holes.length + j.depth ≤ p.limit → ∀ ts,
    run p (.value holes) (j.spelling ++ ts) = run p (place j holes) ts
  | .null, _, _, _ => rfl
  | .bool _, _, _, _ => rfl
  | .number _, _, _, _ => rfl
  | .string _, _, _, _ => rfl
  | .array [], holes, h, ts => by
    have hroom : holes.length < p.limit := by
      rw [depth] at h
      omega
    rw [spelling, List.cons_append, run_cons (step_openArray hroom)]
    rfl
  | .array (j :: rest), holes, h, ts => by
    simp only [depth, depthOfItems] at h
    have hroom : holes.length < p.limit := by omega
    have hfirst : (Hole.item [] :: holes).length + j.depth ≤ p.limit := by
      rw [List.length_cons]
      omega
    have hrest : holes.length + 1 + depthOfItems rest ≤ p.limit := by omega
    rw [spelling, List.cons_append, run_cons (step_openArray hroom), List.append_assoc,
      List.append_assoc, run_firstItem hfirst, run_spelling hfirst, place, run_spellingItems hrest]
    simp [run_cons, step]
  | .object [], holes, h, ts => by
    have hroom : holes.length < p.limit := by
      rw [depth] at h
      omega
    rw [spelling, List.cons_append, run_cons (step_openObject hroom)]
    rfl
  | .object ((k, j) :: rest), holes, h, ts => by
    simp only [depth, depthOfEntries] at h
    have hroom : holes.length < p.limit := by omega
    have hfirst : (Hole.entry [] k :: holes).length + j.depth ≤ p.limit := by
      rw [List.length_cons]
      omega
    have hrest : holes.length + 1 + depthOfEntries rest ≤ p.limit := by omega
    have hkey : step p (.firstKey holes) (.text k) = some (.colon [] k holes) := rfl
    have hcolon : step p (.colon [] k holes) .colon = some (.value (.entry [] k :: holes)) := rfl
    rw [spelling, List.cons_append, run_cons (step_openObject hroom), List.cons_append,
      run_cons hkey, List.cons_append, run_cons hcolon, List.append_assoc, List.append_assoc,
      run_spelling hfirst, place, run_spellingEntries hrest]
    simp [run_cons, step]
  termination_by structural j => j

/-- The items after the first one go behind it. -/
theorem run_spellingItems {p : Policy} : ∀ {rest before : List Json} {holes : List Hole},
    holes.length + 1 + depthOfItems rest ≤ p.limit → ∀ ts,
    run p (.afterItem before holes) (spellingItems rest ++ ts) =
      run p (.afterItem (rest.reverse ++ before) holes) ts
  | [], _, _, _, _ => rfl
  | j :: rest, before, holes, h, ts => by
    simp only [depthOfItems] at h
    have hitem : (Hole.item before :: holes).length + j.depth ≤ p.limit := by
      rw [List.length_cons]
      omega
    have hrest : holes.length + 1 + depthOfItems rest ≤ p.limit := by omega
    have hcomma : step p (.afterItem before holes) .comma =
      some (.value (.item before :: holes)) := rfl
    rw [spellingItems, List.cons_append, run_cons hcomma, List.append_assoc, run_spelling hitem,
      place, run_spellingItems hrest]
    simp
  termination_by structural rest => rest

/-- The entries after the first one go behind it. -/
theorem run_spellingEntries {p : Policy} : ∀ {rest before : List (String × Json)}
    {holes : List Hole}, holes.length + 1 + depthOfEntries rest ≤ p.limit → ∀ ts,
    run p (.afterEntry before holes) (spellingEntries rest ++ ts) =
      run p (.afterEntry (rest.reverse ++ before) holes) ts
  | [], _, _, _, _ => rfl
  | (k, j) :: rest, before, holes, h, ts => by
    simp only [depthOfEntries] at h
    have hentry : (Hole.entry before k :: holes).length + j.depth ≤ p.limit := by
      rw [List.length_cons]
      omega
    have hrest : holes.length + 1 + depthOfEntries rest ≤ p.limit := by omega
    have hcomma : step p (.afterEntry before holes) .comma = some (.nextKey before holes) := rfl
    have hkey : step p (.nextKey before holes) (.text k) = some (.colon before k holes) := rfl
    have hcolon : step p (.colon before k holes) .colon =
      some (.value (.entry before k :: holes)) := rfl
    rw [spellingEntries, List.cons_append, run_cons hcomma, List.cons_append, run_cons hkey,
      List.cons_append, run_cons hcolon, List.append_assoc, run_spelling hentry, place,
      run_spellingEntries hrest]
    simp
  termination_by structural rest => rest

end

end Reader

/-- **A legible document is read back from its compact text**, by every reader that has room for its
nesting, if its decimals are rounded correctly. -/
theorem read_write [Rounding] {p : Reader.Policy} {j : Json} (hlegible : j.Legible)
    (hround : j.RoundsCorrectly) (hdepth : j.depth ≤ p.limit) : read p j.write = .ok j := by
  have hroom : ([] : List Hole).length + j.depth ≤ p.limit := by simpa using hdepth
  have hrun := Reader.run_spelling hroom []
  rw [List.append_nil] at hrun
  rw [read, tokens_write hlegible hround, hrun]
  rfl

end DecisionRules.Json
