import DecisionRules.Json.Reader
import DecisionRules.Proofs.Json.Spelling

/-!
# Proofs/Json/Legibility — what is read can be written

A text holds no numbers but integers of sixty-four bits and finite doubles: a literal that stands
for anything else is no scalar token.  The reader puts tokens together and makes no numbers of its
own, so every document that comes out of it is `Json.Legible` (`Json.legible_of_read`), whatever its
policy lets pass and however decimals are rounded.
-/

namespace DecisionRules

/-- **A literal denotes a number that a text can hold**, or none. -/
theorem Number.Literal.legible_of_number? [Rounding] {l : Literal} {n : Number}
    (h : l.number? = some n) : n.Legible := by
  dsimp only [number?] at h
  generalize (if l.negative = true then -(natOfDigits l.whole : Int) else natOfDigits l.whole) =
    whole at h
  split at h
  case isTrue hinteger =>
    simp only [Bool.and_eq_true, decide_eq_true_eq] at hinteger
    obtain ⟨⟨⟨-, hleast⟩, hlimit⟩, -⟩ := hinteger
    obtain rfl := Option.some.inj h
    exact ⟨hleast, hlimit⟩
  case isFalse =>
    dsimp only [double?] at h
    split at h
    case isTrue hfinite =>
      obtain rfl := Option.some.inj h
      exact hfinite
    case isFalse => cases h

namespace Json

theorem legibleItems_iff {items : List Json} :
    LegibleItems items ↔ ∀ j ∈ items, j.Legible := by
  induction items with
  | nil => simp [LegibleItems]
  | cons j rest ih => rw [LegibleItems, ih, List.forall_mem_cons]

theorem legibleEntries_iff {entries : List (String × Json)} :
    LegibleEntries entries ↔ ∀ entry ∈ entries, entry.2.Legible := by
  induction entries with
  | nil => simp [LegibleEntries]
  | cons entry rest ih => rw [LegibleEntries, ih, List.forall_mem_cons]

/-! ## Tokens -/

/-- A scalar that a text can hold, or no scalar. -/
def Token.Legible : Token → Prop
  | .scalar j => j.Legible
  | _ => True

namespace Token

theorem legible_ofLiteral [Rounding] (l : Number.Literal) : (ofLiteral l).Legible := by
  rw [ofLiteral]
  rcases hn : l.number? with _ | n
  · trivial
  · exact Number.Literal.legible_of_number? hn

theorem legible_leftover (letters : List Char) : ∀ t ∈ leftover letters, t.Legible := by
  rw [leftover]
  split
  · exact fun _ ht => absurd ht List.not_mem_nil
  · exact List.forall_mem_singleton.mpr trivial

theorem legible_ofWord [Rounding] (letters : List Char) : ∀ t ∈ ofWord letters, t.Legible := by
  unfold ofWord
  split
  case h_4 =>
    split
    · exact List.forall_mem_cons.mpr ⟨legible_ofLiteral _, legible_leftover _⟩
    · exact List.forall_mem_singleton.mpr trivial
  all_goals exact List.forall_mem_cons.mpr ⟨trivial, legible_leftover _⟩

theorem legible_ofRaw (raw : List Char) : (ofRaw raw).Legible := by
  unfold ofRaw
  split
  · trivial
  · split <;> trivial

theorem legible_start (c : Char) : ∀ t ∈ (start c).1, t.Legible := by
  unfold start
  split_ifs
  · exact fun _ ht => absurd ht List.not_mem_nil
  · exact fun _ ht => absurd ht List.not_mem_nil
  · split
    case h_1 t hmark =>
      refine List.forall_mem_singleton.mpr ?_
      unfold punctuation? at hmark
      split_ifs at hmark <;> obtain rfl := Option.some.inj hmark <;> trivial
    case h_2 => exact fun _ ht => absurd ht List.not_mem_nil

/-- **Every token of a text is legible.** -/
theorem legible_scan [Rounding] (mode : Mode) (cs : List Char) : ∀ t ∈ scan mode cs, t.Legible := by
  fun_induction scan mode cs with
  | case1 => exact fun _ ht => absurd ht List.not_mem_nil
  | case2 letters => exact legible_ofWord _
  | case3 => exact List.forall_mem_singleton.mpr trivial
  | case4 c cs tokens mode hstart ih =>
    have htokens : ∀ t ∈ tokens, t.Legible := by simpa [hstart] using legible_start c
    exact List.forall_mem_append.mpr ⟨htokens, ih⟩
  | case5 letters c cs hdelimiter tokens mode hstart ih =>
    have htokens : ∀ t ∈ tokens, t.Legible := by simpa [hstart] using legible_start c
    exact List.forall_mem_append.mpr
      ⟨legible_ofWord _, List.forall_mem_append.mpr ⟨htokens, ih⟩⟩
  | case6 letters c cs hdelimiter ih => exact ih
  | case7 raw c cs ih => exact ih
  | case8 raw cs ih => exact List.forall_mem_cons.mpr ⟨legible_ofRaw _, ih⟩
  | case9 raw c cs hquote ih => exact ih

end Token

/-! ## The reader -/

/-- What stands before a hole is legible. -/
def Hole.Legible : Hole → Prop
  | .item before => ∀ j ∈ before, j.Legible
  | .entry before _ => ∀ entry ∈ before, entry.2.Legible

namespace Reader

/-- All that was read so far is legible. -/
def State.Legible : State → Prop
  | .value holes | .firstItem holes | .firstKey holes => ∀ hole ∈ holes, hole.Legible
  | .afterItem items holes => (∀ j ∈ items, j.Legible) ∧ ∀ hole ∈ holes, hole.Legible
  | .nextKey entries holes | .colon entries _ holes | .afterEntry entries holes =>
    (∀ entry ∈ entries, entry.2.Legible) ∧ ∀ hole ∈ holes, hole.Legible
  | .finished document => document.Legible

variable {p : Policy} {holes : List Hole}

theorem legible_place {j : Json} (hj : j.Legible) (hholes : ∀ hole ∈ holes, hole.Legible) :
    (place j holes).Legible := by
  rcases holes with _ | ⟨before | ⟨before, key⟩, holes⟩
  · exact hj
  · obtain ⟨hbefore, hrest⟩ := List.forall_mem_cons.mp hholes
    exact ⟨List.forall_mem_cons.mpr ⟨hj, hbefore⟩, hrest⟩
  · obtain ⟨hbefore, hrest⟩ := List.forall_mem_cons.mp hholes
    exact ⟨List.forall_mem_cons.mpr ⟨hj, hbefore⟩, hrest⟩

theorem legible_readValue {t : Token} {next : State} (ht : t.Legible)
    (hholes : ∀ hole ∈ holes, hole.Legible) (h : readValue p holes t = some next) :
    next.Legible := by
  unfold readValue at h
  split at h
  case h_1 j => exact Option.some.inj h ▸ legible_place ht hholes
  case h_2 s => exact Option.some.inj h ▸ legible_place trivial hholes
  case h_7 => cases h
  all_goals
    split at h
    · first
        | exact Option.some.inj h ▸ legible_place trivial hholes
        | exact Option.some.inj h ▸ hholes
    · cases h

theorem legible_readKey {entries : List (String × Json)} {t : Token} {next : State}
    (hentries : ∀ entry ∈ entries, entry.2.Legible) (hholes : ∀ hole ∈ holes, hole.Legible)
    (h : readKey p entries holes t = some next) : next.Legible := by
  unfold readKey at h
  split at h
  · exact Option.some.inj h ▸ ⟨hentries, hholes⟩
  · split at h
    · exact Option.some.inj h ▸ ⟨hentries, hholes⟩
    · cases h
  · cases h

/-- **A token that is legible leaves the reader so.** -/
theorem legible_step {state next : State} {t : Token} (hstate : state.Legible) (ht : t.Legible)
    (h : step p state t = some next) : next.Legible := by
  unfold step at h
  split at h
  case h_1 holes t => exact legible_readValue ht hstate h
  case h_2 holes => exact Option.some.inj h ▸ legible_place trivial hstate
  case h_3 holes t _ =>
    exact legible_readValue ht
      (List.forall_mem_cons.mpr ⟨fun _ hj => absurd hj List.not_mem_nil, hstate⟩) h
  case h_4 items holes => exact Option.some.inj h ▸ List.forall_mem_cons.mpr hstate
  case h_5 items holes =>
    have hitems : (Json.array items.reverse).Legible :=
      legibleItems_iff.mpr fun j hj => hstate.1 j (List.mem_reverse.mp hj)
    exact Option.some.inj h ▸ legible_place hitems hstate.2
  case h_6 holes => exact Option.some.inj h ▸ legible_place trivial hstate
  case h_7 holes t _ =>
    exact legible_readKey (fun _ hentry => absurd hentry List.not_mem_nil) hstate h
  case h_8 entries holes t => exact legible_readKey hstate.1 hstate.2 h
  case h_9 entries key holes => exact Option.some.inj h ▸ List.forall_mem_cons.mpr hstate
  case h_10 entries holes => exact Option.some.inj h ▸ hstate
  case h_11 entries holes =>
    have hentries : (Json.object entries.reverse).Legible :=
      legibleEntries_iff.mpr fun entry hentry => hstate.1 entry (List.mem_reverse.mp hentry)
    exact Option.some.inj h ▸ legible_place hentries hstate.2
  case h_12 => cases h

/-- **A run over legible tokens gives a legible document.** -/
theorem legible_run : ∀ {state : State} {ts : List Token} {j : Json}, state.Legible →
    (∀ t ∈ ts, t.Legible) → run p state ts = .ok j → j.Legible
  | state, [], j, hstate, _, h => by
    unfold run at h
    split at h
    case h_1 => exact Except.ok.inj h ▸ hstate
    case h_2 => cases h
    case h_3 heq => cases heq
  | state, t :: ts, j, hstate, hts, h => by
    obtain ⟨ht, hrest⟩ := List.forall_mem_cons.mp hts
    rw [run] at h
    split at h
    case h_1 next hnext => exact legible_run (legible_step hstate ht hnext) hrest h
    case h_2 => cases h

end Reader

/-- **What is read is legible.** -/
theorem legible_of_read [Rounding] {p : Reader.Policy} {text : String} {j : Json}
    (h : read p text = .ok j) : j.Legible :=
  Reader.legible_run (fun _ hhole => absurd hhole List.not_mem_nil)
    (Token.legible_scan .between text.toList) h

end Json

end DecisionRules
