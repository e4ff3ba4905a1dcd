import DecisionRules.Proofs.Json.Spelling

/-!
# Proofs/Json/SingleLine — a compact document stands on one line

What may stand in a string is anything, line breaks too; what is written for it holds no control
character, since `Quoted.escape` leaves none.  Around the strings there are brackets, commas,
colons, words and numerals.  So no compact text has a control character in it
(`Json.noControl_compact`), and no line break above all.
-/

namespace DecisionRules

/-- No character of a text has a code below `n`. -/
def CodesFrom (n : Nat) (cs : List Char) : Prop := ∀ c ∈ cs, n ≤ c.toNat

namespace CodesFrom

variable {n m : Nat} {cs ds : List Char}

theorem cons {c : Char} (hc : n ≤ c.toNat) (h : CodesFrom n cs) : CodesFrom n (c :: cs) :=
  List.forall_mem_cons.mpr ⟨hc, h⟩

theorem append (h : CodesFrom n cs) (h' : CodesFrom n ds) : CodesFrom n (cs ++ ds) :=
  List.forall_mem_append.mpr ⟨h, h'⟩

theorem mono (h : CodesFrom m cs) (hle : n ≤ m) : CodesFrom n cs := fun c hc => hle.trans (h c hc)

/-- What is checked character by character. -/
theorem of_all (h : cs.all (fun c => decide (n ≤ c.toNat)) = true) : CodesFrom n cs :=
  fun c hc => of_decide_eq_true (List.all_eq_true.mp h c hc)

theorem not_mem (h : CodesFrom n cs) {c : Char} (hc : c.toNat < n) : c ∉ cs :=
  fun hmem => absurd (h c hmem) (Nat.not_le.mpr hc)

end CodesFrom

/-- A text without control characters, which are those below `U+0020`. -/
abbrev NoControl (cs : List Char) : Prop := CodesFrom 0x20 cs

/-! ## Strings -/

namespace Quoted

/-- No control character means another one after a backslash. -/
theorem shortEscape?_control : ∀ n < 0x20, shortEscape? (Char.ofNat n) = none := by decide

theorem hexDigit_noControl : ∀ n < 16, 0x20 ≤ (hexDigit n).toNat := by decide

/-- **An escaped character** is written without control characters. -/
theorem noControl_escape (c : Char) : NoControl (escape c) := by
  rcases escape_cases c with ⟨letter, hescape, -, hletter⟩ | ⟨hescape, -⟩ | ⟨hescape, -, -, hc⟩
  · have hplain : ¬ letter.toNat < 0x20 := by
      intro hcontrol
      have hnone := shortEscape?_control _ hcontrol
      rw [Char.ofNat_toNat, hletter] at hnone
      cases hnone
    rw [hescape]
    exact .cons (by decide) (.cons (by omega) (.of_all rfl))
  · have hdigit : ∀ m, 0x20 ≤ (hexDigit (m % 16)).toNat := fun m =>
      hexDigit_noControl _ (Nat.mod_lt _ (by decide))
    rw [hescape, unicodeEscape]
    exact .cons (by decide) (.cons (by decide) (.cons (hdigit _) (.cons (hdigit _)
      (.cons (hdigit _) (.cons (hdigit _) (.of_all rfl))))))
  · rw [hescape]
    exact .cons (by omega) (.of_all rfl)

/-- A string between quotation marks is written without control characters. -/
theorem noControl_quote (cs : List Char) : NoControl (quote cs) := by
  have hinner : NoControl (cs.flatMap escape) := by
    intro c hc
    obtain ⟨d, -, hd⟩ := List.mem_flatMap.mp hc
    exact noControl_escape d c hd
  exact .append (.cons (by decide) hinner) (.of_all rfl)

end Quoted

/-! ## Documents -/

namespace Json

/-- A numeral is written without control characters. -/
theorem noControl_text {n : Number} (h : n.Legible) : NoControl n.text := by
  intro c hc
  rcases h.mem_text hc with hdigit | hmark
  · exact Token.digit_induction (p := fun c => 0x20 ≤ c.toNat) (by decide) hdigit
  · simp only [List.mem_cons, List.not_mem_nil, or_false] at hmark
    rcases hmark with rfl | rfl | rfl | rfl
    all_goals decide

/-- Texts without control characters are joined to one by commas. -/
theorem noControl_joinWith_comma {texts : List (List Char)} (h : ∀ text ∈ texts, NoControl text) :
    NoControl (joinWith [','] texts) := by
  cases texts with
  | nil => exact .of_all rfl
  | cons text rest =>
    rw [joinWith_cons]
    refine .append (h text List.mem_cons_self) fun c hc => ?_
    obtain ⟨next, hnext, hc⟩ := List.mem_flatMap.mp hc
    exact CodesFrom.cons (by decide) (h next (List.mem_cons_of_mem _ hnext)) c hc

mutual

/-- **A compact document is written without control characters.** -/
theorem noControl_compact : ∀ {j : Json}, j.Legible → NoControl j.compact
  | .null, _ => .of_all rfl
  | .bool true, _ => .of_all rfl
  | .bool false, _ => .of_all rfl
  | .number _, h => noControl_text h
  | .string s, _ => Quoted.noControl_quote s.toList
  | .array _, h =>
    .append (.cons (by decide) (noControl_joinWith_comma (noControl_compactItems h))) (.of_all rfl)
  | .object _, h =>
    .append (.cons (by decide) (noControl_joinWith_comma (noControl_compactEntries h)))
      (.of_all rfl)
  termination_by structural j => j

/-- The items of an array are. -/
theorem noControl_compactItems : ∀ {items : List Json}, LegibleItems items →
    ∀ text ∈ compactItems items, NoControl text
  | [], _ => List.forall_mem_nil _
  | _ :: _, h => List.forall_mem_cons.mpr ⟨noControl_compact h.1, noControl_compactItems h.2⟩
  termination_by structural items => items

/-- The entries of an object are. -/
theorem noControl_compactEntries : ∀ {entries : List (String × Json)}, LegibleEntries entries →
    ∀ text ∈ compactEntries entries, NoControl text
  | [], _ => List.forall_mem_nil _
  | (k, _) :: _, h =>
    List.forall_mem_cons.mpr
      ⟨.append (Quoted.noControl_quote k.toList) (.cons (by decide) (noControl_compact h.1)),
        noControl_compactEntries h.2⟩
  termination_by structural entries => entries

end

end Json

end DecisionRules
