import DecisionRules.Json.Token
import Mathlib

/-!
# Proofs/Json/Quoting — a string is read back from between its quotation marks

`escape` works on one character at a time, so everything here is said of one character and carried
along the string. There are three things that an escaped character can look like (`escape_cases`),
and two readers that must agree with each of them: the one that looks for pieces finds one piece,
which stands for the character (`exists_piece`), and the scanner runs past it without taking a
quotation mark in it for the end (`scan_escape`).
-/

namespace DecisionRules.Quoted

/-! ## One character -/

/-- **An escaped character** is a backslash with a letter for it, a code below `U+0020`, or the
character itself. -/
theorem escape_cases (c : Char) :
    (∃ letter, escape c = ['\\', letter] ∧ letter ≠ 'u' ∧ shortEscape? letter = some c) ∨
      (escape c = unicodeEscape c.toNat ∧ c.toNat < 0x20) ∨
        escape c = [c] ∧ c ≠ '"' ∧ c ≠ '\\' ∧ ¬ c.toNat < 0x20 := by
  unfold escape
  split_ifs with hquote hslash hb hf hn hr ht hcontrol
  · exact .inl ⟨'"', rfl, by decide, by rw [hquote]; rfl⟩
  · exact .inl ⟨'\\', rfl, by decide, by rw [hslash]; rfl⟩
  · exact .inl ⟨'b', rfl, by decide, by rw [hb]; rfl⟩
  · exact .inl ⟨'f', rfl, by decide, by rw [hf]; rfl⟩
  · exact .inl ⟨'n', rfl, by decide, by rw [hn]; rfl⟩
  · exact .inl ⟨'r', rfl, by decide, by rw [hr]; rfl⟩
  · exact .inl ⟨'t', rfl, by decide, by rw [ht]; rfl⟩
  · exact .inr (.inl ⟨rfl, hcontrol⟩)
  · exact .inr (.inr ⟨rfl, hquote, hslash, hcontrol⟩)

theorem hexValue?_hexDigit : ∀ n < 16, hexValue? (hexDigit n) = some n := by decide

/-- Four digits are as many as a code below `U+10000` needs. -/
theorem hexCode?_hexDigit {n : Nat} (hn : n < 65536) :
    hexCode? (hexDigit (n / 4096 % 16)) (hexDigit (n / 256 % 16)) (hexDigit (n / 16 % 16))
      (hexDigit (n % 16)) = some n := by
  have hdigit : ∀ m, hexValue? (hexDigit (m % 16)) = some (m % 16) := fun m =>
    hexValue?_hexDigit _ (Nat.mod_lt _ (by decide))
  simp only [hexCode?, hdigit, Option.bind_eq_bind, Option.bind_some, Option.pure_def,
    Option.some.injEq]
  omega

/-- **An escaped character is one piece, which stands for that character.** -/
theorem exists_piece (c : Char) : ∃ p : Piece,
    (∀ cs, pieces? (escape c ++ cs) = (pieces? cs).map (p :: ·)) ∧
      ∀ ps, join? (p :: ps) = (join? ps).map (c :: ·) := by
  rcases escape_cases c with ⟨letter, hescape, hu, hletter⟩ | ⟨hescape, hcontrol⟩ |
    ⟨hescape, hquote, hslash, hcontrol⟩
  · refine ⟨.char c, fun cs => ?_, fun ps => rfl⟩
    rw [hescape]
    simp [pieces?, hu, hletter, Option.map_eq_bind]
  · refine ⟨.code c.toNat, fun cs => ?_, fun ps => ?_⟩
    · rw [hescape]
      simp [pieces?, unicodeEscape, hexCode?_hexDigit (n := c.toNat) (by omega),
        Option.map_eq_bind]
    · have hhigh : isHighHalf c.toNat = false := by
        simp only [isHighHalf, decide_eq_false_iff_not]
        omega
      have hlow : isLowHalf c.toNat = false := by
        simp only [isLowHalf, decide_eq_false_iff_not]
        omega
      rw [join?.eq_def]
      simp [hhigh, hlow]
  · refine ⟨.char c, fun cs => ?_, fun ps => rfl⟩
    rw [hescape]
    simp [pieces?, hslash, hcontrol]

/-! ## The whole string -/

/-- **The pieces of an escaped string are there, and stand for the string.** -/
theorem exists_pieces (cs : List Char) :
    ∃ ps, pieces? (cs.flatMap escape) = some ps ∧ join? ps = some cs := by
  induction cs with
  | nil => exact ⟨[], rfl, rfl⟩
  | cons c cs ih =>
    obtain ⟨ps, hpieces, hjoin⟩ := ih
    obtain ⟨p, hread, hstands⟩ := exists_piece c
    exact ⟨p :: ps, by rw [List.flatMap_cons, hread, hpieces]; rfl, by rw [hstands, hjoin]; rfl⟩

end DecisionRules.Quoted

namespace DecisionRules.Json.Token

open Quoted (escape escape_cases exists_pieces hexDigit quote unicodeEscape)

theorem ofRaw_escape (s : String) : ofRaw (s.toList.flatMap escape) = .text s := by
  obtain ⟨ps, hpieces, hjoin⟩ := exists_pieces s.toList
  simp only [ofRaw, hpieces, hjoin, String.ofList_toList]

/-- Inside quotation marks, a character that is neither a mark nor a backslash is taken as it is. -/
theorem scan_quoted_of_plain [Rounding] {c : Char} (hquote : c ≠ '"') (hslash : c ≠ '\\')
    (raw cs : List Char) :
    scan (.quoted raw false) (c :: cs) = scan (.quoted (c :: raw) false) cs := by
  rw [scan, if_neg hquote, beq_false_of_ne hslash]

theorem hexDigit_plain : ∀ n < 16, hexDigit n ≠ '"' ∧ hexDigit n ≠ '\\' := by decide

/-- **The scanner runs past an escaped character.** -/
theorem scan_escape [Rounding] (c : Char) (raw cs : List Char) :
    scan (.quoted raw false) (escape c ++ cs) =
      scan (.quoted ((escape c).reverse ++ raw) false) cs := by
  rcases escape_cases c with ⟨letter, hescape, -, -⟩ | ⟨hescape, -⟩ | ⟨hescape, hquote, hslash, -⟩
  · rw [hescape]
    simp [scan]
  · have hplain : ∀ m, hexDigit (m % 16) ≠ '"' ∧ hexDigit (m % 16) ≠ '\\' := fun m =>
      hexDigit_plain _ (Nat.mod_lt _ (by decide))
    rw [hescape]
    simp [unicodeEscape, scan, hplain, beq_false_of_ne (hplain _).2]
  · rw [hescape]
    exact scan_quoted_of_plain hquote hslash raw cs

theorem scan_flatMap_escape [Rounding] (cs rest : List Char) : ∀ raw,
    scan (.quoted raw false) (cs.flatMap escape ++ '"' :: rest) =
      ofRaw (raw.reverse ++ cs.flatMap escape) :: scan .between rest := by
  induction cs with
  | nil =>
    intro raw
    simp [scan]
  | cons c cs ih =>
    intro raw
    rw [List.flatMap_cons, List.append_assoc, scan_escape, ih]
    simp

/-- **A string between its quotation marks is scanned as that string.** -/
theorem scan_quote [Rounding] (s : String) (rest : List Char) :
    scan .between (quote s.toList ++ rest) = .text s :: scan .between rest := by
  have hstart : start '"' = ([], .quoted [] false) := rfl
  rw [quote, List.cons_append, List.cons_append, List.append_assoc, scan, hstart]
  have hraw := scan_flatMap_escape s.toList rest []
  rw [List.reverse_nil, List.nil_append, ofRaw_escape] at hraw
  exact hraw

end DecisionRules.Json.Token
