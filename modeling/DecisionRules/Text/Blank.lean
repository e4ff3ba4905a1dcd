/-!
# Text/Blank — characters that leave a text empty

The characters with the Unicode property `White_Space`. A text of such characters only shows
nothing, and counts as empty where a name is asked for.
-/

namespace DecisionRules.Text

/-- The ranges of `White_Space`, first and last code point. -/
def blankRanges : List (Nat × Nat) :=
  [(0x0009, 0x000D), (0x0020, 0x0020), (0x0085, 0x0085), (0x00A0, 0x00A0), (0x1680, 0x1680),
    (0x2000, 0x200A), (0x2028, 0x2029), (0x202F, 0x202F), (0x205F, 0x205F), (0x3000, 0x3000)]

/-- Whether a character has the property `White_Space`. -/
def isBlank (c : Char) : Bool := blankRanges.any fun (first, last) =>
  decide (first ≤ c.toNat ∧ c.toNat ≤ last)

/-- Whether a text has no character but blank ones. -/
def isBlankText (s : String) : Bool := s.toList.all isBlank

end DecisionRules.Text
