import DecisionRules.Json.NumberText

/-!
# Number/Integer — integers written on their own

An integer given as an argument is an optional sign and at least one ASCII digit, nothing else, and
fits in sixty-four bits. Leading zeros are allowed.
-/

namespace DecisionRules.Integer

/-- The natural that a text of digits writes. -/
def digits? (cs : List Char) : Option Nat :=
  if cs.isEmpty || !cs.all Number.isDigit then none else some (Number.natOfDigits cs)

/-- **A natural is read back from its decimal text.** -/
@[simp] theorem digits?_natText (n : Nat) : digits? (Number.natText n) = some n := by
  have hne : (Number.natText n).isEmpty = false := by simp [Number.natText_ne_nil]
  have hall : (Number.natText n).all Number.isDigit = true :=
    List.all_eq_true.mpr fun _ hc => Number.isDigit_of_mem_natText hc
  simp [digits?, hne, hall]

/-- An integer from `-2 ^ 63` up to but excluding `2 ^ 63`. -/
def signed? (s : String) : Option Int :=
  let value? : Option Int :=
    match s.toList with
    | '-' :: rest => (digits? rest).map fun n => -(n : Int)
    | '+' :: rest => (digits? rest).map fun n => (n : Int)
    | rest => (digits? rest).map fun n => (n : Int)
  value?.filter fun n => decide (-Nat.pow 2 63 ≤ n ∧ n < Nat.pow 2 63)

/-- A natural below `2 ^ 64`; a minus sign is refused. -/
def unsigned? (s : String) : Option Nat :=
  let value? :=
    match s.toList with
    | '+' :: rest => digits? rest
    | rest => digits? rest
  value?.filter fun n => decide (n < Nat.pow 2 64)

end DecisionRules.Integer
