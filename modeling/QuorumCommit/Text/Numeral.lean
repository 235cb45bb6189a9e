/-!
Natural numbers in decimal, read up to a bound. A sign `+` may come first; the characters are
judged from left to right, so a number that is too large is refused before a later letter.
-/
namespace QuorumCommit.Text

inductive NumeralFault where
  | empty
  | invalidDigit
  | tooLarge
  deriving DecidableEq, Repr

namespace NumeralFault

def message : NumeralFault → String
  | empty => "cannot parse integer from empty string"
  | invalidDigit => "invalid digit found in string"
  | tooLarge => "number too large to fit in target type"

end NumeralFault

/-- The value of an ASCII digit. -/
def digit? (c : Char) : Option Nat :=
  if '0' ≤ c ∧ c ≤ '9' then some (c.toNat - '0'.toNat) else none

def readDigits (bound acc : Nat) : List Char → Except NumeralFault Nat
  | [] => .ok acc
  | c :: rest =>
    match digit? c with
    | none => .error .invalidDigit
    | some d =>
      if acc * 10 + d < bound then readDigits bound (acc * 10 + d) rest else .error .tooLarge

/-- Reads a number below `bound`. -/
def readNat (bound : Nat) (s : String) : Except NumeralFault Nat :=
  match s.toList with
  | [] => .error .empty
  | ['+'] => .error .invalidDigit
  | '+' :: rest => readDigits bound 0 rest
  | cs => readDigits bound 0 cs

end QuorumCommit.Text
