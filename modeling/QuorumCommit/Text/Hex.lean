/-!
Hexadecimal text: lower-case digits are written, digits of either case are read.
-/
namespace QuorumCommit.Text.Hex

/-- The digit of the four lowest bits. -/
def digit (n : Nat) : Char := Nat.digitChar (n % 16)

def value? (c : Char) : Option Nat :=
  if '0' ≤ c ∧ c ≤ '9' then some (c.toNat - '0'.toNat)
  else if 'a' ≤ c ∧ c ≤ 'f' then some (c.toNat - 'a'.toNat + 10)
  else if 'A' ≤ c ∧ c ≤ 'F' then some (c.toNat - 'A'.toNat + 10)
  else none

def ofByte (b : UInt8) : List Char := [digit (b.toNat / 16), digit b.toNat]

def encode (bytes : List UInt8) : String := String.ofList (bytes.flatMap ofByte)

def decodeList? : List Char → Option (List UInt8)
  | [] => some []
  | a :: b :: rest => do
    let a ← value? a
    let b ← value? b
    some (UInt8.ofNat (a * 16 + b) :: (← decodeList? rest))
  | [_] => none

def decode? (s : String) : Option (List UInt8) := decodeList? s.toList

/-- The last digits of a number. -/
def lastDigits : Nat → Nat → List Char
  | 0, _ => []
  | digits + 1, n => lastDigits digits (n / 16) ++ [digit n]

/-- A number in exactly as many digits as given. -/
def padded (digits n : Nat) : String := String.ofList (lastDigits digits n)

/-- A number without leading zeros. -/
def shortest (n : Nat) : String := String.ofList (Nat.toDigits 16 n)

end QuorumCommit.Text.Hex
