import QuorumCommit.Order
import QuorumCommit.Text.Utf8

/-!
The binary form of values. Integers have a fixed width and their least byte first, texts, lists
and maps follow their length in eight bytes, an option follows one byte, and a case follows its
number in four bytes. A reader takes a value from the front of the bytes and leaves the rest.
-/
namespace QuorumCommit.Wire

open Text

/-- Why bytes are not the binary form of a value. -/
inductive WireFault where
  | endOfBytes
  | textTooLong
  | unknownCase (found cases : Nat)
  | optionTag (found : Nat)
  | boolTag (found : Nat)
  | text (fault : Utf8Fault)
  deriving DecidableEq, Repr

namespace WireFault

def message : WireFault → String
  | endOfBytes => "io error: unexpected end of file"
  | textTooLong => "io error: "
  | unknownCase found cases =>
    "invalid value: integer \x60" ++ toString found ++
      "\x60, expected variant index 0 <= i < " ++ toString cases
  | optionTag found => s!"tag for enum is not valid, found {found}"
  | boolTag found => s!"invalid u8 while decoding bool, expected 0 or 1, found {found}"
  | text fault => s!"string is not valid utf8: {fault.message}"

end WireFault

abbrev Reader := StateT (List UInt8) (Except WireFault)

/-- The `width` lowest bytes of a number, the least one first. -/
def word : Nat → Nat → List UInt8
  | 0, _ => []
  | width + 1, n => UInt8.ofNat (n % 256) :: word width (n / 256)

def readWord : Nat → Reader Nat
  | 0, bytes => .ok (0, bytes)
  | _ + 1, [] => .error .endOfBytes
  | width + 1, b :: rest =>
    match readWord width rest with
    | .error fault => .error fault
    | .ok (n, rest) => .ok (b.toNat + 256 * n, rest)

/-- The number of values that words of a width have. -/
def bound (width : Nat) : Nat := Nat.pow 256 width

/-- A signed number in two's complement. -/
def signed (width : Nat) (n : Int) : List UInt8 := word width (n % bound width).toNat

def readSigned (width : Nat) : Reader Int := do
  let n ← readWord width
  pure (if 2 * n < bound width then n else (n : Int) - bound width)

def byte (b : UInt8) : List UInt8 := [b]

def readByte : Reader UInt8 := fun bytes =>
  match bytes with
  | [] => .error .endOfBytes
  | b :: rest => .ok (b, rest)

def length (n : Nat) : List UInt8 := word 8 n

def readLength : Reader Nat := readWord 8

def bool (b : Bool) : List UInt8 := [if b then 1 else 0]

def readBool : Reader Bool := do
  let b ← readByte
  if b = 0 then pure false
  else if b = 1 then pure true
  else throw (.boolTag b.toNat)

def string (s : String) : List UInt8 :=
  let bytes := Utf8.encode s
  length bytes.length ++ bytes

/-- Takes exactly `n` bytes of a text. -/
def takeText (n : Nat) : Reader (List UInt8) := fun bytes =>
  if bytes.length < n then .error .textTooLong else .ok (bytes.take n, bytes.drop n)

def readString : Reader String := do
  let n ← readLength
  let bytes ← takeText n
  match Utf8.decode bytes with
  | .ok s => pure s
  | .error fault => throw (.text fault)

def option {α : Type} (write : α → List UInt8) : Option α → List UInt8
  | none => [0]
  | some a => 1 :: write a

def readOption {α : Type} (read : Reader α) : Reader (Option α) := do
  let b ← readByte
  if b = 0 then pure none
  else if b = 1 then some <$> read
  else throw (.optionTag b.toNat)

def items {α : Type} (write : α → List UInt8) (as : List α) : List UInt8 := as.flatMap write

def readItems {α : Type} (read : Reader α) : Nat → Reader (List α)
  | 0 => pure []
  | n + 1 => do
    let a ← read
    let as ← readItems read n
    pure (a :: as)

def list {α : Type} (write : α → List UInt8) (as : List α) : List UInt8 :=
  length as.length ++ items write as

def readList {α : Type} (read : Reader α) : Reader (List α) := do
  let n ← readLength
  readItems read n

def pair {α β : Type} (writeA : α → List UInt8) (writeB : β → List UInt8) (p : α × β) :
    List UInt8 :=
  writeA p.1 ++ writeB p.2

def readPair {α β : Type} (readA : Reader α) (readB : Reader β) : Reader (α × β) := do
  let a ← readA
  let b ← readB
  pure (a, b)

/-- The entries of a map in the order of its keys. -/
def map {κ α : Type} [Ord κ] [Std.TransOrd κ] (writeKey : κ → List UInt8)
    (write : α → List UInt8) (m : Std.ExtTreeMap κ α) : List UInt8 :=
  list (pair writeKey write) m.toList

/-- Reads entries in any order; of two entries of one key the later one counts. -/
def readMap {κ α : Type} [Ord κ] [Std.TransOrd κ] (readKey : Reader κ) (read : Reader α) :
    Reader (Std.ExtTreeMap κ α) := do
  let entries ← readList (readPair readKey read)
  pure (entries.foldl (fun m e => m.insert e.1 e.2) ∅)

/-- The number of a case in the order of declaration. -/
def case (n : Nat) : List UInt8 := word 4 n

def readCase (cases : Nat) : Reader Nat := do
  let n ← readWord 4
  if n < cases then pure n else throw (.unknownCase n cases)

end QuorumCommit.Wire
