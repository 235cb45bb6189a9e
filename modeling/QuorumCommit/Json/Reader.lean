import QuorumCommit.Json.Basic
import QuorumCommit.Text.Hex

/-!
Reading JSON text. Of two members of one name in an object the later one counts. The readers of
nested values are bounded by the number of characters, which no nesting can outgrow.
-/
namespace QuorumCommit.Json

def isSpace (c : Char) : Bool := c = ' ' || c = '\n' || c = '\r' || c = '\t'

def skipSpace (cs : List Char) : List Char := cs.dropWhile isSpace

/-- Reads the four hexadecimal digits of an escape. -/
def unit16? : List Char → Option (Nat × List Char)
  | a :: b :: c :: d :: rest => do
    let a ← Text.Hex.value? a
    let b ← Text.Hex.value? b
    let c ← Text.Hex.value? c
    let d ← Text.Hex.value? d
    some (a * 4096 + b * 256 + c * 16 + d, rest)
  | _ => none

/-- Reads the code point of an escape; a pair of surrogates stands for one character. -/
def escaped? (cs : List Char) : Option (Char × List Char) := do
  let (u, rest) ← unit16? cs
  if 0xD800 ≤ u ∧ u < 0xDC00 then
    match rest with
    | '\\' :: 'u' :: rest => do
      let (v, rest) ← unit16? rest
      if 0xDC00 ≤ v ∧ v < 0xE000 then
        some (Char.ofNat (0x10000 + (u - 0xD800) * 1024 + (v - 0xDC00)), rest)
      else none
    | _ => none
  else if 0xDC00 ≤ u ∧ u < 0xE000 then none
  else some (Char.ofNat u, rest)

def simpleEscape? : Char → Option Char
  | '"' => some '"'
  | '\\' => some '\\'
  | '/' => some '/'
  | 'b' => some '\x08'
  | 'f' => some '\x0c'
  | 'n' => some '\n'
  | 'r' => some '\r'
  | 't' => some '\t'
  | _ => none

/-- Reads up to the closing quote; `acc` holds the characters read, last first. -/
def readString : Nat → List Char → List Char → Option (String × List Char)
  | 0, _, _ => none
  | fuel + 1, acc, cs =>
    match cs with
    | [] => none
    | '"' :: rest => some (String.ofList acc.reverse, rest)
    | '\\' :: 'u' :: rest => do
      let (c, rest) ← escaped? rest
      readString fuel (c :: acc) rest
    | '\\' :: e :: rest => do
      let c ← simpleEscape? e
      readString fuel (c :: acc) rest
    | c :: rest => if c.toNat < 0x20 ∨ c = '\\' then none else readString fuel (c :: acc) rest

def isDigit (c : Char) : Bool := '0' ≤ c && c ≤ '9'

def takeDigits (cs : List Char) : List Char × List Char :=
  (cs.takeWhile isDigit, cs.dropWhile isDigit)

def digitsValue (ds : List Char) : Nat :=
  ds.foldl (fun acc c => acc * 10 + (c.toNat - '0'.toNat)) 0

/-- An integer is written with at least one digit and no leading zero. -/
def wellWritten : List Char → Bool
  | [] => false
  | [_] => true
  | c :: _ => c ≠ '0'

/-- Reads the part behind the point, with the point. -/
def readPlaces : List Char → Option (List Char × List Char)
  | '.' :: rest =>
    let (ds, rest) := takeDigits rest
    if ds.isEmpty then none else some ('.' :: ds, rest)
  | cs => some ([], cs)

/-- Reads the exponent, with its letter. -/
def readExponent : List Char → Option (List Char × List Char)
  | e :: rest =>
    if e = 'e' ∨ e = 'E' then
      let (sign, rest) := match rest with
        | '+' :: r => (['+'], r)
        | '-' :: r => (['-'], r)
        | r => ([], r)
      let (ds, rest) := takeDigits rest
      if ds.isEmpty then none else some (e :: sign ++ ds, rest)
    else some ([], e :: rest)
  | [] => some ([], [])

def minInt : Int := -9223372036854775808

def maxInt : Int := 18446744073709551615

/-- The value of a number in integer notation. A negative zero is no integer. -/
def ofInteger (negative : Bool) (digits : List Char) : Json :=
  let n : Int := digitsValue digits
  let v := if negative then -n else n
  let text := String.ofList (if negative then '-' :: digits else digits)
  if negative ∧ n = 0 then real text
  else if minInt ≤ v ∧ v ≤ maxInt then int v
  else real text

def readNumber (cs : List Char) : Option (Json × List Char) := do
  let (negative, body) := match cs with
    | '-' :: rest => (true, rest)
    | _ => (false, cs)
  let (ds, rest) := takeDigits body
  if wellWritten ds then
    let (places, rest) ← readPlaces rest
    let (exponent, rest) ← readExponent rest
    if places.isEmpty ∧ exponent.isEmpty then some (ofInteger negative ds, rest)
    else
      let sign := if negative then ['-'] else []
      some (real (String.ofList (sign ++ ds ++ places ++ exponent)), rest)
  else none

mutual

def readValue : Nat → List Char → Option (Json × List Char)
  | 0, _ => none
  | fuel + 1, cs =>
    match skipSpace cs with
    | 'n' :: 'u' :: 'l' :: 'l' :: rest => some (null, rest)
    | 't' :: 'r' :: 'u' :: 'e' :: rest => some (bool true, rest)
    | 'f' :: 'a' :: 'l' :: 's' :: 'e' :: rest => some (bool false, rest)
    | '"' :: rest => do
      let (s, rest) ← readString (rest.length + 1) [] rest
      some (str s, rest)
    | '[' :: rest =>
      match skipSpace rest with
      | ']' :: rest => some (arr [], rest)
      | rest => do
        let (items, rest) ← readItems fuel rest
        some (arr items, rest)
    | '\x7b' :: rest =>
      match skipSpace rest with
      | '\x7d' :: rest => some (obj [], rest)
      | rest => do
        let (members, rest) ← readMembers fuel [] rest
        some (obj members, rest)
    | rest => readNumber rest

/-- Reads the items of an array up to its closing bracket. -/
def readItems : Nat → List Char → Option (List Json × List Char)
  | 0, _ => none
  | fuel + 1, cs => do
    let (item, rest) ← readValue fuel cs
    match skipSpace rest with
    | ',' :: rest => do
      let (items, rest) ← readItems fuel rest
      some (item :: items, rest)
    | ']' :: rest => some ([item], rest)
    | _ => none

/-- Reads the members of an object up to its closing brace. -/
def readMembers : Nat → List (String × Json) → List Char →
    Option (List (String × Json) × List Char)
  | 0, _, _ => none
  | fuel + 1, members, cs =>
    match skipSpace cs with
    | '"' :: rest => do
      let (name, rest) ← readString (rest.length + 1) [] rest
      match skipSpace rest with
      | ':' :: rest => do
        let (value, rest) ← readValue fuel rest
        match skipSpace rest with
        | ',' :: rest => readMembers fuel (putMember name value members) rest
        | '\x7d' :: rest => some (putMember name value members, rest)
        | _ => none
      | _ => none
    | _ => none

end

def parse? (s : String) : Option Json :=
  let cs := s.toList
  match readValue (2 * cs.length + 2) cs with
  | some (j, rest) => if (skipSpace rest).isEmpty then some j else none
  | none => none

end QuorumCommit.Json
