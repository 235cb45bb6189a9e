import QuorumCommit.Json.Basic
import Std.Data.ExtTreeMap

/-!
JSON forms of typed values. A record is an object with its field names, or an array of its
fields in order; a case without content is its name, or an object that gives its name the value
null; a case with content is an object of one member.
-/
namespace QuorumCommit

/-- A type whose values have a JSON form. Reading refuses every other value. -/
class JsonForm (α : Type) where
  toJson : α → Json
  ofJson? : Json → Option α

export JsonForm (toJson ofJson?)

namespace Json

/-- An integer of the value range from `low` on and below `high`. -/
def intIn? (low high : Int) : Json → Option Int
  | int n => if low ≤ n ∧ n < high then some n else none
  | _ => none

def natBelow? (bound : Nat) (j : Json) : Option Nat := (intIn? 0 bound j).map Int.toNat

def word8? (j : Json) : Option UInt8 := (natBelow? 256 j).map UInt8.ofNat

def word32? : Json → Option Nat := natBelow? 4294967296

def word64? : Json → Option Nat := natBelow? 18446744073709551616

def int32? : Json → Option Int := intIn? (-2147483648) 2147483648

def int64? : Json → Option Int := intIn? (-9223372036854775808) 9223372036854775808

def bool? : Json → Option Bool
  | bool b => some b
  | _ => none

def str? : Json → Option String
  | str s => some s
  | _ => none

def arr? : Json → Option (List Json)
  | arr items => some items
  | _ => none

def obj? : Json → Option (List (String × Json))
  | obj members => some members
  | _ => none

def option? {α : Type} (f : Json → Option α) : Json → Option (Option α)
  | null => some none
  | j => (f j).map some

def list? {α : Type} (f : Json → Option α) (j : Json) : Option (List α) := do
  (← arr? j).mapM f

/-- The fields of a record as they were found, by name or by place. -/
inductive Fields where
  | named (members : List (String × Json))
  | placed (items : List (String × Json))

/-- The fields of a record that declares `names`. More items than names are refused. -/
def fields? (names : List String) : Json → Option Fields
  | obj members => some (.named members)
  | arr items => if items.length ≤ names.length then some (.placed (names.zip items)) else none
  | _ => none

namespace Fields

def find? : Fields → String → Option Json
  | named members, name => member? name members
  | placed items, name => member? name items

/-- A field that has to be there. -/
def required {α : Type} (f : Json → Option α) (fs : Fields) (name : String) : Option α := do
  f (← fs.find? name)

/-- A field that may be null, and absent where fields have names. -/
def optional {α : Type} (f : Json → Option α) (fs : Fields) (name : String) :
    Option (Option α) :=
  match fs.find? name, fs with
  | some j, _ => option? f j
  | none, named _ => some none
  | none, placed _ => none

/-- A field that stands for `value` where it is absent. -/
def defaulted {α : Type} (f : Json → Option α) (value : α) (fs : Fields) (name : String) :
    Option α :=
  match fs.find? name with
  | some j => f j
  | none => some value

end Fields

/-- The name of a case without content. -/
def caseName? : Json → Option String
  | str name => some name
  | obj [(name, null)] => some name
  | _ => none

/-- Reads a case without content among those of a table. -/
def case? {α : Type} (table : List (String × α)) (j : Json) : Option α := do
  table.lookup (← caseName? j)

/-- The name and content of a case with content. -/
def variant? : Json → Option (String × Json)
  | obj [member] => some member
  | _ => none

def tagged (name : String) (content : Json) : Json := obj [(name, content)]

abbrev StringMap (α : Type) := Std.ExtTreeMap String α

def map {α : Type} (f : α → Json) (m : StringMap α) : Json :=
  obj (m.toList.map fun (k, v) => (k, f v))

def map? {α : Type} (f : Json → Option α) (j : Json) : Option (StringMap α) := do
  let entries ← (← obj? j).mapM fun (k, v) => do some (k, ← f v)
  some (Std.ExtTreeMap.ofList entries)

end Json

end QuorumCommit
