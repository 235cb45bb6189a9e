/-!
JSON values. A number written as an integer that fits a signed or unsigned word is an integer;
every other number is kept as it was written, and is never taken for an integer.
-/
namespace QuorumCommit

inductive Json where
  | null
  | bool (b : Bool)
  | int (n : Int)
  | real (text : String)
  | str (s : String)
  | arr (items : List Json)
  | obj (members : List (String × Json))

namespace Json

/-- Adds a member behind the others; a member of the same name is replaced. -/
def putMember (name : String) (value : Json) (members : List (String × Json)) :
    List (String × Json) :=
  members.filter (·.1 ≠ name) ++ [(name, value)]

def member? (name : String) : List (String × Json) → Option Json
  | [] => none
  | (n, v) :: rest => if n = name then some v else member? name rest

def get? (name : String) : Json → Option Json
  | obj members => member? name members
  | _ => none

def nat (n : Nat) : Json := int n

def option {α : Type} (f : α → Json) : Option α → Json
  | none => null
  | some a => f a

def list {α : Type} (f : α → Json) (xs : List α) : Json := arr (xs.map f)

end Json

end QuorumCommit
