/-!
Outlines of values: a name followed by named fields in braces, or a list in brackets or braces.
-/
namespace QuorumCommit.Text.Outline

def field (f : String × String) : String := f.1 ++ ": " ++ f.2

def fields (fs : List (String × String)) : String := ", ".intercalate (fs.map field)

/-- A value shown with all of its fields. -/
def whole (name : String) (fs : List (String × String)) : String :=
  name ++ " \x7b " ++ fields fs ++ " \x7d"

/-- A value shown with some of its fields; the dots stand for the others. -/
def partly (name : String) (fs : List (String × String)) : String :=
  name ++ " \x7b " ++ fields fs ++ ", .. \x7d"

def list (items : List String) : String := "[" ++ ", ".intercalate items ++ "]"

def set (items : List String) : String := "\x7b" ++ ", ".intercalate items ++ "\x7d"

def option : Option String → String
  | none => "None"
  | some text => "Some(" ++ text ++ ")"

end QuorumCommit.Text.Outline
