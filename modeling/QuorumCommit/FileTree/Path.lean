/-!
Paths: the names between the slashes of a text. Each name remembers where it ends, so that the
length of the folder part of a path is known without writing that part out.
-/
namespace QuorumCommit

namespace Path

/-- A name in a path, and the bytes that the path takes up to its end. -/
structure Part where
  name : String
  stop : Nat
  deriving DecidableEq, Repr

end Path

/-- A path that begins with a slash starts at the root, any other at the working folder. -/
structure Path where
  rooted : Bool
  parts : List Path.Part
  endsInSlash : Bool
  length : Nat
  deriving DecidableEq, Repr

namespace Path

/-- The names among pieces of a path that begin after `start` bytes. Empty pieces name nothing. -/
def partsFrom (start : Nat) : List String → List Part
  | [] => []
  | piece :: rest =>
    let stop := start + piece.utf8ByteSize
    if piece.isEmpty then partsFrom (stop + 1) rest
    else ⟨piece, stop⟩ :: partsFrom (stop + 1) rest

def ofString (s : String) : Path :=
  { rooted := s.startsWith "/"
    parts := partsFrom 0 ((s.toList.splitOn '/').map String.ofList)
    endsInSlash := s.endsWith "/"
    length := s.utf8ByteSize }

def names (p : Path) : List String := p.parts.map (·.name)

/-- The parts without those that stand for the folder they are in. The first part of a path that
starts at the working folder is kept. -/
def keptParts (p : Path) : List Part :=
  match p.parts with
  | [] => []
  | first :: rest =>
    if p.rooted then (first :: rest).filter (·.name ≠ ".")
    else first :: rest.filter (·.name ≠ ".")

/-- The folder that holds the last part. Its spelling ends with the last part it keeps. -/
def parent? (p : Path) : Option Path :=
  if p.keptParts.isEmpty then none
  else
    let parts := p.keptParts.dropLast
    let length :=
      match parts.getLast? with
      | some last => last.stop
      | none => if p.rooted then 1 else 0
    some ⟨p.rooted, parts, false, length⟩

/-- The path of the working folder in its empty spelling. -/
def isEmpty (p : Path) : Bool := ! p.rooted && p.parts.isEmpty

/-- The path of a name in the folder that a parent path leads to. -/
def child (p : Path) (name : String) : Path :=
  let start := if p.parts.isEmpty then p.length else p.length + 1
  let stop := start + name.utf8ByteSize
  ⟨p.rooted, p.parts ++ [⟨name, stop⟩], false, stop⟩

def fileName (p : Path) : String :=
  match p.keptParts.getLast? with
  | some last => if last.name = "." ∨ last.name = ".." then "state" else last.name
  | none => "state"

def hasZero (p : Path) : Bool := p.parts.any fun part => part.name.toList.contains '\x00'

end Path

end QuorumCommit
