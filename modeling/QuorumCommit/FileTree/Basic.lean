import QuorumCommit.FileTree.Path
import QuorumCommit.Order

/-!
A tree of files and folders. Folders are known by numbers, and the tree says what each name in a
folder stands for. A path that is too long is refused before anything is looked up; otherwise its
names are followed one by one, and the first that leads nowhere decides the refusal.
-/
namespace QuorumCommit

/-- Reasons for which the system refuses a step on files. -/
inductive OsError where
  | notFound
  | busy
  | present
  | notFolder
  | isFolder
  | nameTooLong
  deriving DecidableEq, Repr

namespace OsError

def code : OsError → Nat
  | notFound => 2
  | busy => 16
  | present => 17
  | notFolder => 20
  | isFolder => 21
  | nameTooLong => 36

def text : OsError → String
  | notFound => "No such file or directory"
  | busy => "Device or resource busy"
  | present => "File exists"
  | notFolder => "Not a directory"
  | isFolder => "Is a directory"
  | nameTooLong => "File name too long"

end OsError

inductive FileFault where
  | os (error : OsError)
  | zeroInPath
  | noParent (path : String)
  deriving DecidableEq, Repr

namespace FileFault

def message : FileFault → String
  | os error => s!"IO error: {error.text} (os error {error.code})"
  | zeroInPath => "IO error: file name contained an unexpected NUL byte"
  | noParent path => s!"Path has no parent directory: {path}"

end FileFault

/-- A name in a folder. -/
structure Entry where
  folder : Nat
  name : String
  deriving DecidableEq, Repr

namespace Entry

instance : Ord Entry := ⟨compareLex (compareOn folder) (compareOn name)⟩

instance : Std.TransOrd Entry :=
  inferInstanceAs (Std.TransCmp (compareLex (compareOn folder) (compareOn name)))

instance : Std.LawfulEqOrd Entry :=
  lawfulEqCmp_of_fields folder name fun a b h₁ h₂ => by cases a; cases b; simp_all

end Entry

inductive FileItem where
  | folder (number : Nat)
  | file (bytes : List UInt8)
  deriving DecidableEq, Repr

/-- A folder and the folders around it, from the inside out. -/
structure Trail where
  inner : Nat
  outer : List Nat
  deriving DecidableEq, Repr

namespace Trail

def root : Trail := ⟨0, []⟩

/-- The working folder lies in another folder below the root. -/
def working : Trail := ⟨2, [1, 0]⟩

/-- The folder around this one. The root lies in itself. -/
def up (trail : Trail) : Trail :=
  match trail.outer with
  | [] => trail
  | next :: rest => ⟨next, rest⟩

def into (trail : Trail) (number : Nat) : Trail := ⟨number, trail.inner :: trail.outer⟩

end Trail

/-- What each name in a folder stands for. `nextFolder` is the number of the next new folder, and
`serial` tells temporary files apart. -/
structure FileTree where
  items : Std.ExtTreeMap Entry FileItem
  nextFolder : Nat
  serial : Nat
  deriving DecidableEq

namespace FileTree

/-- What a name or a path leads to. -/
inductive Found where
  | folder (trail : Trail)
  | file (bytes : List UInt8)
  | missing
  deriving DecidableEq, Repr

def empty : FileTree := ⟨∅, 3, 0⟩

instance : Inhabited FileTree := ⟨empty⟩

def longestName : Nat := 255

def longestPath : Nat := 4095

/-- What is wrong with a path whatever the tree holds. -/
def refusal? (p : Path) : Option FileFault :=
  if p.hasZero then some .zeroInPath
  else if longestPath < p.length then some (.os .nameTooLong)
  else none

def start (p : Path) : Trail := if p.rooted then .root else .working

/-- What a name in a folder leads to. -/
def step (t : FileTree) (trail : Trail) (name : String) : Except OsError Found :=
  if name = "." then .ok (.folder trail)
  else if name = ".." then .ok (.folder trail.up)
  else if longestName < name.utf8ByteSize then .error .nameTooLong
  else
    match t.items[(⟨trail.inner, name⟩ : Entry)]? with
    | none => .ok .missing
    | some (.folder number) => .ok (.folder (trail.into number))
    | some (.file bytes) => .ok (.file bytes)

/-- Enters the folder of that name. -/
def enter (t : FileTree) (trail : Trail) (name : String) : Except OsError Trail :=
  match t.step trail name with
  | .error e => .error e
  | .ok .missing => .error .notFound
  | .ok (.file _) => .error .notFolder
  | .ok (.folder inner) => .ok inner

/-- Follows names from folder to folder. -/
def walk (t : FileTree) (trail : Trail) (names : List String) : Except OsError Trail :=
  names.foldlM t.enter trail

/-- What a path leads to. A path that ends in a slash has to lead to a folder. -/
def find (t : FileTree) (p : Path) : Except OsError Found := do
  let names := if p.endsInSlash then p.names ++ ["."] else p.names
  let folder ← t.walk (start p) names.dropLast
  t.step folder (names.getLastD ".")

/-- The content of a file, or nothing if there is no such file. -/
def read (t : FileTree) (path : String) : Except FileFault (Option (List UInt8)) :=
  let p := Path.ofString path
  match refusal? p with
  | some fault => .error fault
  | none =>
    if p.isEmpty then .ok none
    else
      match t.find p with
      | .ok (.file bytes) => .ok (some bytes)
      | .ok (.folder _) => .error (.os .isFolder)
      | .ok .missing | .error .notFound => .ok none
      | .error e => .error (.os e)

end FileTree

end QuorumCommit
