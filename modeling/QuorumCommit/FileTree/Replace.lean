import QuorumCommit.FileTree.Basic

/-!
`replace` swaps the whole content of a file: the new content goes to a temporary file beside it,
which then takes the name of the file. What a failing step did before it failed stays in the
tree, so a path that is just too long to move to leaves its temporary file behind.
-/
namespace QuorumCommit.FileTree

abbrev Run := ExceptT FileFault (StateM FileTree)

def put (t : FileTree) (folder : Nat) (name : String) (item : FileItem) : FileTree :=
  { t with items := t.items.insert ⟨folder, name⟩ item }

/-- Follows names and makes the folders that are missing. A file stands in the way of a folder of
its name at the last name, and at every name after one that was missing; elsewhere it is just no
folder. -/
def makeFolders (t : FileTree) (trail : Trail) (made : Bool) :
    List String → Except OsError Unit × FileTree
  | [] => (.ok (), t)
  | name :: rest =>
    match t.step trail name with
    | .error e => (.error e, t)
    | .ok (.folder inner) => t.makeFolders inner made rest
    | .ok (.file _) => (.error (if made || rest.isEmpty then .present else .notFolder), t)
    | .ok .missing =>
      let number := t.nextFolder
      let t := { t.put trail.inner name (.folder number) with nextFolder := number + 1 }
      t.makeFolders (trail.into number) true rest

/-- Makes the folders of a path that are missing. -/
def ensureFolders (p : Path) : Run Unit := fun t =>
  if p.isEmpty then (.ok (), t)
  else
    match refusal? p with
    | some fault => (.error fault, t)
    | none =>
      match t.makeFolders (start p) false p.names with
      | (.ok _, t) => (.ok (), t)
      | (.error e, t) => (.error (.os e), t)

/-- A name for a temporary file. The serial number fills 36 places, so the temporary files of one
file differ in name but not in length. -/
def temporaryName (name : String) (serial : Nat) : String :=
  let digits := toString serial
  "." ++ name ++ ".tmp." ++ String.ofList (List.replicate (36 - digits.length) '0') ++ digits

/-- Writes a new temporary file into a folder and gives its place. -/
def writeTemporary (parent : Path) (name : String) (bytes : List UInt8) : Run Entry := fun t =>
  let temporary := temporaryName name t.serial
  match refusal? (parent.child temporary) with
  | some fault => (.error fault, t)
  | none =>
    match t.walk (start parent) parent.names with
    | .error e => (.error (.os e), t)
    | .ok folder =>
      match t.step folder temporary with
      | .error e => (.error (.os e), t)
      | .ok _ =>
        (.ok ⟨folder.inner, temporary⟩,
          { t.put folder.inner temporary (.file bytes) with serial := t.serial + 1 })

/-- The place that a file takes when it is moved to a path. -/
def target (t : FileTree) (p : Path) : Except OsError Entry := do
  let folder ← t.walk (start p) p.names.dropLast
  let name := p.names.getLastD "."
  let found ← t.step folder name
  if name = "." ∨ name = ".." then throw .busy
  else if p.endsInSlash then throw .notFolder
  else
    match found with
    | .folder _ => throw .isFolder
    | _ => pure ⟨folder.inner, name⟩

/-- Moves a file to a path. A file that is there already gives way. -/
def move (source : Entry) (p : Path) : Run Unit := fun t =>
  match refusal? p with
  | some fault => (.error fault, t)
  | none =>
    match t.target p with
    | .error e => (.error (.os e), t)
    | .ok place =>
      match t.items[source]? with
      | none => (.error (.os .notFound), t)
      | some item => (.ok (), { t with items := (t.items.erase source).insert place item })

/-- Replaces the content of a file. A path without a folder part is replaced too, but then the
folder cannot be opened under its empty name. -/
def replace (path : String) (bytes : List UInt8) : Run Unit := do
  let p := Path.ofString path
  match p.parent? with
  | none => throw (.noParent path)
  | some parent => do
    ensureFolders parent
    let place ← writeTemporary parent p.fileName bytes
    move place p
    if parent.isEmpty then throw (.os .notFound)

/-- The name of a temporary file without the part that changes from file to file. -/
def shownName (name : String) : String :=
  match name.splitOn ".tmp." with
  | [_] => name
  | first :: _ => first ++ ".tmp.*"
  | [] => name

/-- Texts of the folders met so far, and of all that they hold. A folder has a greater number
than the folder around it, so its text is known before its entries are met. -/
structure Shown where
  folders : Std.ExtTreeMap Nat String
  texts : List String

namespace Shown

def add (s : Shown) (entry : Entry) (item : FileItem) : Shown :=
  match s.folders[entry.folder]? with
  | none => s
  | some before =>
    let text := before ++ shownName entry.name
    match item with
    | .file _ => ⟨s.folders, text :: s.texts⟩
    | .folder number => ⟨s.folders.insert number (text ++ "/"), (text ++ "/") :: s.texts⟩

end Shown

/-- All that lies below the working folder as text, in order. Folders end in a slash. -/
def listing (t : FileTree) : List String :=
  let shown := t.items.toList.foldl (fun s (entry, item) => s.add entry item)
    (⟨(∅ : Std.ExtTreeMap Nat String).insert Trail.working.inner "", []⟩ : Shown)
  shown.texts.mergeSort

end QuorumCommit.FileTree
