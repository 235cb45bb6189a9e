import QuorumCommit.FileTree.Replace
import QuorumCommit.Sequencer.Snapshot

/-!
A sequencer that writes its snapshot to a file after every commit, if it has been given a file.
A commit is made before it is written, and stays made if the write fails.
-/
namespace QuorumCommit

structure Journal where
  sequencer : Sequencer
  path : Option String
  deriving DecidableEq

namespace Journal

def inMemory (origin depth : Nat) : Journal := ⟨Sequencer.new origin depth, none⟩

def faultOf (fault : FileFault) : Fault := .storage fault.message

/-- Starts from the snapshot in the file, or afresh if there is no file. -/
def openAt (origin depth : Nat) (path : String) (disk : FileTree) : Except Fault Journal :=
  match disk.read path with
  | .error fault => .error (faultOf fault)
  | .ok none => .ok ⟨Sequencer.new origin depth, some path⟩
  | .ok (some bytes) =>
    match Snapshot.ofBytes bytes with
    | .error fault => .error fault
    | .ok snapshot => .ok ⟨Sequencer.ofSnapshot origin depth snapshot, some path⟩

/-- Writes the snapshot to the file, if there is one. -/
def save (j : Journal) (disk : FileTree) : Except Fault Unit × FileTree :=
  match j.path with
  | none => (.ok (), disk)
  | some path =>
    match (FileTree.replace path j.sequencer.snapshot.toBytes).run disk with
    | (.ok _, disk) => (.ok (), disk)
    | (.error fault, disk) => (.error (faultOf fault), disk)

/-- Commits an id and saves; gives the offset of the commit. -/
def commit (j : Journal) (disk : FileTree) (id : TxId) :
    Except Fault Nat × Journal × FileTree :=
  match j.sequencer.commit id with
  | .error fault => (.error fault, j, disk)
  | .ok (offset, sequencer) =>
    let j := { j with sequencer := sequencer }
    match j.save disk with
    | (.ok _, disk) => (.ok offset, j, disk)
    | (.error fault, disk) => (.error fault, j, disk)

end Journal

end QuorumCommit
