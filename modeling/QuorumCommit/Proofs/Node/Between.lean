import QuorumCommit.Proofs.Node.Issue
import QuorumCommit.Proofs.Store.Commands

/-!
A command between its two ids, as a change of what can be seen of a node: the first id is committed,
the body runs, and if it did not fail the second id is committed. What is private to the issuer of
ids has no part in it.
-/
namespace QuorumCommit

def TxId.next (id : TxId) : TxId := ⟨id.origin, id.sequence + 1⟩

namespace View

def store (v : View) : Store := { v.content with failing := v.failing }

def withStore (v : View) (s : Store) : View := { v with content := s.content, failing := s.failing }

def mark (v : View) (id : TxId) : View := v.advance id (v.content.note ⟨id, v.nextOffset⟩)

/-- The view after a command is run between two ids: the first id, the body, and if that did not
fail the second id. -/
def between (v : View) (command : String) (more : Nat) (before : TxId) : View :=
  match Store.runBody command more (v.mark before).store with
  | (.ok _, s) => ((v.mark before).withStore s).mark before.next
  | (.error _, s) => (v.mark before).withStore s

def bodyFails (v : View) (command : String) (more : Nat) (before : TxId) : Bool :=
  match Store.runBody command more (v.mark before).store with
  | (.ok _, _) => false
  | (.error _, _) => true

theorem slots_mark (v : View) (id : TxId) : ((v.mark id).slots id.origin).last = id.sequence := by
  simp only [mark, advance, ↓reduceIte, Slot.commit]

theorem mark_isNext (v : View) (id : TxId) : (v.mark id).IsNext id.next :=
  (congrArg (· + 1) (v.slots_mark id)).symm

theorem slots_mark_other (v : View) (id : TxId) {o : Nat} (other : o ≠ id.origin) :
    (v.mark id).slots o = v.slots o := by
  simp only [mark, advance, other, ↓reduceIte]

/-- The last committed id of the origin after a command. -/
theorem last_between (v : View) (command : String) (more : Nat) (before : TxId) :
    ((v.between command more before).slots before.origin).last =
      if v.bodyFails command more before then before.sequence else before.sequence + 1 := by
  unfold between bodyFails
  rcases Store.runBody command more (v.mark before).store with ⟨fault | _, s⟩
  · exact v.slots_mark before
  · exact ((v.mark before).withStore s).slots_mark before.next

theorem slots_between_other (v : View) (command : String) (more : Nat) (before : TxId) {o : Nat}
    (other : o ≠ before.origin) : (v.between command more before).slots o = v.slots o := by
  unfold between
  rcases Store.runBody command more (v.mark before).store with ⟨fault | _, s⟩
  · exact v.slots_mark_other before other
  · exact (slots_mark_other _ before.next other).trans (v.slots_mark_other before other)

theorem shared_mark {v v' : View} (h : v'.shared = v.shared) (id : TxId) :
    (v'.mark id).shared = (v.mark id).shared := by
  have content : v'.content = v.content := (congrArg View.content h :)
  have offset : v'.nextOffset = v.nextOffset := (congrArg View.nextOffset h :)
  refine shared_advance h id ?_
  rw [content, offset]

/-- What a command does is a matter of what all can tell. -/
theorem shared_between {v v' : View} (h : v'.shared = v.shared) (command : String) (more : Nat)
    (before : TxId) :
    (v'.between command more before).shared = (v.between command more before).shared ∧
      v'.bodyFails command more before = v.bodyFails command more before := by
  have marked := shared_mark h before
  have store : (v'.mark before).store = (v.mark before).store := (congrArg View.store marked :)
  unfold between bodyFails
  rw [store]
  rcases Store.runBody command more (v.mark before).store with ⟨fault | _, s⟩
  · exact ⟨congrArg (·.withStore s) marked, rfl⟩
  · exact ⟨shared_mark (congrArg (·.withStore s) marked) before.next, rfl⟩

theorem Calm.between {v : View} {out : Nat} (h : v.Calm out) (command : String) (more : Nat)
    {before : TxId} (next : v.IsNext before) :
    (v.between command more before).Calm
      (if before.origin = v.origin then
        (if v.bodyFails command more before then out - 1 else out - 2) else out) := by
  have first := h.advance next (v.content.note ⟨before, v.nextOffset⟩)
  unfold View.between bodyFails
  rcases Store.runBody command more (v.mark before).store with ⟨fault | _, s⟩
  · have calm : ((v.mark before).withStore s).Calm (v.outAfter before out) :=
      ⟨first.locks, first.promised, first.own, first.path, first.depth⟩
    exact calm
  · have calm : ((v.mark before).withStore s).Calm (v.outAfter before out) :=
      ⟨first.locks, first.promised, first.own, first.path, first.depth⟩
    have second := calm.advance (v.mark_isNext before :)
      (((v.mark before).withStore s).content.note
        ⟨before.next, ((v.mark before).withStore s).nextOffset⟩)
    have used : ((v.mark before).withStore s).outAfter before.next (v.outAfter before out) =
        if before.origin = v.origin then out - 2 else out := by
      unfold outAfter
      have origin : ((v.mark before).withStore s).origin = v.origin := rfl
      have same : before.next.origin = before.origin := rfl
      rw [origin, same]
      split <;> omega
    rw [used] at second
    exact second

end View

namespace Resources

theorem view_store (r : Resources) : r.view.store = r.store.displaced := rfl

theorem view_mark (r : Resources) (id : TxId) (s : Store)
    (content : s.content = r.store.content) (failing : s.failing = r.store.failing) :
    (r.advance id (s.note ⟨id, r.sequencer.nextOffset⟩)).view = r.view.mark id := by
  rw [r.view_advance id (s.note ⟨id, r.sequencer.nextOffset⟩) failing]
  have noted : (s.note ⟨id, r.sequencer.nextOffset⟩).content =
      s.content.note ⟨id, r.sequencer.nextOffset⟩ := rfl
  rw [noted, content]
  rfl

end Resources

end QuorumCommit
