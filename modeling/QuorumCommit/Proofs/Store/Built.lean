import QuorumCommit.Proofs.Store.Commands
import QuorumCommit.Proofs.Store.Reservation

/-!
Stores as they come about: every operation keeps the places of a store in order.
-/
namespace QuorumCommit.Store

/-- The stores that the operations build. New records are committed to places that were reserved for
them, as every prepared change set does as long as no cluster has come to its last place. -/
inductive Built : Store → Prop where
  | empty (limit : Option Nat) : Built (.empty limit)
  | defineIndex {s : Store} (name : String) (kind : IndexKind) :
      Built s → Built (s.defineIndex name kind)
  | insertRecord {s : Store} (id : RecordId) (version : Nat) (content : List UInt8) :
      Built s → Built (s.insertRecord id version content)
  | setIndexValue {s : Store} (key : IndexKey) (id : RecordId) :
      Built s → Built (s.setIndexValue key id)
  | failNext {s : Store} (count : Nat) : Built s → Built { s with failing := count }
  | execute {s : Store} (command : String) (mode : RunMode) :
      Built s → Built (s.execute command mode).2
  | note {s : Store} (a : Applied) : Built s → Built (s.note a)
  | preallocate {s : Store} (t : ChangeSet) : Built s → Built (s.preallocate t).2
  | release {s : Store} (ids : List RecordId) : Built s → Built (s.releaseAll ids)
  | commit {s : Store} (t : ChangeSet) (a : Applied) :
      (s.HasRoom → ∀ id ∈ t.createdRecords, s.isTaken id = true) → Built s → Built (s.commit t a).2

theorem Built.tidy {s : Store} (h : s.Built) : s.Tidy := by
  induction h with
  | empty limit => exact .empty limit
  | defineIndex name kind _ ih => exact ih.congr rfl fun _ => rfl
  | insertRecord id version content _ ih => exact ih.insertRecord id version content
  | setIndexValue key id _ ih => exact ih.congr rfl fun _ => rfl
  | failNext count _ ih => exact ih.congr rfl fun _ => rfl
  | @execute s command mode _ ih =>
    obtain ⟨places, records⟩ := s.execute_frame command mode
    exact ih.congr places fun id => congrArg (·.contains id) records
  | note a _ ih => exact ih.congr rfl fun _ => rfl
  | @preallocate s t _ ih =>
    have spec := preallocate_spec ih t
    rcases eq : s.preallocate t with ⟨fault | ⟨reserved, t'⟩, s'⟩
    · rw [eq] at spec
      exact spec.tidy
    · rw [eq] at spec
      exact spec.1.tidy
  | release ids _ ih => exact ih.releaseAll ids
  | commit t a taken _ ih => exact (commit_settles ih taken a).tidy

end QuorumCommit.Store
