import Mathlib.Data.List.Basic
import QuorumCommit.Proofs.Store.Built
import QuorumCommit.Proofs.Store.Footprint

/-!
Allocation of places. The places reserved for a transaction are its own until it gives them back or
is committed. Whatever happens in between, they stay taken, so no other transaction gets one of
them.
-/
namespace QuorumCommit.Store

/-- The places that were reserved for a transaction, and its changes with these places in them. -/
structure Allocation where
  places : List RecordId
  changes : ChangeSet

/-- The stores that come about from an empty one, with the allocations that are held. Any of them
may be given back or committed next. If its commit fails it is held on, and records may be stored
anywhere outside of a transaction. -/
inductive AllocationRun (limit : Option Nat) : Store → List Allocation → Prop where
  | empty : AllocationRun limit (.empty limit) []
  | grant {s s' : Store} {held : List Allocation} {t t' : ChangeSet} {places : List RecordId} :
      AllocationRun limit s held → s.preallocate t = (.ok (places, t'), s') →
      AllocationRun limit s' (⟨places, t'⟩ :: held)
  | refuse {s s' : Store} {held : List Allocation} {t : ChangeSet} {fault : Fault} :
      AllocationRun limit s held → s.preallocate t = (.error fault, s') →
      AllocationRun limit s' held
  | giveBack {s : Store} {own : Allocation} (earlier later : List Allocation) :
      AllocationRun limit s (earlier ++ own :: later) →
      AllocationRun limit (s.releaseAll own.places) (earlier ++ later)
  | commit {s s' : Store} {own : Allocation} (earlier later : List Allocation) (a : Applied) :
      AllocationRun limit s (earlier ++ own :: later) → s.commit own.changes a = (.ok (), s') →
      AllocationRun limit s' (earlier ++ later)
  | fail {s s' : Store} {own : Allocation} {fault : Fault} (earlier later : List Allocation)
      (a : Applied) :
      AllocationRun limit s (earlier ++ own :: later) →
      s.commit own.changes a = (.error fault, s') →
      AllocationRun limit s' (earlier ++ own :: later)
  | insert {s : Store} {held : List Allocation} (id : RecordId) (version : Nat)
      (content : List UInt8) :
      AllocationRun limit s held → AllocationRun limit (s.insertRecord id version content) held

variable {s s' : Store} {held earlier later : List Allocation} {own : Allocation}
  {limit : Option Nat}

/-- The places that are held are taken, each by one transaction, as long as no cluster has come to
its last place. -/
structure Honours (s : Store) (held : List Allocation) : Prop where
  built : s.Built
  taken : s.HasRoom → ∀ own ∈ held, ∀ id ∈ own.places, s.isTaken id = true
  apart : s.HasRoom → held.Pairwise fun a b => a.places.Disjoint b.places
  created : ∀ own ∈ held, ∀ id ∈ own.changes.createdRecords, id ∈ own.places

namespace Honours

theorem onward (h : s.Honours held) (built : s'.Built) (room : s'.HasRoom → s.HasRoom)
    (kept : s.HasRoom → ∀ own ∈ held, ∀ id ∈ own.places,
      s.isTaken id = true → s'.isTaken id = true) : s'.Honours held where
  built := built
  taken after own out id mem :=
    kept (room after) own out id mem (h.taken (room after) own out id mem)
  apart after := h.apart (room after)
  created := h.created

theorem rest (h : s.Honours (earlier ++ own :: later)) : s.Honours (earlier ++ later) := by
  have fewer : (earlier ++ later).Sublist (earlier ++ own :: later) :=
    List.Sublist.append_left (List.sublist_cons_self own later) earlier
  exact ⟨h.built, fun room other out => h.taken room other (fewer.subset out),
    fun room => (h.apart room).sublist fewer, fun other out => h.created other (fewer.subset out)⟩

theorem disjoint (h : s.Honours (earlier ++ own :: later)) (room : s.HasRoom) :
    ∀ other ∈ earlier ++ later, other.places.Disjoint own.places := by
  obtain ⟨-, behind, between⟩ := List.pairwise_append.1 (h.apart room)
  intro other out
  rcases List.mem_append.1 out with before | after
  · exact between other before own List.mem_cons_self
  · exact fun id mem mine => (List.pairwise_cons.1 behind).1 other after mine mem

theorem grant {t t' : ChangeSet} {places : List RecordId} (h : s.Honours held)
    (granted : s.preallocate t = (.ok (places, t'), s')) : s'.Honours (⟨places, t'⟩ :: held) := by
  have spec := preallocate_spec h.built.tidy t
  have built := h.built.preallocate t
  rw [granted] at spec built
  obtain ⟨reserves, placed⟩ := spec
  refine ⟨built, fun room => ?_, fun room => ?_, ?_⟩
  · rw [List.forall_mem_cons]
    have taken := h.taken (reserves.room room)
    exact ⟨fun id mem => (reserves.isTaken room id).2 (.inr mem),
      fun own out id mem => (reserves.isTaken room id).2 (.inl (taken own out id mem))⟩
  · have before := reserves.room room
    refine List.pairwise_cons.2 ⟨fun own out id new old => ?_, h.apart before⟩
    have taken := h.taken before own out id old
    rw [reserves.untaken room id new] at taken
    cases taken
  · rw [List.forall_mem_cons]
    exact ⟨placed.created, h.created⟩

theorem refuse {t : ChangeSet} {fault : Fault} (h : s.Honours held)
    (refused : s.preallocate t = (.error fault, s')) : s'.Honours held := by
  have spec := preallocate_spec h.built.tidy t
  have built := h.built.preallocate t
  rw [refused] at spec built
  refine ⟨built, fun room own out id mem => ?_, fun room => h.apart (spec.room room), h.created⟩
  exact (spec.isTaken_eq room id).trans (h.taken (spec.room room) own out id mem)

theorem giveBack (h : s.Honours (earlier ++ own :: later)) :
    (s.releaseAll own.places).Honours (earlier ++ later) := by
  refine h.rest.onward (h.built.release own.places) HasRoom.of_releaseAll
    fun room other out id mem taken => ?_
  rw [isTaken_iff, isReserved_releaseAll, isStored_of_content (content_releaseAll own.places)]
  rw [isTaken_iff] at taken
  exact taken.imp_right fun reserved => ⟨h.disjoint room other out mem, reserved⟩

/-- A commit may fail half-way, but the places that it has come to are stored then. -/
theorem commit (h : s.Honours held) (out : own ∈ held) (a : Applied) :
    (s.commit own.changes a).2.Honours held := by
  refine h.onward (h.built.commit own.changes a fun room id mem => ?_) HasRoom.of_commit
    fun _ _ _ id _ taken => ?_
  · exact h.taken room own out id (h.created own out id mem)
  · exact commit_keeps (p := fun s => s.isTaken id = true)
      (fun _ _ _ _ step taken => isTaken_applyChange step taken) (fun _ taken => taken) taken

theorem insert (h : s.Honours held) (id : RecordId) (version : Nat) (content : List UInt8) :
    (s.insertRecord id version content).Honours held := by
  refine h.onward (h.built.insertRecord id version content) HasRoom.of_insertRecord
    fun _ _ _ other _ taken => ?_
  have reserved : (s.insertRecord id version content).isReserved other = true ↔
      id ≠ other ∧ (s.reserve id).isReserved other = true := isReserved_settle
  rw [isReserved_reserve] at reserved
  rw [isTaken_iff] at taken ⊢
  rw [reserved, insertRecord, isStored_putRecord]
  by_cases same : id = other
  · exact .inl (.inl same)
  · exact taken.imp .inr fun still => ⟨same, .inr still⟩

end Honours

theorem AllocationRun.honours (h : AllocationRun limit s held) : s.Honours held := by
  induction h with
  | empty => exact ⟨.empty limit, nofun, fun _ => .nil, nofun⟩
  | grant _ granted ih => exact ih.grant granted
  | refuse _ refused ih => exact ih.refuse refused
  | giveBack earlier later _ ih => exact ih.giveBack
  | commit earlier later a _ done ih =>
    have kept := ih.commit (List.mem_append_right earlier List.mem_cons_self) a
    rw [done] at kept
    exact kept.rest
  | fail earlier later a _ failed ih =>
    have kept := ih.commit (List.mem_append_right earlier List.mem_cons_self) a
    rw [failed] at kept
    exact kept
  | insert id version content _ ih => exact ih.insert id version content

def anyPlace : ChangeSet := ChangeSet.empty.create "log" 1 []

def thatPlace : ChangeSet := ChangeSet.empty.pushChange ⟨⟨1, 3⟩, "log", .created, 0, []⟩

end QuorumCommit.Store
