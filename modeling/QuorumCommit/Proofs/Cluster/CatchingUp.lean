import QuorumCommit.Proofs.Cluster.Leading

/-!
Catching up with a node that took part in commits. What the origins have reported of the change sets
that the node has applied can be replayed, without any of the locks and promises, on a node that
started from the same store, and that node then holds the same.
-/
namespace QuorumCommit

namespace Node

open Cluster

variable {n n' m m' : Node} {id : TxId} {t : ChangeSet}

def catchUpAll (l : List Committed) : Step Node Unit :=
  l.forM fun done => catchUp done.id done.changes

theorem catchUpAll_append {l l' : List Committed}
    (ok : catchUpAll (l ++ l') n = (.ok (), m)) :
    ∃ n', catchUpAll l n = (.ok (), n') ∧ catchUpAll l' n' = (.ok (), m) := by
  induction l generalizing n with
  | nil => exact ⟨n, rfl, ok⟩
  | cons done rest ih =>
    obtain ⟨⟨⟩, n₁, first, later⟩ := Step.bind_eq_ok.1 ok
    obtain ⟨n', here, there⟩ := ih later
    exact ⟨n', Step.bind_eq_ok.2 ⟨(), n₁, first, here⟩, there⟩

/-- All that a node has caught up with it skips from then on. -/
theorem Calm.skips_all (h : n.Calm 0) {l : List Committed} (ok : catchUpAll l n = (.ok (), n')) :
    (∀ o, (n.sequencer.slot o).last ≤ (n'.sequencer.slot o).last) ∧
      ∀ done ∈ l, n'.Skips done.id := by
  induction l generalizing n with
  | nil =>
    cases ok
    exact ⟨fun _ => Nat.le_refl _, nofun⟩
  | cons done rest ih =>
    obtain ⟨⟨⟩, n₁, first, later⟩ := Step.bind_eq_ok.1 ok
    obtain ⟨calm, grows⟩ := h.catchUp done.id done.changes
    have first : Node.catchUp done.id done.changes n = (.ok (), n₁) := first
    have logged := catchUp_ok h.tidy first
    rw [first] at calm grows
    obtain ⟨more, skips⟩ := ih calm later
    refine ⟨fun o => Nat.le_trans (grows o) (more o), List.forall_mem_cons.2 ⟨?_, skips⟩⟩
    exact skips_iff.2 (Nat.le_trans logged (more done.id.origin))

theorem Wrote.content (w : n.Wrote id t n') :
    n'.store.content = n.store.content.committed t ⟨id, n.sequencer.nextOffset⟩ :=
  (congrArg View.content w.shared :)

theorem Wrote.offset (w : n.Wrote id t n') :
    n'.sequencer.nextOffset = Sequencer.following n.sequencer.nextOffset :=
  (congrArg View.nextOffset w.shared :)

/-- One more commit is noted. -/
theorem Wrote.applied (w : n.Wrote id t n') (versions : n.store.checkVersions t = .ok ()) :
    n'.store.applied = n.store.applied ++ [⟨id, n.sequencer.nextOffset⟩] := by
  have content := w.content
  rw [Store.committed_content] at content
  exact (Store.applied_of_content content).trans
    (Store.applied_commit (Store.commit_ok versions ⟨id, n.sequencer.nextOffset⟩))

/-- The other node holds the same, has committed as much and would commit next at the same
offset. No cluster there has used its last place. -/
structure CaughtUp (n m : Node) : Prop where
  content : m.store.content = n.store.content
  reserved : ∀ place, m.store.isReserved place = n.store.isReserved place
  last : ∀ o, (m.sequencer.slot o).last = (n.sequencer.slot o).last
  offset : m.sequencer.nextOffset = n.sequencer.nextOffset
  room : m.store.HasRoom

namespace CaughtUp

theorem kept (h : n.CaughtUp m) (room : n'.store.HasRoom) (same : n.Same n') : n'.CaughtUp m where
  content := h.content.trans same.content.symm
  reserved place := (h.reserved place).trans (same.reserved room place).symm
  last o := (h.last o).trans (same.last o).symm
  offset := h.offset.trans (congrArg View.nextOffset same.shared :).symm
  room := h.room

theorem wrote (h : n.CaughtUp m) (w : n.Wrote id t n') (w' : m.Wrote id t m')
    (reserved : ∀ place, m'.store.isReserved place = n'.store.isReserved place)
    (room : m'.store.HasRoom) : n'.CaughtUp m' where
  content := by rw [w'.content, w.content, h.content, h.offset]
  reserved := reserved
  last o := by
    by_cases own : o = id.origin
    · rw [own, w'.last, w.last]
    · rw [w'.last_other own, w.last_other own, h.last]
  offset := by rw [w'.offset, w.offset, h.offset]
  room := room

end CaughtUp

structure TookUp (n : Node) (done : Committed) (n' : Node) : Prop where
  next : n.resources.view.IsNext done.id
  placed : done.changes.hasTemporary = false
  admits : n.resources.Admits done.id done.changes
  wrote : n.Wrote done.id done.changes n'
  reserved : ∀ place, n'.store.isReserved place = n.store.isReserved place
  room : n'.store.HasRoom

/-- None of the places that were chosen is a last one. -/
theorem TookUp.others {done : Committed} (up : n.TookUp done n') {place : RecordId}
    (mem : place ∈ done.changes.createdRecords) : place.position ≠ RecordId.lastPosition := by
  have content := up.wrote.content
  rw [Store.committed_content] at content
  have stored : n'.store.isStored place = true := by
    rw [Store.isStored_of_content content]
    exact Store.isStored_commit_created (Store.commit_ok up.admits.versions _) mem
  intro last
  refine (up.room place.cluster).stored ?_
  rw [← last]
  exact stored

/-- What the node has taken up the other one can catch up with. -/
theorem CaughtUp.follow {done : Committed} (h : n.CaughtUp m) (calm : m.Calm 0)
    (up : n.TookUp done n') :
    ∃ m', catchUp done.id done.changes m = (.ok (), m') ∧ m'.Calm 0 ∧ n'.CaughtUp m' := by
  have next : m.resources.view.IsNext done.id :=
    (show _ = _ from up.next).trans (congrArg (· + 1) (h.last done.id.origin).symm)
  have untaken (place : RecordId) (mem : place ∈ done.changes.createdRecords) :
      m.store.isTaken place = false := by
    have spare := up.admits.untaken place mem
    unfold Store.isTaken at spare ⊢
    rw [h.reserved, Store.isStored_of_content h.content]
    exact spare
  have versions : m.store.checkVersions done.changes = .ok () := by
    rw [← Store.checkVersions_content, h.content]
    exact up.admits.versions
  obtain ⟨m', caught, enacted, room⟩ :=
    catchUp_next calm next up.placed up.admits.distinct untaken versions
  have room := room h.room fun place mem => up.others mem
  refine ⟨m', caught, ?_, h.wrote up.wrote enacted.toAdvanced.wrote (fun place => ?_) room⟩
  · have after := calm.advanced next enacted.toAdvanced
    unfold View.outAfter at after
    rwa [ite_self] at after
  · rw [enacted.reserved room, h.reserved, up.reserved]

/-- Two new nodes on the same store. -/
theorem Opened.caughtUp {i j : Nat} {options options' : Settings} {store : Store}
    (h : n.Opened i options store) (h' : m.Opened j options' store) (room : store.HasRoom) :
    n.CaughtUp m where
  content := by rw [h'.keeps.2, h.keeps.2]
  reserved place := by rw [h'.keeps.2, h.keeps.2]
  last o := by rw [h'.slot, h.slot]
  offset := by rw [h'.sequencer, h.sequencer]; rfl
  room := by rw [h'.keeps.2]; exact room

structure SameData (n m : Node) : Prop where
  records : m.store.records = n.store.records
  indexValues : m.store.indexValues = n.store.indexValues
  applied : m.store.applied = n.store.applied
  last : ∀ o, m.sequencer.lastCommitted? o = n.sequencer.lastCommitted? o

theorem CaughtUp.sameData (h : n.CaughtUp m) : n.SameData m where
  records := (congrArg Store.records h.content :)
  indexValues := (congrArg Store.indexValues h.content :)
  applied := (congrArg Store.applied h.content :)
  last o := by
    unfold Sequencer.lastCommitted?
    rw [h.last]

end Node

namespace Cluster

variable {c c' : Cluster} {x : String} {n n' m : Node} {calls : List Call}

/-- A call that commits data, with the records to create told apart, or changes the network. -/
def Call.Writes : Call → Prop
  | commit _ changes => changes.createdRecords.Nodup
  | partition _ | heal _ => True
  | _ => False

def Call.returned? (c : Cluster) : Call → Option Committed
  | commit name changes => ((Cluster.commit name changes).run c).1.toOption
  | _ => none

def returned (c : Cluster) : List Call → List Committed
  | [] => []
  | call :: rest => (call.returned? c).toList ++ (call.perform c).returned rest

def noted (c : Cluster) (x : String) : Nat :=
  ((c.node? x).map fun n => n.store.applied.length).getD 0

/-- What is reported as committed during some calls, as far as the node has applied it. -/
def received (c : Cluster) (x : String) : List Call → List Committed
  | [] => []
  | call :: rest =>
    (if c.noted x < (call.perform c).noted x then (call.returned? c).toList else []) ++
      (call.perform c).received x rest

theorem received_sublist (c : Cluster) (x : String) (calls : List Call) :
    (c.received x calls).Sublist (c.returned calls) := by
  induction calls generalizing c with
  | nil => exact .slnil
  | cons call rest ih =>
    refine List.Sublist.append ?_ (ih _)
    split
    · exact .refl _
    · exact List.nil_sublist _

theorem noted_eq (here : c.node? x = some n) : c.noted x = n.store.applied.length := by
  unfold noted
  rw [here]
  rfl

inductive Received (c : Cluster) (x : String) (n : Node) (call : Call) (n' : Node) : Prop where
  | none : n.Same n' → Received c x n call n'
  | some (done : Committed) : call.returned? c = some done → n.TookUp done n' →
      Received c x n call n'

theorem Calm.received (calm : c.Calm) (ids : c.HasIds) {call : Call} (writes : call.Writes)
    (room : (call.perform c).HasRoom) (here : c.node? x = some n) :
    ∃ n', (call.perform c).node? x = some n' ∧ c.Received x n call n' := by
  cases call with
  | commit name changes =>
    have spec := commit_spec calm ids name changes
    unfold Call.perform at room ⊢
    dsimp only at room ⊢
    rcases eq : (commit name changes).run c with ⟨fault | done, c'⟩
    · rw [Step.run_apply] at eq
      rw [eq] at spec
      obtain ⟨n', here', same⟩ := spec.2.nodes x n here
      exact ⟨n', here', .none same⟩
    · have reported : (Call.commit name changes).returned? c = .some done := by
        unfold Call.returned?
        dsimp only
        rw [eq]
        rfl
      rw [eq] at room
      rw [Step.run_apply] at eq
      rw [eq] at spec
      obtain ⟨-, w⟩ := spec
      obtain ⟨origin, running, id, drafted, -⟩ := w.origin
      obtain ⟨n', here', takes, leaves, reserved⟩ := (w.takers room).nodes x n here
      refine ⟨n', here', ?_⟩
      by_cases up : x = name ∨ c.Takes name done.id done.changes x n
      · refine .some done reported
          ⟨?_, drafted.placed room, ?_, takes up, reserved writes, room x n' here'⟩
        · rcases up with rfl | up
          · obtain rfl := Option.mem_unique here running
            rw [id]
            exact upcoming_isNext n
          · exact up.2.2
        · rcases up with rfl | up
          · obtain rfl := Option.mem_unique here running
            exact drafted.admits room writes
          · exact up.2.1
      · exact .none (leaves up)
  | partition name | heal name => exact ⟨n, here, .none (.refl n)⟩
  | run | catchUp | failNext => exact writes.elim

theorem Call.Writes.issues {call : Call} (h : call.Writes) (name : String) (id : TxId)
    (changes : ChangeSet) : call ≠ .catchUp name id changes := by
  rintro rfl
  exact h

theorem Call.Writes.data {call : Call} (h : call.Writes) (name command : String) :
    call ≠ .run name command := by
  rintro rfl
  exact h

/-- Places that were used stay used. -/
theorem Calm.room_of_perform (calm : c.Calm) (ids : c.HasIds) {call : Call} (writes : call.Writes)
    (room : (call.perform c).HasRoom) : c.HasRoom := by
  cases call with
  | commit name changes =>
    obtain ⟨-, untouched | ⟨done, w⟩⟩ := perform_commit calm ids name changes
    · exact room.evolved untouched fun _ _ _ same => same.room
    · exact w.hasRoom room
  | partition name | heal name => exact room
  | run | catchUp | failNext => exact writes.elim

theorem Calm.room_of_performAll (calm : c.Calm) (ids : c.HasIdsFor calls.length)
    (writes : ∀ call ∈ calls, call.Writes) (room : (c.performAll calls).HasRoom) : c.HasRoom := by
  induction calls generalizing c with
  | nil => exact room
  | cons call rest ih =>
    rw [List.forall_mem_cons] at writes
    exact calm.room_of_perform ids.hasIds writes.1
      (ih (calm.perform ids.hasIds call writes.1.data) (ids.perform calm call writes.1.issues
        fun name command same => absurd same (writes.1.data name command)) writes.2 room)

/-- Whatever the calls have brought to a node, the other node can catch up with in the same order.
-/
theorem Calm.catchUp_received (calm : c.Calm) (ids : c.HasIdsFor calls.length)
    (writes : ∀ call ∈ calls, call.Writes) (room : (c.performAll calls).HasRoom)
    (here : c.node? x = some n) (quiet : m.Calm 0) (level : n.CaughtUp m) :
    ∃ n', (c.performAll calls).node? x = some n' ∧
      n'.store.applied.map (·.id) = n.store.applied.map (·.id) ++ (c.received x calls).map (·.id) ∧
      ∃ m', Node.catchUpAll (c.received x calls) m = (.ok (), m') ∧ n'.CaughtUp m' := by
  induction calls generalizing c n m with
  | nil => exact ⟨n, here, (List.append_nil _).symm, m, rfl, level⟩
  | cons call rest ih =>
    rw [List.forall_mem_cons] at writes
    have calm' := calm.perform ids.hasIds call writes.1.data
    have ids' := ids.perform calm call writes.1.issues
      fun name command same => absurd same (writes.1.data name command)
    have room₁ := calm'.room_of_performAll ids' writes.2 room
    obtain ⟨n₁, here₁, step⟩ := calm.received ids.hasIds writes.1 room₁ here
    unfold Cluster.received
    rw [noted_eq here, noted_eq here₁]
    cases step with
    | none same =>
      have applied : n₁.store.applied = n.store.applied :=
        (congrArg Store.applied same.content :)
      rw [applied, if_neg (Nat.lt_irrefl _), List.nil_append, ← applied]
      exact ih calm' ids' writes.2 room here₁ quiet (level.kept (room₁ x n₁ here₁) same)
    | some done reported up =>
      have applied := up.wrote.applied up.admits.versions
      obtain ⟨m₁, caught, quiet₁, level₁⟩ := level.follow quiet up
      obtain ⟨n', here', noted, m', all, level'⟩ :=
        ih calm' ids' writes.2 room here₁ quiet₁ level₁
      rw [if_pos (by rw [applied]; simp), reported]
      refine ⟨n', here', ?_, m', Step.bind_eq_ok.2 ⟨(), m₁, caught, all⟩, level'⟩
      rw [noted, applied]
      simp

/-- What a call reports has an id that no log had before and a log has after it. -/
theorem Sound.returned? (h : c.Sound) (ids : c.HasIds) {call : Call} (writes : call.Writes) :
    (call.perform c).Sound ∧ (∀ id, (call.perform c).Unused id → c.Unused id) ∧
      ∀ done, call.returned? c = some done →
        c.Unused done.id ∧ ¬ (call.perform c).Unused done.id := by
  have submits : call.Submits := by
    cases call with
    | commit | partition | heal => trivial
    | run | catchUp | failNext => exact writes.elim
  have whole : ¬ call.HalfDone c := by
    cases call with
    | commit | partition | heal => exact id
    | run | catchUp | failNext => exact writes.elim
  obtain ⟨-, ⟨first, gains⟩, -⟩ := h.perform ids submits
  refine ⟨h.next ids submits whole, fun id => gains.unused_before, fun done reported => ?_⟩
  cases call with
  | commit name changes =>
    have spec := commit_spec h.calm ids name changes
    unfold Call.returned? at reported
    dsimp only at reported
    unfold Call.perform
    dsimp only
    rcases eq : (commit name changes).run c with ⟨fault | done', c'⟩
    · rw [eq] at reported
      cases reported
    · rw [eq] at reported
      cases reported
      rw [Step.run_apply] at eq
      rw [eq] at spec
      obtain ⟨-, wrote⟩ := spec
      obtain ⟨n, running, -⟩ := wrote.origin
      obtain ⟨n', running', -, wrote'⟩ := wrote.logs.nodes name n running
      refine ⟨(h.wrote wrote).1.unused, fun unused => ?_⟩
      have last := (wrote' rfl).last
      exact absurd (unused name n' running') (Nat.not_lt_of_le (Nat.le_of_eq last.symm))
  | partition | heal => cases reported
  | run | catchUp | failNext => exact writes.elim

/-- Whatever is reported in a run was in no log before the run, and no id is reported twice. -/
theorem Sound.returned_nodup (h : c.Sound) (ids : c.HasIdsFor calls.length)
    (writes : ∀ call ∈ calls, call.Writes) :
    (∀ done ∈ c.returned calls, c.Unused done.id) ∧ ((c.returned calls).map (·.id)).Nodup := by
  induction calls generalizing c with
  | nil => exact ⟨nofun, .nil⟩
  | cons call rest ih =>
    rw [List.forall_mem_cons] at writes
    obtain ⟨sound, before, now⟩ := h.returned? ids.hasIds writes.1
    obtain ⟨later, distinct⟩ := ih sound (ids.perform h.calm call writes.1.issues
      fun name _ _ => h.leads name) writes.2
    unfold returned
    cases reported : call.returned? c with
    | none => exact ⟨fun done mem => before _ (later done mem), distinct⟩
    | some done =>
      obtain ⟨unused, used⟩ := now done reported
      refine ⟨List.forall_mem_cons.2 ⟨unused, fun other mem => before _ (later other mem)⟩, ?_⟩
      refine List.nodup_cons.2 ⟨fun mem => ?_, distinct⟩
      obtain ⟨other, listed, same⟩ := List.mem_map.1 mem
      have same : other.id = done.id := same
      exact used (same ▸ later other listed)

/-- So of what was reported, ids tell the change sets. -/
theorem Sound.returned_unique (h : c.Sound) (ids : c.HasIdsFor calls.length)
    (writes : ∀ call ∈ calls, call.Writes) {l l' : List Committed}
    (known : l ⊆ c.returned calls) (known' : l' ⊆ c.returned calls)
    (same : l.map (·.id) = l'.map (·.id)) : l = l' := by
  have distinct := (h.returned_nodup ids writes).2
  have length : l.length = l'.length := by simpa using congrArg List.length same
  refine List.ext_getElem length fun i bound bound' => ?_
  refine List.inj_on_of_nodup_map distinct (known (List.getElem_mem bound))
    (known' (List.getElem_mem bound')) ?_
  have here := List.getElem_of_eq same (by simpa using bound : i < (l.map (·.id)).length)
  simpa using here

/-- Of a node that some calls have led from `n` to `n'`, and another one `m` that started from the
same store: by what the first has applied in the meantime the second can catch up with it. -/
structure Replays (c : Cluster) (x : String) (calls : List Call) (n m n' : Node) : Prop where
  applied : n'.store.applied.map (·.id) =
    n.store.applied.map (·.id) ++ (c.received x calls).map (·.id)
  agrees : ∃ m', Node.catchUpAll (c.received x calls) m = (.ok (), m') ∧ n'.SameData m'
  /-- To catch up again with anything that the node is past does nothing. -/
  repeats : ∀ l l', c.received x calls = l ++ l' → ∃ m', Node.catchUpAll l m = (.ok (), m') ∧
    ∀ done ∈ l, m'.Skips done.id
  reported : c.received x calls ⊆ c.returned calls
  /-- If no two nodes issue the same ids, the ids tell which reports are meant. -/
  unique : c.DistinctOrigins → ∀ l, l ⊆ c.returned calls →
    l.map (·.id) = (c.received x calls).map (·.id) → l = c.received x calls

def apart : List Call :=
  [.commit "a" (person 1), .partition "b", .commit "a" ((person 2).delete "person" ⟨9, 0⟩ 1),
    .heal "b", .commit "b" (ChangeSet.empty.create "city" 7 [3])]

end Cluster

end QuorumCommit
