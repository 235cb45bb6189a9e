import QuorumCommit.Proofs.Node.Bodies
import QuorumCommit.Proofs.InFlight.Guard

/-!
No update is lost. What a commit writes has been checked in an earlier call, and its checks still
pass when it is written. As each write raises the versions of its records, no version of a record is
updated or removed twice.
-/
namespace QuorumCommit

namespace Store

def AtLeast (s : Store) (id : RecordId) (version : Nat) : Prop :=
  ∃ r, s.record? id = some r ∧ version ≤ r.version

theorem AtLeast.of_records {s s' : Store} {id : RecordId} {version : Nat}
    (h : s.AtLeast id version) (same : s'.records = s.records) : s'.AtLeast id version := by
  obtain ⟨r, found, le⟩ := h
  exact ⟨r, (congrArg (·[id]?) same).trans found, le⟩

end Store

namespace Node

open Attempt InFlight

variable {n : Node} {request : RequestId} {w : Write} {record : RecordId} {version : Nat}

def Call.Unregistered (n : Node) : Call → Prop
  | prepare request .. => n.registry.get? request = none
  | _ => True

/-- Each call of a run finds its request unregistered, if it prepares a change set. -/
def Unrepeated (n : Node) : List Call → Prop
  | [] => True
  | call :: rest => call.Unregistered n ∧ Unrepeated (call.perform n) rest

instance (n : Node) : (call : Call) → Decidable (call.Unregistered n)
  | .prepare request .. => inferInstanceAs (Decidable (n.registry.get? request = none))
  | .commit _ | .rollback _ | .prepareSchema .. | .settleSchema .. => .isTrue trivial

instance decidableUnrepeated (n : Node) : (calls : List Call) → Decidable (n.Unrepeated calls)
  | [] => .isTrue trivial
  | call :: rest =>
    have := decidableUnrepeated (call.perform n) rest
    inferInstanceAs (Decidable (_ ∧ _))

def Call.write? (n : Node) : Call → Option Write
  | commit request => n.write? request
  | _ => none

def writes (n : Node) : List Call → List Write
  | [] => []
  | call :: rest => (call.write? n).toList ++ writes (call.perform n) rest

structure Write.Checked (w : Write) : Prop where
  versions : w.store.checkVersions w.changes = .ok ()
  unique : w.store.checkUniqueKeys w.changes = .ok ()

def Write.Replaces (w : Write) (id : RecordId) (version : Nat) : Prop :=
  ∃ c ∈ w.changes.changes, c.kind ≠ .created ∧ c.record = id ∧ c.version = version

instance (w : Write) (id : RecordId) (version : Nat) : Decidable (w.Replaces id version) :=
  inferInstanceAs (Decidable (∃ c ∈ w.changes.changes, _))

/-- No version comes round in the write. -/
def Write.InRange (w : Write) : Prop :=
  ∀ c ∈ w.changes.changes, ∀ r ∈ w.store.record? c.record,
    r.version + w.changes.changes.countP (·.record = c.record) < 4294967296

instance (w : Write) : Decidable w.InRange :=
  inferInstanceAs (Decidable (∀ c ∈ w.changes.changes, _))

structure Careful (n : Node) : Prop extends Orderly n where
  guarded : n.store.HasRoom → n.inFlight.Guarded

theorem Started.careful {id : Nat} {settings : Settings} {store : Store}
    (h : n.Started id settings store) (built : store.Built) : n.Careful := by
  have orderly := h.orderly built
  refine ⟨orderly, fun _ => ?_⟩
  have sound := orderly.sound
  rw [h.inFlight] at sound ⊢
  exact ⟨sound, Multiset.nodup_zero, nofun⟩

theorem not_mem_voters {g : Registry} (keyed : g.Keyed) (none : g.get? request = none) :
    request ∉ voters g.all := by
  intro mem
  obtain ⟨a, mem, votes⟩ := mem_voters.1 mem
  have found := keyed.get?_of_mem mem
  rw [request_of_voter? votes, none] at found
  cases found

theorem Careful.mayResume (h : n.Careful) (request : RequestId) :
    MayResume Deed.Lone request n := by
  intro a found
  cases a.job with
  | schema command before after => trivial
  | data id t =>
    refine not_mem_voters (h.keyed.erase request) ?_
    rw [Registry.get?_erase, if_pos rfl]

theorem Careful.movesBy (h : n.Careful) {call : Call} (new : call.Unregistered n) :
    MovesBy Deed.Lone n (call.perform n) := by
  have allowed : call.Allowed Deed.Lone n := by
    refine ⟨fun job begins => ?_, fun _ _ _ => trivial, fun _ => h.mayResume _⟩
    cases call with
    | prepare request id changes atOrigin retries =>
      cases begins
      exact not_mem_voters h.keyed new
    | prepareSchema request command before after =>
      cases begins
      trivial
    | commit request | rollback request | settleSchema request apply => cases begins
  exact Call.movesBy (fun _ => trivial) h.toOrderly call allowed

theorem Careful.perform (h : n.Careful) {call : Call} (new : call.Unregistered n) :
    (call.perform n).Careful where
  toOrderly := (h.movesBy new).orderly h.toOrderly
  guarded last :=
    have first := ReachesBack.hasRoom.acts (h.movesBy new).acts last
    Guarded.keptWhile.acts .hasRoom (h.movesBy new).acts last (h.guarded first)

theorem Careful.performAll (h : n.Careful) {calls : List Call} (unrepeated : n.Unrepeated calls) :
    (n.performAll calls).Careful := by
  induction calls generalizing n with
  | nil => exact h
  | cons call rest ih => exact ih (h.perform unrepeated.1) unrepeated.2

theorem Careful.hasRoom_of_performAll (h : n.Careful) {calls : List Call}
    (unrepeated : n.Unrepeated calls) (room : (n.performAll calls).store.HasRoom) :
    n.store.HasRoom := by
  induction calls generalizing n with
  | nil => exact room
  | cons call rest ih =>
    have next : (call.perform n).store.HasRoom := ih (h.perform unrepeated.1) unrepeated.2 room
    exact ReachesBack.hasRoom.acts (h.movesBy unrepeated.1).acts next

theorem unrepeated_append {before after : List Call} (h : n.Unrepeated (before ++ after)) :
    n.Unrepeated before := by
  induction before generalizing n with
  | nil => trivial
  | cons call rest ih => exact ⟨h.1, ih h.2⟩

/-- What is written is that of an attempt in hand, which is guarded. -/
theorem Careful.written (h : n.Careful) (room : (commit request n).2.store.HasRoom)
    (written : n.write? request = some w) :
    ∃ (b : State) (A : Multiset Attempt) (id : TxId), Guarded ⟨b.attempt ::ₘ A, b.resources⟩ ∧
      b.resources.store.HasRoom ∧ b.attempt.status = .success ∧
      b.attempt.job = .data id w.changes ∧ w.store = b.resources.store := by
  have takes : Takes Deed.Lone n (commit request n).2 (n.ripe? request) :=
    commit_takes h.toOrderly (fun _ _ _ => trivial) (h.mayResume request)
  unfold write? at written
  cases ripe : n.ripe? request with
  | none =>
    rw [ripe] at written
    cases written
  | some b =>
    rw [ripe] at written takes
    obtain ⟨success, -, after, A, acts⟩ := takes
    obtain ⟨store, id, job⟩ := written?_store written
    have taken : b.resources.store.HasRoom := by
      unfold Node.store at room
      rw [after] at room
      exact hasRoom_of_apply job (hasRoom_of_destroy room)
    have first := h.guarded (ReachesBack.hasRoom.acts acts taken)
    exact ⟨b, A, id, Guarded.keptWhile.acts .hasRoom acts taken first, taken, success, job, store⟩

/-- What is written passes the checks once more. -/
theorem Careful.checked (h : n.Careful) (room : (commit request n).2.store.HasRoom)
    (written : n.write? request = some w) : w.Checked := by
  obtain ⟨b, A, id, guarded, -, success, job, store⟩ := h.written room written
  have guards := guarded.guards b.attempt (Multiset.mem_cons_self _ _) success id _ job
  exact ⟨store ▸ guards.versions, store ▸ guards.unique⟩

/-- A record that is replaced has the version at which it was seen. -/
theorem Write.Checked.found (h : w.Checked) (replaces : w.Replaces record version) :
    ∃ r, w.store.record? record = some r ∧ r.version = version := by
  obtain ⟨c, mem, kind, rfl, rfl⟩ := replaces
  exact Store.version_of_checkVersion (forM_eq_ok.1 h.versions c mem) kind

/-- A write raises the version of a stored record by the number of its changes of the record. -/
theorem Careful.version_written (h : n.Careful) (room : (commit request n).2.store.HasRoom)
    (written : n.write? request = some w) (inRange : w.InRange) {r : StoredRecord}
    (found : w.store.record? record = some r) :
    ∃ r', (commit request n).2.store.record? record = some r' ∧
      r'.version = r.version + w.changes.changes.countP (·.record = record) := by
  obtain ⟨b, A, id, guarded, taken, success, job, store⟩ := h.written room written
  have after : (commit request n).2.store.content =
      (w.store.commit w.changes w.applied).2.content := by
    have content := (content_commit h.toOrderly request).1
    rwa [written] at content
  rw [Store.record?_of_content after]
  by_cases named : ∃ c ∈ w.changes.changes, c.record = record
  · obtain ⟨c, mem, rfl⟩ := named
    have old : c.record ∉ w.changes.createdRecords := fun created =>
      guarded.toSound.not_isStored_of_created success job created taken
        (store ▸ Store.isStored_of_record? found)
    exact Store.version_commit found old (inRange c mem r found)
      (Store.commit_ok (h.checked room written).versions _)
  · have apart : ∀ c ∈ w.changes.changes, c.record ≠ record :=
      fun c mem same => named ⟨c, mem, same⟩
    have none : w.changes.changes.countP (·.record = record) = 0 :=
      List.countP_eq_zero.2 fun c mem => by simpa using apart c mem
    exact ⟨r, (Store.record?_commit apart).trans found, by rw [none, Nat.add_zero]⟩

/-- A write raises the versions of the records that it replaces. -/
theorem Careful.raises (h : n.Careful) (room : (commit request n).2.store.HasRoom)
    (written : n.write? request = some w) (inRange : w.InRange)
    (replaces : w.Replaces record version) :
    (commit request n).2.store.AtLeast record (version + 1) := by
  obtain ⟨r, found, same⟩ := (h.checked room written).found replaces
  obtain ⟨r', found', raised⟩ := h.version_written room written inRange found
  obtain ⟨c, mem, -, named, -⟩ := replaces
  have some : 0 < w.changes.changes.countP (·.record = record) :=
    List.countP_pos_iff.2 ⟨c, mem, by simpa using named⟩
  exact ⟨r', found', by omega⟩

theorem prepare_records (tidy : n.store.Tidy) (request : RequestId) (id : TxId) (t : ChangeSet)
    (atOrigin : Bool) (retries : Nat) :
    (prepare request id t atOrigin retries n).2.store.records = n.store.records := by
  have first := firstPhase_prepare tidy request id t atOrigin retries
  generalize prepare request id t atOrigin retries n = out at first ⊢
  cases first with
  | @waits m b u t' registry fit status =>
    exact (park_idle m b).records.trans (congrArg Store.records fit.took.store.content :)
  | declined registry settings again work =>
    exact (congrArg Store.records work.took.undone.content :)
  | @failed m b fault registry work =>
    obtain ⟨-, same⟩ := work.fail fault
    refine (park_idle m (fail fault b)).records.trans ?_
    rw [same]
    exact (congrArg Store.records work.took.undone.content :)

/-- Nothing but a commit changes a record. -/
theorem Call.perform_records (orderly : n.Orderly) {call : Call}
    (other : ∀ request, call ≠ .commit request) :
    (call.perform n).store.records = n.store.records := by
  cases call with
  | commit request => exact absurd rfl (other request)
  | prepare request id changes atOrigin retries =>
    exact prepare_records orderly.sound.tidy request id changes atOrigin retries
  | rollback request =>
    show (Node.rollback request n).2.store.records = n.store.records
    unfold Node.rollback waiting?
    cases n.registry.get? request with
    | none => rfl
    | some a => exact (Resources.Idle.destroy ⟨a, n.resources⟩).records
  | prepareSchema request command before after =>
    exact (prepareSchema_idle n request command before after).records
  | settleSchema request apply =>
    rcases settleSchema_cases request apply n with idle | ⟨-, k, b, m, -, idle, finishes⟩
    · exact idle.records
    · have finished := finishSchema_records b k.command k.before k.after m
      rw [← finishes] at finished
      exact finished.trans idle.records

theorem Call.of_write? {call : Call} (written : call.write? n = some w) :
    ∃ request, call = .commit request ∧ n.write? request = some w := by
  cases call with
  | commit request => exact ⟨request, rfl, written⟩
  | prepare | rollback | prepareSchema | settleSchema => cases written

/-- No version is lost, whatever is called. -/
theorem Careful.atLeast_perform (h : n.Careful) {call : Call}
    (room : (call.perform n).store.HasRoom) (inRange : ∀ w ∈ call.write? n, w.InRange)
    (atLeast : n.store.AtLeast record version) : (call.perform n).store.AtLeast record version := by
  by_cases writes : ∃ request, call = .commit request
  · obtain ⟨request, rfl⟩ := writes
    obtain ⟨after, before⟩ := content_commit h.toOrderly request
    cases written : n.write? request with
    | none =>
      rw [written] at after
      exact atLeast.of_records (congrArg Store.records after :)
    | some w =>
      obtain ⟨r, found, le⟩ := atLeast
      rw [← Store.record?_of_content (before w written)] at found
      obtain ⟨r', found', raised⟩ := h.version_written room written (inRange w written) found
      exact ⟨r', found', by omega⟩
  · exact atLeast.of_records
      (Call.perform_records h.toOrderly fun request same => writes ⟨request, same⟩)

/-- A record that has a version or a later one is only replaced at such a version. -/
theorem Careful.le_of_replaces (h : n.Careful) {calls : List Call} (unrepeated : n.Unrepeated calls)
    (room : (n.performAll calls).store.HasRoom) (inRange : ∀ w ∈ n.writes calls, w.InRange)
    {least : Nat} (atLeast : n.store.AtLeast record least) (mem : w ∈ n.writes calls)
    (replaces : w.Replaces record version) : least ≤ version := by
  induction calls generalizing n with
  | nil => cases mem
  | cons call rest ih =>
    obtain ⟨new, unrepeated⟩ := unrepeated
    have next := (h.perform new).hasRoom_of_performAll unrepeated room
    obtain ⟨now', later'⟩ := List.forall_mem_append.1 inRange
    rcases List.mem_append.1 mem with now | later
    · obtain ⟨request, rfl, written⟩ := Call.of_write? (Option.mem_toList.1 now)
      obtain ⟨r, found, le⟩ := atLeast
      obtain ⟨r', found', same⟩ := (h.checked next written).found replaces
      have content := (content_commit h.toOrderly request).2 w written
      rw [Store.record?_of_content content, found, Option.some.injEq] at found'
      subst found'
      exact same ▸ le
    · have kept := h.atLeast_perform next (fun w written => now' w (Option.mem_toList.2 written))
        atLeast
      exact ih (h.perform new) unrepeated room later' kept later

/-- Of the writes of a run, no two replace the same version of a record. -/
theorem Careful.writes_pairwise (h : n.Careful) {calls : List Call}
    (unrepeated : n.Unrepeated calls) (room : (n.performAll calls).store.HasRoom)
    (inRange : ∀ w ∈ n.writes calls, w.InRange) : (n.writes calls).Pairwise fun w w' =>
      ∀ record version, w.Replaces record version → ¬ w'.Replaces record version := by
  induction calls generalizing n with
  | nil => exact .nil
  | cons call rest ih =>
    obtain ⟨new, unrepeated⟩ := unrepeated
    have next := (h.perform new).hasRoom_of_performAll unrepeated room
    obtain ⟨now', later'⟩ := List.forall_mem_append.1 inRange
    refine List.pairwise_append.2 ⟨?_, ih (h.perform new) unrepeated room later', ?_⟩
    · cases call.write? n with
      | none => exact .nil
      | some w => exact List.pairwise_singleton _ w
    · intro w now w' later record version replaces replaces'
      obtain ⟨request, rfl, written⟩ := Call.of_write? (Option.mem_toList.1 now)
      have raised := h.raises next written (now' w now) replaces
      have le := (h.perform new).le_of_replaces unrepeated room later' raised later replaces'
      omega

theorem Careful.checked_of_mem (h : n.Careful) {calls : List Call} (unrepeated : n.Unrepeated calls)
    (room : (n.performAll calls).store.HasRoom) (mem : w ∈ n.writes calls) : w.Checked := by
  induction calls generalizing n with
  | nil => cases mem
  | cons call rest ih =>
    obtain ⟨new, unrepeated⟩ := unrepeated
    rcases List.mem_append.1 mem with now | later
    · obtain ⟨request, rfl, written⟩ := Call.of_write? (Option.mem_toList.1 now)
      exact h.checked ((h.perform new).hasRoom_of_performAll unrepeated room) written
    · exact ih (h.perform new) unrepeated room later

/-- Two requests want to replace the same version of a record. The one that is refused at first is
prepared anew when it is decided, but then the version is gone; a third request replaces the new
version. -/
def race : List Call :=
  [.prepare ⟨2, 1⟩ ⟨2, 1⟩ (ChangeSet.empty.update "person" ⟨9, 0⟩ 1 [2]) false 0,
    .prepare ⟨3, 1⟩ ⟨3, 1⟩ (ChangeSet.empty.update "person" ⟨9, 0⟩ 1 [3]) false 0,
    .commit ⟨2, 1⟩, .commit ⟨3, 1⟩,
    .prepare ⟨3, 2⟩ ⟨3, 1⟩ (ChangeSet.empty.delete "person" ⟨9, 0⟩ 2) false 0, .commit ⟨3, 2⟩]

/-- A node that holds a record and another one in the last place but one of its cluster. -/
def almostFull : Node where
  database := "db"
  name := "a"
  settings := .default
  resources := ⟨.empty, .inMemory 1 1, ((Store.empty none).insertRecord ⟨9, 6⟩ 1 [1]).insertRecord
    ⟨9, 9223372036854775806⟩ 1 [2], .empty⟩
  registry := .empty
  meter := .zero
  asks := 0

def atOnce (turn : Nat) (changes : ChangeSet) : List Call :=
  [.prepare ⟨2, turn⟩ ⟨2, turn⟩ changes true 0, .commit ⟨2, turn⟩]

/-- A record is updated, and updated again at the same version once another record was stored in its
place. A record stored elsewhere brings the end of the places there, after it has come round. -/
def aroundTwice : List Call :=
  atOnce 1 (ChangeSet.empty.update "person" ⟨9, 6⟩ 1 [3]) ++
    atOnce 2 (ChangeSet.empty.create "person" 9 [4]) ++
    atOnce 3 (ChangeSet.empty.pushChange ⟨⟨9, 5⟩, "person", .created, 0, [5]⟩) ++
    atOnce 4 (ChangeSet.empty.create "person" 9 [6]) ++
    atOnce 5 (ChangeSet.empty.update "person" ⟨9, 6⟩ 1 [7])

end Node

end QuorumCommit
