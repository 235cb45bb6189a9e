import Mathlib.Data.Multiset.Bind
import Mathlib.Logic.Relation
import QuorumCommit.Proofs.Attempt.Ending

/-!
All work on one node as a few acts. In flight are the attempts that are not over yet, whether they
wait or are in hand, and the resources that they share. Whatever a node is asked to do, it prepares
attempts, applies them and gives them up; what every act keeps is therefore kept by the node.
-/
namespace QuorumCommit

structure InFlight where
  attempts : Multiset Attempt
  resources : Resources

def InFlight.HasRoom (w : InFlight) : Prop := w.resources.store.HasRoom

inductive Job.Develops (room : Prop) : Job → Job → Prop where
  | data {t t' : ChangeSet} (id : TxId) :
      Attempt.Becomes room t t' → Develops room (.data id t) (.data id t')
  | schema (command : String) (before after : TxId) :
      Develops room (.schema command before after) (.schema command before after)

def Job.ids : Job → List TxId
  | .data id _ => [id]
  | .schema _ before after => [before, after]

namespace Attempt

structure Shelved (room : Prop) (request : RequestId) (job : Job) (a : Attempt) : Prop where
  request : a.request = request
  job : job.Develops room a.job
  status : a.status ≠ .success
  held : a.held = []
  promised : a.promised = []
  reserved : a.reserved = []
  live : a.destroyed = false

/-- Giving an attempt up as failed leaves it shelved. -/
theorem Underway.fail {r : Resources} {request : RequestId} {id : TxId} {t : ChangeSet} {b : State}
    (h : Underway r request id t b) (fault : Fault) :
    Shelved (destroy b).resources.store.HasRoom request (.data id t) (fail fault b).attempt ∧
      (Attempt.fail fault b).resources = (destroy b).resources := by
  obtain ⟨t', job, becomes⟩ := h.job
  rw [fail_eq h.pending]
  refine ⟨⟨h.request, ?_, fun success => ?_, rfl, rfl, rfl, h.took.live⟩, ?_⟩
  · dsimp only
    rw [job]
    exact .data id (becomes.mono (released_destroy h.took.live).room)
  · have failure := isFailure_ofFault fault
    dsimp only at success
    rw [success] at failure
    cases failure
  · unfold destroy
    rw [h.took.live]
    rfl

/-- An attempt to catch up with a change set, which locks and promises nothing. -/
structure Fetched (r : Resources) (id : TxId) (t t' : ChangeSet) (b : State) : Prop where
  took : Took r b
  status : b.attempt.status = .success
  job : b.attempt.job = .data id t'
  held : b.attempt.held = []
  promised : b.attempt.promised = []
  placed : Store.Placed t b.attempt.reserved t'

def offered (request : RequestId) (command : String) (before after : TxId) : Attempt :=
  { Attempt.new request (.schema command before after) with
    status := .success, promised := [before, after] }

def refused (request : RequestId) (command : String) (before after : TxId) : Attempt :=
  { Attempt.new request (.schema command before after) with status := .timedOut }

theorem refused_shelved (room : Prop) (request : RequestId) (command : String)
    (before after : TxId) :
    Shelved room request (.schema command before after) (refused request command before after) :=
  ⟨rfl, .schema command before after, nofun, rfl, rfl, rfl, rfl⟩

end Attempt

namespace Resources

def offer (r : Resources) (before after : TxId) : Resources :=
  r.withSequencer ((r.sequencer.markPromised before).markPromised after)

/-- Nothing changed that attempts depend on: ids may have been issued or taken back, commands run,
and the disk written to. -/
structure Quiet (r r' : Resources) : Prop where
  locks : r'.locks = r.locks
  origin : r'.sequencer.origin = r.sequencer.origin
  path : r'.journal.path = r.journal.path
  standing : ∀ o, (r'.sequencer.slot o).standing = (r.sequencer.slot o).standing
  places : r'.store.places = r.store.places
  records : r'.store.records = r.store.records
  indexKinds : r'.store.indexKinds = r.store.indexKinds
  indexValues : r'.store.indexValues = r.store.indexValues
  applied : r'.store.applied = r.store.applied

end Resources

inductive Deed where
  /-- A job is begun for a request. -/
  | begin (request : RequestId) (job : Job)
  /-- A change set that was committed elsewhere is caught up with. -/
  | fetch (id : TxId) (changes : ChangeSet)
  /-- An attempt is applied or given up. -/
  | finish (a : Attempt)
  | other

open Attempt in
inductive Act : InFlight → Deed → InFlight → Prop where
  /-- A change set was prepared, and all that was taken is given back. -/
  | tried {A r b request id t} : Underway r request id t b →
      Act ⟨A, r⟩ (.begin request (.data id t)) ⟨A, (destroy b).resources⟩
  /-- A prepared change set waits. -/
  | begun {A r b request id t u t'} : Fit r request id t u t' b → b.attempt.status = .success →
      Act ⟨A, r⟩ (.begin request (.data id t)) ⟨b.attempt ::ₘ A, b.resources⟩
  | fetched {A r b id t t'} : Fetched r id t t' b →
      Act ⟨A, r⟩ (.fetch id t) ⟨b.attempt ::ₘ A, b.resources⟩
  /-- The places of a change set to catch up with are taken. -/
  | missed {A r r' request id t} : Undone request r r' →
      (∀ key, r'.locks.holder? key = r.locks.holder? key) → Act ⟨A, r⟩ (.fetch id t) ⟨A, r'⟩
  /-- A failed attempt waits for a decision. -/
  | shelved {A r a request job} : Shelved r.store.HasRoom request job a →
      Act ⟨A, r⟩ (.begin request job) ⟨a ::ₘ A, r⟩
  | offered {A r} (request command before after) :
      Act ⟨A, r⟩ (.begin request (.schema command before after))
        ⟨offered request command before after ::ₘ A, r.offer before after⟩
  | applied {A r a id t} : a.status = .success → a.job = .data id t →
      Act ⟨a ::ₘ A, r⟩ (.finish a) ⟨A, (destroy (apply ⟨a, r⟩).2).resources⟩
  /-- Both ids of a command are committed. -/
  | settled {A r a command before after} : a.job = .schema command before after →
      r.HasDone before → r.HasDone after →
      Act ⟨a ::ₘ A, r⟩ (.finish a) ⟨A, (destroy (markApplied ⟨a, r⟩)).resources⟩
  | discarded {A r a} : Act ⟨a ::ₘ A, r⟩ (.finish a) ⟨A, a.discard r⟩
  /-- One id of a command is committed and noted. -/
  | noted {A r id} (disk : FileTree) : r.IsNext id →
      Act ⟨A, r⟩ .other
        ⟨A, r.advanceOn disk id (r.store.note ⟨id, r.sequencer.nextOffset⟩)⟩
  /-- One id of a command is committed, but not on the disk. -/
  | unsaved {A r id} (disk : FileTree) : r.IsNext id → r.journal.path ≠ none →
      Act ⟨A, r⟩ .other ⟨A, r.advanceOn disk id r.store⟩
  | quiet {A r r'} : r.Quiet r' → Act ⟨A, r⟩ .other ⟨A, r'⟩

/-- Places that were used stay used. -/
theorem Act.hasRoom {w w' : InFlight} {d : Deed} (act : Act w d w') (room : w'.HasRoom) :
    w.HasRoom := by
  cases act with
  | tried work => exact work.took.store.room (Attempt.hasRoom_of_destroy room)
  | begun fit => exact fit.took.store.room room
  | fetched fetched => exact fetched.took.store.room room
  | missed undone => exact undone.room room
  | shelved | offered => exact room
  | applied status job => exact Attempt.hasRoom_of_apply job (Attempt.hasRoom_of_destroy room)
  | settled | discarded => exact Attempt.hasRoom_of_destroy room
  | noted | unsaved => exact room
  | quiet quiet => exact room.congr quiet.places fun id => congrArg (·.contains id) quiet.records

namespace InFlight

variable {ok ok' : Multiset Attempt → Deed → Prop} {I : InFlight → Prop} {w w' w'' : InFlight}
  {d : Deed}

/-- Some acts, one after the other, each of which is allowed among the attempts that it finds. -/
def Acts (ok : Multiset Attempt → Deed → Prop) : InFlight → InFlight → Prop :=
  Relation.ReflTransGen fun w w' => ∃ d, ok w.attempts d ∧ Act w d w'

theorem Acts.refl (w : InFlight) : Acts ok w w := Relation.ReflTransGen.refl

theorem Acts.trans (h : Acts ok w w') (h' : Acts ok w' w'') : Acts ok w w'' :=
  Relation.ReflTransGen.trans h h'

theorem Acts.one (allowed : ok w.attempts d) (act : Act w d w') : Acts ok w w' :=
  .single ⟨d, allowed, act⟩

theorem Acts.mono (h : Acts ok w w') (all : ∀ A d, ok A d → ok' A d) : Acts ok' w w' :=
  Relation.ReflTransGen.mono (fun _ _ ⟨d, allowed, act⟩ => ⟨d, all _ d allowed, act⟩) _ _ h

def KeptBy (ok : Multiset Attempt → Deed → Prop) (I : InFlight → Prop) : Prop :=
  ∀ w d w', I w → ok w.attempts d → Act w d w' → I w'

theorem KeptBy.acts (h : KeptBy ok I) (acts : Acts ok w w') (start : I w) : I w' := by
  induction acts with
  | refl => exact start
  | tail _ last ih =>
    obtain ⟨d, allowed, act⟩ := last
    exact h _ d _ ih allowed act

/-- What is known of what is in flight was known of it all the time. -/
def ReachesBack (P : InFlight → Prop) : Prop := ∀ w d w', Act w d w' → P w' → P w

theorem ReachesBack.trivial : ReachesBack fun _ => True := fun _ _ _ _ last => last

theorem ReachesBack.hasRoom : ReachesBack HasRoom := fun _ _ _ act => act.hasRoom

theorem ReachesBack.acts {P : InFlight → Prop} (back : ReachesBack P) (acts : Acts ok w w')
    (last : P w') : P w := by
  induction acts with
  | refl => exact last
  | tail _ step ih =>
    obtain ⟨d, -, act⟩ := step
    exact ih (back _ d _ act last)

def KeptWhile (P : InFlight → Prop) (ok : Multiset Attempt → Deed → Prop)
    (I : InFlight → Prop) : Prop :=
  ∀ w d w', P w' → I w → ok w.attempts d → Act w d w' → I w'

theorem KeptBy.keptWhile (h : KeptBy ok I) (P : InFlight → Prop) : KeptWhile P ok I :=
  fun w d w' _ => h w d w'

theorem KeptWhile.acts {P : InFlight → Prop} (h : KeptWhile P ok I) (back : ReachesBack P)
    (acts : Acts ok w w') (last : P w') (start : I w) : I w' := by
  induction acts with
  | refl => exact start
  | tail _ step ih =>
    obtain ⟨d, allowed, act⟩ := step
    exact h _ d _ last (ih (back _ d _ act last)) allowed act

end InFlight

end QuorumCommit
