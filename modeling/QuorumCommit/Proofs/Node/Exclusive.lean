import QuorumCommit.Proofs.Node.Judging

/-!
Exclusive promises. A change set gets only an id that is promised to nobody. A command is agreed to
as soon as one of its two ids is free, and both are then promised to it; so a command can come to
share an id with the attempt that has it already. In all other respects each promise has one owner,
who alone can take it away.
-/
namespace QuorumCommit

open Attempt InFlight

namespace Resources

instance (r : Resources) (id : TxId) : Decidable (r.HasPromised id) :=
  inferInstanceAs (Decidable (id.sequence ∈ (r.sequencer.slot id.origin).promised))

instance (r : Resources) (id : TxId) : Decidable (r.HasDone id) :=
  inferInstanceAs (Decidable (_ ≤ _))

end Resources

namespace Node

variable {n m : Node} {request : RequestId} {command : String} {before after id : TxId}

/-- The call takes a command on one of whose ids is promised already, and does not commit that id.
-/
def Call.Shares (n : Node) (call : Call) : Prop :=
  ∃ k ∈ call.judges? n, n.Agrees k.before k.after ∧ ∃ id ∈ [k.before, k.after],
    n.resources.HasPromised id ∧ ¬ (call.perform n).resources.HasDone id

instance (n : Node) (call : Call) : Decidable (call.Shares n) :=
  inferInstanceAs (Decidable (∃ k ∈ call.judges? n, _ ∧ ∃ id ∈ [k.before, k.after], _ ∧ _))

def Unshared (n : Node) : List Call → Prop
  | [] => True
  | call :: rest => ¬ call.Shares n ∧ Unshared (call.perform n) rest

instance decidableUnshared (n : Node) : (calls : List Call) → Decidable (n.Unshared calls)
  | [] => .isTrue trivial
  | call :: rest =>
    have := decidableUnshared (call.perform n) rest
    inferInstanceAs (Decidable (_ ∧ _))

/-- No two attempts that wait list the same id, and what a successful one lists is promised unless
it is committed. -/
structure Exclusive (n : Node) : Prop where
  apart : ∀ q q' a a', q ≠ q' → n.registry.get? q = some a → n.registry.get? q' = some a' →
    ∀ id ∈ a.promised, id ∉ a'.promised
  kept : ∀ q a, n.registry.get? q = some a → a.status = .success → ∀ id ∈ a.promised,
    n.resources.HasPromised id ∨ n.resources.HasDone id

theorem exclusive_of_owned (owned : Owned [] n.inFlight) : n.Exclusive where
  apart q q' a a' ne found found' id mine := by
    have split : n.inFlight = ⟨a ::ₘ (n.registry.erase q).all, n.resources⟩ := by
      unfold inFlight
      rw [Registry.all_erase found]
    have other : a' ∈ (n.registry.erase q).all := by
      refine Registry.mem_all.2 ⟨q', ?_⟩
      rw [Registry.get?_erase, if_neg (Ne.symm ne), found']
    exact (split ▸ owned).not_mem mine List.not_mem_nil other
  kept q a found _ id listed :=
    owned.backed a (Registry.mem_all.2 ⟨q, found⟩) id listed List.not_mem_nil

/-- Giving one attempt up withdraws no promise that another one lists. -/
theorem Exclusive.discard (h : n.Exclusive) (orderly : n.Orderly) {q q' : RequestId}
    {a a' : Attempt}
    (ne : q ≠ q') (found : n.registry.get? q = some a) (found' : n.registry.get? q' = some a')
    (listed : id ∈ a'.promised) (promised : n.resources.HasPromised id) :
    (a.discard n.resources).HasPromised id := by
  have live := (orderly.sound.sane a (Registry.mem_all.2 ⟨q, found⟩)).live
  refine ((released_destroy (b := ⟨a, n.resources⟩) live).promised _ _).2 ⟨promised, fun mine => ?_⟩
  exact h.apart q q' a a' ne found found' id mine listed

/-- As long as no command is begun, each promise keeps its owner. -/
theorem owned_of_movesBy (owned : Owned [] n.inFlight) (moves : MovesBy (fun _ d => d.Plain) n m) :
    Owned [] m.inFlight :=
  Owned.keptBy.acts moves.acts owned

/-- A command that is refused lists nothing, and one that is agreed to lists ids that were neither
promised nor committed, unless it shares one. -/
theorem owned_prepareSchema (orderly : n.Orderly) (owned : Owned [] n.inFlight)
    (unshared : ¬ Call.Shares n (.prepareSchema request command before after)) :
    Owned [] (prepareSchema request command before after n).2.inFlight := by
  by_cases agrees : n.Agrees before after
  · have idle := prepareSchema_idle n request command before after
    rw [prepareSchema_agreed request command agrees]
    obtain ⟨-, parked⟩ := park_acts (m := n)
      (b := ⟨offered request command before after, n.resources.offer before after⟩) orderly.keyed
      (mayFinish_plain _)
    refine Owned.keptBy.acts parked (owned.offered request command fun id mem _ =>
      ⟨fun promised => unshared ?_, agrees.undone mem⟩)
    exact ⟨⟨command, before, after⟩, rfl, agrees, id, mem, promised,
      fun done => agrees.undone mem (idle.hasDone.1 done)⟩
  · obtain ⟨id, -, answer⟩ :=
      prepareSchema_refused request command ((Bool.not_eq_false _).mp agrees)
    rw [answer]
    obtain ⟨-, parked⟩ := park_acts (m := n)
      (b := ⟨refused request command before after, n.resources⟩) orderly.keyed (mayFinish_plain _)
    have shelved := refused_shelved True request command before after
    exact Owned.keptBy.acts parked (owned.idle (owned.toSound.idle shelved.sane rfl)
      (fun _ promised => promised) (fun _ => rfl) rfl)

/-- A command that is applied as soon as it is agreed to gives its ids up in the same call. What it
shared with another attempt is committed by then, unless the call shares it. -/
theorem owned_settleSchema {apply : Bool} (orderly : n.Orderly)
    (tries : 1 ≤ n.settings.maxAutoRetry) (owned : Owned [] n.inFlight)
    (unshared : ¬ Call.Shares n (.settleSchema request apply)) :
    Owned [] (settleSchema request apply n).2.inFlight := by
  cases judged : Call.judges? n (.settleSchema request apply) with
  | none => exact owned_of_movesBy owned (settleSchema_movesBy orderly judged)
  | some k =>
    cases apply with
    | false => cases judged
    | true =>
      obtain ⟨a, found, -, -, left⟩ := discard_refused orderly judged
      have waits : n.waiting? request = some ⟨a, n.resources⟩ := by
        unfold waiting?
        rw [found]
        rfl
      have rest : Owned [] (n.forget request).inFlight :=
        owned_of_movesBy owned (left ▸ discard_acts orderly waits (mayFinish_plain request))
      obtain ⟨applies, same⟩ := settleSchema_anew orderly tries judged
      by_cases agrees : n.Agrees k.before k.after
      · have begun := (rest.leave [k.before, k.after]).offered request k.command
          fun id mem aside => absurd mem aside
        obtain ⟨registry, acts⟩ := finishSchema_acts (fun _ => trivial)
          { n.forget request with resources := n.resources.offer k.before k.after }
          ⟨offered request k.command k.before k.after, n.resources.offer k.before k.after⟩ rfl
          (mayFinish_plain request)
        have after := Owned.keptBy.acts acts begun
        rw [← applies agrees] at after registry
        have attempts : (settleSchema request true n).2.inFlight.attempts =
            (n.forget request).inFlight.attempts := congrArg Registry.all registry
        refine ⟨after.toSound, attempts ▸ rest.alone, fun c mem id listed _ => ?_⟩
        by_cases aside : id ∈ [k.before, k.after]
        · refine .inr ?_
          rcases rest.backed c (attempts ▸ mem) id listed List.not_mem_nil with promised | done
          · by_contra undone
            exact unshared ⟨k, judged, agrees, id, aside, promised, undone⟩
          · exact RunStep.hasDone (.call (.settleSchema request true)) done
        · exact after.backed c mem id listed aside
      · rw [same agrees]
        exact rest

/-- A call that shares no promise leaves each promise to its owner. -/
theorem Call.owned (orderly : n.Orderly) (tries : 1 ≤ n.settings.maxAutoRetry)
    (owned : Owned [] n.inFlight) {call : Call} (unshared : ¬ call.Shares n) :
    Owned [] (call.perform n).inFlight := by
  cases call with
  | prepare request id changes atOrigin retries =>
    exact owned_of_movesBy owned
      (prepare_acts orderly atOrigin retries trivial (mayFinish_plain request)).1
  | commit request =>
    exact owned_of_movesBy owned
      (commit_acts_of_data orderly (mayFinish_plain request) fun _ _ _ _ _ => trivial)
  | rollback request =>
    exact owned_of_movesBy owned (rollback_acts orderly (mayFinish_plain request))
  | prepareSchema request command before after => exact owned_prepareSchema orderly owned unshared
  | settleSchema request apply => exact owned_settleSchema orderly tries owned unshared

/-- A command that is agreed to while an attempt has one of its ids gets the id as well, or takes
the promise away with the attempt that it replaces. -/
theorem not_exclusive_prepareSchema (orderly : n.Orderly) (agrees : n.Agrees before after)
    (mem : id ∈ [before, after]) (promised : n.resources.HasPromised id) :
    ¬ (prepareSchema request command before after n).2.Exclusive := by
  obtain ⟨x, waits, listed⟩ := orderly.sound.promises id promised
  have found := orderly.keyed.get?_of_mem waits
  have undone : ¬ (prepareSchema request command before after n).2.resources.HasDone id :=
    fun done =>
      agrees.undone mem ((prepareSchema_idle n request command before after).hasDone.1 done)
  intro exclusive
  rw [prepareSchema_agreed request command agrees] at exclusive undone
  have registry := park_registry n
    ⟨offered request command before after, n.resources.offer before after⟩
  have mine : (n.park ⟨offered request command before after,
      n.resources.offer before after⟩).registry.get? request =
        some (offered request command before after) := by
    rw [registry, Registry.get?_insert]
    exact if_pos rfl
  by_cases same : x.request = request
  · refine undone ((exclusive.kept request _ mine rfl id mem).resolve_left fun still => ?_)
    have replaced : n.registry.get? (offered request command before after).request = some x :=
      same ▸ found
    dsimp only at still
    unfold park Registry.register at still
    rw [replaced] at still
    have live := (orderly.sound.sane x waits).live
    exact (((released_destroy (b := ⟨x, n.resources.offer before after⟩) live).promised
      _ _).1 still).2 listed
  · refine exclusive.apart request x.request _ x (Ne.symm same) mine ?_ id mem listed
    rw [registry, Registry.get?_insert]
    exact (if_neg same).trans found

/-- A command that is applied as soon as it is agreed to takes the promise of an id away that it
does not commit, though another attempt has it. -/
theorem not_exclusive_settleSchema (orderly : n.Orderly) (tries : 1 ≤ n.settings.maxAutoRetry)
    {k : Bracket} (judged : Call.judges? n (.settleSchema request true) = some k)
    (agrees : n.Agrees k.before k.after) (mem : id ∈ [k.before, k.after])
    (promised : n.resources.HasPromised id)
    (undone : ¬ (settleSchema request true n).2.resources.HasDone id) :
    ¬ (settleSchema request true n).2.Exclusive := by
  obtain ⟨x, waits, listed⟩ := orderly.sound.promises id promised
  have found := orderly.keyed.get?_of_mem waits
  have success := (orderly.sound.sane x waits).success_of_promised listed
  obtain ⟨a, refused, status, -, -⟩ := discard_refused orderly judged
  have other : x.request ≠ request := by
    rintro same
    rw [same, refused, Option.some.injEq] at found
    exact status (found ▸ success)
  intro exclusive
  rw [(settleSchema_anew orderly tries judged).1 agrees] at exclusive undone
  have stays : (finishSchema ⟨offered request k.command k.before k.after,
      n.resources.offer k.before k.after⟩ k.command k.before k.after { n.forget request with
        resources := n.resources.offer k.before k.after }).2.registry.get? x.request = some x := by
    rw [finishSchema_registry]
    exact Registry.get?_erase.trans ((if_neg other).trans found)
  refine undone ((exclusive.kept x.request x stays success id listed).resolve_left ?_)
  exact (finishSchema_frees request k.command _ _ mem).resolve_left undone

theorem Call.not_exclusive (orderly : n.Orderly) (tries : 1 ≤ n.settings.maxAutoRetry) {call : Call}
    (shares : call.Shares n) : ¬ (call.perform n).Exclusive := by
  obtain ⟨k, judged, agrees, id, mem, promised, undone⟩ := shares
  cases call with
  | prepare | commit | rollback => cases judged
  | prepareSchema request command before after =>
    cases judged
    exact not_exclusive_prepareSchema orderly agrees mem promised
  | settleSchema request apply =>
    cases apply with
    | false => cases judged
    | true => exact not_exclusive_settleSchema orderly tries judged agrees mem promised undone

theorem Started.owned {self : Nat} {settings : Settings} {store : Store}
    (h : n.Started self settings store) (built : store.Built) : Owned [] n.inFlight := by
  have orderly := h.orderly built
  refine ⟨orderly.sound, ?_, ?_⟩
  · rw [h.inFlight]
    exact Multiset.nodup_zero
  · rw [h.inFlight]
    exact nofun

/-- What holds along a run from an opened node as long as no promise is shared. -/
structure Owning (n : Node) : Prop extends Orderly n where
  tries : 1 ≤ n.settings.maxAutoRetry
  owned : Owned [] n.inFlight

theorem Owning.exclusive (h : n.Owning) : n.Exclusive := exclusive_of_owned h.owned

theorem Owning.perform (h : n.Owning) {call : Call} (unshared : ¬ call.Shares n) :
    (call.perform n).Owning where
  toOrderly := h.toOrderly.runStep (.call call)
  tries := by
    rw [(onward_call (.start n) call).settings]
    exact h.tries
  owned := call.owned h.toOrderly h.tries h.owned unshared

theorem Owning.performAll (h : n.Owning) {calls : List Call} (unshared : n.Unshared calls) :
    (n.performAll calls).Owning := by
  induction calls generalizing n with
  | nil => exact h
  | cons call rest ih => exact ih (h.perform unshared.1) unshared.2

theorem Unshared.take {done calls : List Call} (h : n.Unshared calls) (part : done <+: calls) :
    n.Unshared done := by
  induction done generalizing n calls with
  | nil => trivial
  | cons call rest ih =>
    obtain ⟨left, rfl⟩ := part
    exact ⟨h.1, ih h.2 (List.prefix_append rest left)⟩

/-- The promises are exclusive all along a run just when no call shares one. -/
theorem Owning.exclusive_iff (h : n.Owning) (calls : List Call) :
    (∀ done, done <+: calls → (n.performAll done).Exclusive) ↔ n.Unshared calls := by
  constructor
  · intro all
    induction calls generalizing n with
    | nil => trivial
    | cons call rest ih =>
      have unshared : ¬ call.Shares n := fun shares =>
        call.not_exclusive h.toOrderly h.tries shares
          (all [call] (List.prefix_append [call] rest))
      refine ⟨unshared, ih (h.perform unshared) fun done part => ?_⟩
      exact all (call :: done) (List.cons_prefix_cons.2 ⟨rfl, part⟩)
  · exact fun unshared done part => (h.performAll (unshared.take part)).exclusive

/-- Along any run from an opened node the promises are exclusive just when no command is taken on
that shares one. Then no attempt that is given up withdraws a promise that another one lists. -/
theorem openOn_exclusive_iff {database name : String} {self : Nat} {settings : Settings}
    {store : Store} {disk : FileTree}
    (opened : openOn database name self settings store disk = .ok n)
    (built : store.Built) (calls : List Call) :
    ((∀ done, done <+: calls → (n.performAll done).Exclusive) ↔ n.Unshared calls) ∧
      (n.Unshared calls → ∀ done, done <+: calls → ∀ q q' a a', q ≠ q' →
        (n.performAll done).registry.get? q = some a →
        (n.performAll done).registry.get? q' = some a' → ∀ id ∈ a'.promised,
          (n.performAll done).resources.HasPromised id →
            (a.discard (n.performAll done).resources).HasPromised id) := by
  have started := openOn_started opened
  have owning : n.Owning := ⟨started.orderly built, started.tries, started.owned built⟩
  refine ⟨owning.exclusive_iff calls, ?_⟩
  intro unshared done part q q' a a' ne found found' id listed promised
  have here := owning.performAll (unshared.take part)
  exact here.exclusive.discard here.toOrderly ne found found' listed promised

/-- A change set has the first of the two ids of a command. The command is agreed to, and is given
up. -/
def overlap : List Call :=
  [.prepare ⟨2, 1⟩ ⟨2, 1⟩ (ChangeSet.empty.create "person" 9 [1]) false 0,
    .prepareSchema ⟨2, 2⟩ "noop" ⟨2, 1⟩ ⟨2, 2⟩, .rollback ⟨2, 2⟩]

def side : List Call :=
  [.prepare ⟨2, 1⟩ ⟨2, 1⟩ (ChangeSet.empty.create "person" 9 [1]) false 0,
    .prepareSchema ⟨2, 2⟩ "noop" ⟨2, 2⟩ ⟨2, 3⟩, .rollback ⟨2, 2⟩]

def roomy : Settings := { Settings.default with pipelineDepth := 2 }

def vacant : Node where
  database := "db"
  name := "a"
  settings := roomy
  resources := ⟨.empty, .inMemory 1 2, .empty none, .empty⟩
  registry := .empty
  meter := .zero
  asks := 0

theorem openOn_exclusive_iff_overlap :
    openOn "db" "a" 1 roomy (.empty none) .empty = .ok vacant ∧
      vacant.Unshared side ∧ (vacant.performAll (side.take 2)).Exclusive ∧
      ¬ vacant.Unshared overlap ∧
      ¬ ∀ done, done <+: overlap → (vacant.performAll done).Exclusive := by
  have opened : openOn "db" "a" 1 roomy (.empty none) .empty = .ok vacant := rfl
  have apart : vacant.Unshared side := by decide +kernel
  have shared : ¬ vacant.Unshared overlap := by decide +kernel
  have all := (openOn_exclusive_iff opened (.empty none) side).1.2 apart
  exact ⟨opened, apart, all _ (List.take_prefix 2 side), shared,
    fun exclusive => shared ((openOn_exclusive_iff opened (.empty none) overlap).1.1 exclusive)⟩

/-- The first phases are told for two requests, and both attempts list the same id. When the one is
given up, the other still lists the id as its promise, but the node knows of none. -/
theorem not_exclusive_overlap :
    openOn "db" "a" 1 roomy (.empty none) .empty = .ok vacant ∧
      ((overlap.filter (·.job?.isSome)).map Call.request).Nodup ∧
      (∃ a a', (vacant.performAll (overlap.take 2)).registry.get? ⟨2, 1⟩ = some a ∧
        (vacant.performAll (overlap.take 2)).registry.get? ⟨2, 2⟩ = some a' ∧
        ⟨2, 1⟩ ∈ a.promised ∧ ⟨2, 1⟩ ∈ a'.promised) ∧
      ∃ a, (vacant.performAll overlap).registry.get? ⟨2, 1⟩ = some a ∧ a.status = .success ∧
        ⟨2, 1⟩ ∈ a.promised ∧ ¬ (vacant.performAll overlap).resources.HasPromised ⟨2, 1⟩ ∧
        ¬ (vacant.performAll overlap).resources.HasDone ⟨2, 1⟩ := by
  have first : ((vacant.performAll (overlap.take 2)).registry.get? ⟨2, 1⟩).map (·.promised) =
      some [⟨2, 1⟩] := by decide +kernel
  have second : ((vacant.performAll (overlap.take 2)).registry.get? ⟨2, 2⟩).map (·.promised) =
      some [⟨2, 1⟩, ⟨2, 2⟩] := by decide +kernel
  have left : ((vacant.performAll overlap).registry.get? ⟨2, 1⟩).map
      (fun a => (a.status, a.promised)) = some (.success, [⟨2, 1⟩]) := by decide +kernel
  obtain ⟨a, found, lists⟩ := Option.map_eq_some_iff.1 first
  obtain ⟨a', found', lists'⟩ := Option.map_eq_some_iff.1 second
  obtain ⟨c, stays, listing⟩ := Option.map_eq_some_iff.1 left
  obtain ⟨success, listed⟩ := Prod.mk.inj listing
  refine ⟨rfl, by decide, ⟨a, a', found, found', by simp [lists], by simp [lists']⟩, ?_⟩
  exact ⟨c, stays, success, by simp [listed], by decide +kernel, by decide +kernel⟩

end Node

end QuorumCommit
