import QuorumCommit.Proofs.Cluster.RoundParts
import QuorumCommit.Proofs.Cluster.Steady

/-!
Ids that are out. An id that is issued is out until it is taken back, and for good once it is
committed; while it is out it is not issued again. The id taken back last, if it is smaller than all
others that were taken back, is the next one issued.
-/
namespace QuorumCommit

namespace Slot

variable {s s' : Slot} {n : Nat} {known out : List Nat}

/-- The places `known` were issued before, and of them those in `out` will not be issued again. Only
issued places are taken back. -/
structure Books (s : Slot) (known out : List Nat) : Prop where
  known : ∀ k ∈ known, k < s.nextIssue
  recycled : ∀ k ∈ s.recycled, k < s.nextIssue
  out : ∀ k ∈ out, k ≤ s.last ∨ (k < s.nextIssue ∧ k ∉ s.recycled)

def Leads (n : Nat) (s : Slot) : Prop := ∀ k ∈ s.recycled, n < k

theorem Books.start (none : s.recycled = ∅) : s.Books [] [] :=
  ⟨nofun, fun k mem => by simp [none] at mem, nofun⟩

theorem Books.mono {known' out' : List Nat} (h : s.Books known out) (less : known' ⊆ known)
    (fewer : out' ⊆ out) : s.Books known' out' :=
  ⟨fun k mem => h.known k (less mem), h.recycled, fun k mem => h.out k (fewer mem)⟩

theorem Books.onward (h : s.Books known out) (onward : s.Onward s') : s'.Books known out where
  known k mem := Nat.lt_of_lt_of_le (h.known k mem) onward.nextIssue
  recycled k mem := Nat.lt_of_lt_of_le (h.recycled k (onward.recycled k mem)) onward.nextIssue
  out k mem := by
    rcases h.out k mem with done | ⟨issued, kept⟩
    · exact .inl (Nat.le_trans done onward.last)
    · exact .inr ⟨Nat.lt_of_lt_of_le issued onward.nextIssue,
        fun mem => kept (onward.recycled k mem)⟩

theorem Leads.onward (h : s.Leads n) (onward : s.Onward s') : s'.Leads n :=
  fun k mem => h k (onward.recycled k mem)

/-- The place that is issued was not out, and is now; it comes before all that were taken back. -/
theorem Books.issue (h : s.Books known out) (words : s.HasWords 1) :
    s.last < s.issue.1 ∧ s.issue.1 ∉ out ∧
      s.issue.2.Books (s.issue.1 :: known) (s.issue.1 :: out) ∧ s.issue.2.Leads s.issue.1 := by
  unfold Slot.issue
  cases free : (s.recycled.filter s.isFree).toList.head? with
  | some n =>
    obtain ⟨mem, after, -, -⟩ := head?_free_eq_some free
    have issued := h.recycled n mem
    have less (k : Nat) (kept : k ∈ s.recycled.filter (n < ·)) : k ∈ s.recycled ∧ n < k := by
      simpa [Std.ExtTreeSet.mem_filter] using kept
    refine ⟨after, fun taken => ?_, ⟨?_, fun k kept => h.recycled k (less k kept).1, ?_⟩,
      fun k kept => (less k kept).2⟩
    · rcases h.out n taken with done | ⟨-, kept⟩
      · omega
      · exact kept mem
    · exact List.forall_mem_cons.2 ⟨issued, h.known⟩
    · refine List.forall_mem_cons.2 ⟨.inr ⟨issued, fun kept => ?_⟩, fun k mem => ?_⟩
      · exact absurd (less n kept).2 (Nat.lt_irrefl n)
      · exact (h.out k mem).imp_right fun ⟨issued, kept⟩ =>
          ⟨issued, fun mem => kept (less k mem).1⟩
  | none =>
    unfold HasWords at words
    dsimp only
    rw [Sequencer.following_eq (n := s.last) (by omega), Sequencer.following_eq words]
    refine ⟨by omega, fun taken => ?_, ⟨?_, fun k mem => by simp at mem, ?_⟩,
      fun k mem => by simp at mem⟩
    · have known := h.out _ taken
      omega
    · refine List.forall_mem_cons.2 ⟨Nat.lt_succ_self _, fun k mem => ?_⟩
      exact Nat.lt_succ_of_le (Nat.le_trans (Nat.le_of_lt (h.known k mem)) (Nat.le_max_left _ _))
    · refine List.forall_mem_cons.2 ⟨.inr ⟨Nat.lt_succ_self _, by simp⟩, fun k mem => ?_⟩
      refine (h.out k mem).imp_right fun ⟨issued, _⟩ => ⟨?_, by simp⟩
      exact Nat.lt_succ_of_le (Nat.le_trans (Nat.le_of_lt issued) (Nat.le_max_left _ _))

/-- A place that is not out may be taken back. -/
theorem Books.recycle (h : s.Books known out) (issued : n ∈ known) (back : n ∉ out) :
    (s.recycle n).Books known out := by
  unfold Slot.recycle
  split
  · have mem (k : Nat) : k ∈ s.recycled.insert n ↔ n = k ∨ k ∈ s.recycled := by
      rw [Std.ExtTreeSet.mem_insert, Std.compare_eq_iff_eq]
    refine ⟨h.known, fun k kept => ?_, fun k taken => ?_⟩
    · rcases (mem k).1 kept with rfl | kept
      · exact h.known n issued
      · exact h.recycled k kept
    · refine (h.out k taken).imp_right fun ⟨issued, kept⟩ => ⟨issued, fun here => ?_⟩
      rcases (mem k).1 here with rfl | here
      · exact back taken
      · exact kept here
  · exact h

/-- A place that is neither committed nor promised comes back at once if it leads those that were
taken back. -/
theorem Leads.issue_recycle (h : s.Leads n) (after : s.last < n) (free : n ∉ s.promised) :
    (s.recycle n).issue.1 = n := by
  have ready : s.isFree n = true := isFree_iff.2 ⟨after, free⟩
  unfold Slot.recycle
  rw [if_pos ready]
  generalize taken : ({ s with recycled := s.recycled.insert n } : Slot) = u
  have recycled : u.recycled = s.recycled.insert n := by rw [← taken]
  have last : u.last = s.last := by rw [← taken]
  have promised : u.promised = s.promised := by rw [← taken]
  have here : n ∈ u.recycled := by simp [recycled]
  unfold Slot.issue
  cases next : (u.recycled.filter u.isFree).toList.head? with
  | some k =>
    obtain ⟨mem, -, -, least⟩ := head?_free_eq_some next
    have le : k ≤ n := least n here (last ▸ after) (promised ▸ free)
    rw [recycled, Std.ExtTreeSet.mem_insert, Std.compare_eq_iff_eq] at mem
    rcases mem with rfl | mem
    · rfl
    · have behind := h k mem
      omega
  | none => exact absurd (promised ▸ head?_free_eq_none next n here (last ▸ after)) free

end Slot

namespace Node

variable {n m : Node} {G G' : Node → Prop} {own k : Nat} {known out : List Nat}

structure Books (own : Nat) (known out : List Nat) (n : Node) : Prop where
  origin : n.sequencer.origin = own
  slot : (n.sequencer.slot own).Books known out

theorem Books.mono {known' out' : List Nat} (h : n.Books own known out) (less : known' ⊆ known)
    (fewer : out' ⊆ out) : n.Books own known' out' :=
  ⟨h.origin, h.slot.mono less fewer⟩

theorem steady_books (own : Nat) (known out : List Nat) : Steady (Books own known out) :=
  fun _ _ onward h =>
    ⟨onward.sequencer.origin.trans h.origin, h.slot.onward (onward.sequencer.slots own)⟩

theorem steady_leads (own k : Nat) : Steady fun n => (n.sequencer.slot own).Leads k :=
  fun _ _ onward h => h.onward (onward.sequencer.slots own)

theorem steady_hasDone (id : TxId) : Steady fun n => n.resources.HasDone id :=
  fun _ _ onward h => Nat.le_trans h (onward.sequencer.slots id.origin).last

theorem Steady.and (h : Steady G) (h' : Steady G') : Steady fun n => G n ∧ G' n :=
  fun n m onward holds => ⟨h n m onward holds.1, h' n m onward holds.2⟩

theorem Started.books {settings : Settings} {store : Store} (h : n.Started own settings store) :
    n.Books own [] [] :=
  ⟨h.origin, .start (h.recycled own)⟩

def HasWords (own count : Nat) (n : Node) : Prop := (n.sequencer.slot own).HasWords count

instance (own count : Nat) : DecidablePred (HasWords own count) := fun n =>
  inferInstanceAs (Decidable ((n.sequencer.slot own).HasWords count))

/-- What issuing an id does to the books. -/
theorem Books.nextId {count : Nat} (h : n.Books own known out)
    (words : n.HasWords own (count + 1)) :
    n.sequencer.nextId.1.origin = own ∧ n.sequencer.nextId.1.sequence ∉ out ∧
      (n.withSequencer n.sequencer.nextId.2).Books own (n.sequencer.nextId.1.sequence :: known)
        (n.sequencer.nextId.1.sequence :: out) ∧
      ((n.withSequencer n.sequencer.nextId.2).sequencer.slot own).Leads
        n.sequencer.nextId.1.sequence ∧
      (n.sequencer.slot own).last < n.sequencer.nextId.1.sequence ∧
      (n.withSequencer n.sequencer.nextId.2).HasWords own count := by
  obtain ⟨after, back, books, leads⟩ := h.slot.issue (words.mono (Nat.le_add_left 1 count))
  have slot : (n.withSequencer n.sequencer.nextId.2).sequencer.slot own =
      (n.sequencer.slot own).issue.2 := by
    unfold withSequencer Sequencer.nextId
    rw [h.origin]
    exact (Sequencer.slot_setSlot _ _ _ _).trans (if_pos rfl)
  have place : n.sequencer.nextId.1.sequence = (n.sequencer.slot own).issue.1 := by
    unfold Sequencer.nextId
    rw [h.origin]
  rw [place]
  refine ⟨h.origin, back, ⟨h.origin, ?_⟩, ?_, after, ?_⟩
  · rw [slot]
    exact books
  · rw [slot]
    exact leads
  · unfold HasWords
    rw [slot]
    exact Slot.HasWords.issue words

theorem Books.releaseId (h : n.Books own known out) {id : TxId} (mine : id.origin = own)
    (issued : id.sequence ∈ known) (back : id.sequence ∉ out) :
    (n.withSequencer (n.sequencer.releaseId id)).Books own known out := by
  obtain ⟨origin, k⟩ := id
  obtain rfl : origin = own := mine
  unfold Sequencer.releaseId
  rw [if_pos h.origin.symm]
  refine ⟨h.origin, ?_⟩
  have slot := (Sequencer.slot_onSlot n.sequencer origin origin (·.recycle k)).trans (if_pos rfl)
  refine (congrArg (Slot.Books · known out) slot).mpr ?_
  exact h.slot.recycle issued back

/-- An id that is taken back comes next if it leads those that were taken back before, unless it is
committed or promised. -/
theorem nextId_releaseId {id : TxId} (origin : n.sequencer.origin = id.origin)
    (leads : (n.sequencer.slot id.origin).Leads id.sequence) (undone : ¬ n.resources.HasDone id)
    (free : ¬ n.resources.HasPromised id) : (n.sequencer.releaseId id).nextId.1 = id := by
  have slot := (Sequencer.slot_onSlot n.sequencer id.origin id.origin
    (·.recycle id.sequence)).trans (if_pos rfl)
  have same : (n.sequencer.onSlot id.origin (·.recycle id.sequence)).origin = id.origin := origin
  unfold Sequencer.releaseId Sequencer.nextId
  rw [if_pos origin.symm]
  dsimp only
  rw [same, slot, leads.issue_recycle (Nat.lt_of_not_le undone) free]

end Node

namespace Cluster

open Node

variable {G : Node → Prop} {name command : String} {own count : Nat} {known out : List Nat}
  {c c' : Cluster} {before after : TxId} {changes : ChangeSet}

theorem framed_hasWords (own count : Nat) : Framed (HasWords own count) := by
  intro n m _ _ resources words
  unfold HasWords Node.sequencer
  rw [resources]
  exact words

/-- The id that a member takes was not out. -/
theorem takeId_books (h : c.Running (Books own known out) name own)
    (words : c.Running (HasWords own (count + 1)) name own) : ∃ id c',
    takeId name c = (.ok id, c') ∧ id.origin = own ∧ 0 < id.sequence ∧ id.sequence ∉ out ∧
      c'.Running (fun n => n.Books own (id.sequence :: known) (id.sequence :: out) ∧
        (n.sequencer.slot own).Leads id.sequence) name own ∧
      c'.Running (HasWords own count) name own := by
  obtain ⟨n, station, books, words⟩ := h.and words
  obtain ⟨mine, new, books, leads, behind, words⟩ :=
    ((steady_framed (steady_books own known out)).lend books).nextId (n := c.lend n)
      ((framed_hasWords own _).lend words)
  refine ⟨(c.lend n).sequencer.nextId.1, _, ?_, mine, Nat.zero_lt_of_lt behind, new,
    (steady_framed ((steady_books own _ _).and (steady_leads own _))).takeBack station
      ⟨books, leads⟩, (framed_hasWords own count).takeBack station words⟩
  unfold takeId atNode
  rw [node?_of_station? station]

/-- An id that is not out may be given back. -/
theorem keeps_giveBackId_books {id : TxId} (mine : id.origin = own) (issued : id.sequence ∈ known)
    (back : id.sequence ∉ out) :
    Step.Keeps (Running (Books own known out) name own) (giveBackId name id) :=
  keeps_atNode (steady_framed (steady_books own known out)) fun _ books =>
    books.releaseId mine issued back

/-- An attempt begins with an id that was not out. -/
theorem begin_books (h : c.Running (Books own known out) name own)
    (words : c.Running (HasWords own 1) name own) (number : Nat) : ∃ id c',
    begin name number c = (.ok id, c') ∧ id.origin = own ∧ 0 < id.sequence ∧ id.sequence ∉ out ∧
      c'.Running (fun n => n.Books own (id.sequence :: known) (id.sequence :: out) ∧
        (n.sequencer.slot own).Leads id.sequence) name own := by
  have framed := (steady_framed (steady_books own known out)).and (framed_hasWords own 1)
  refine begin_of_takeId framed (R := fun r => ∃ id c', r = (.ok id, c') ∧ id.origin = own ∧
    0 < id.sequence ∧ id.sequence ∉ out ∧
      c'.Running (fun n => n.Books own (id.sequence :: known) (id.sequence :: out) ∧
        (n.sequencer.slot own).Leads id.sequence) name own) ?_ (h.and words) number
  intro c both
  obtain ⟨id, c', taken, mine, positive, new, running, -⟩ :=
    takeId_books (both.mono fun _ => And.left) (both.mono fun _ => And.right)
  exact ⟨id, c', taken, mine, positive, new, running⟩

/-- An attempt gives back its own id alone. -/
theorem attempt_books (h : c.Running (Books own known out) name own)
    (words : c.Running (HasWords own 1) name own) (number : Nat) :
    (attempt name changes number c).2.Running (Books own known out) name own := by
  obtain ⟨id, c₁, begun, mine, -, new, running⟩ := begin_books h words number
  have steady := steady_books own (id.sequence :: known) (id.sequence :: out)
  have submitted := ((keeps_submit (steady_lasting steady own)
    (steady_drafts steady name own id changes)).bind fun final =>
      .pure (⟨id, final⟩ : Committed)) c₁ (running.mono fun _ => And.left)
  have forget {c : Cluster} {known' : List Nat} (less : known ⊆ known')
      (h : c.Running (Books own known' out) name own) :
      c.Running (Books own known out) name own :=
    h.mono fun n books => books.mono less (List.Subset.refl out)
  rw [attempt_eq, Step.bind_apply, begun]
  dsimp only
  rw [Step.tryCatch_apply]
  generalize (do
    let final ← submit name id changes
    pure (⟨id, final⟩ : Committed) : Step Cluster Committed) c₁ = r at submitted ⊢
  have submitted : r.2.Running (Books own (id.sequence :: known) out) name own :=
    submitted.mono fun n books => books.mono (List.Subset.refl _) (List.subset_cons_self _ _)
  have less := List.subset_cons_self id.sequence known
  rcases r with ⟨fault | done, c₂⟩
  · exact forget less (((keeps_giveBackId_books mine List.mem_cons_self new).bind fun _ =>
      .throw fault) c₂ submitted)
  · exact forget less submitted

/-- Ids of a round that are not out are given back. -/
theorem keeps_endRound_books {ids stale : List TxId}
    (ok : ∀ id ∈ ids, id ∉ stale →
      id.origin = own ∧ id.sequence ∈ known ∧ id.sequence ∉ out) :
    Step.Keeps (Running (Books own known out) name own) (endRound name ids stale) := by
  have framed := steady_framed (steady_books own known out)
  have given (l : List TxId)
      (ok : ∀ id ∈ l, id.origin = own ∧ id.sequence ∈ known ∧ id.sequence ∉ out) :
      Step.Keeps (Running (Books own known out) name own) (l.forM (giveBackId name)) := by
    induction l with
    | nil => exact .pure _
    | cons id rest ih =>
      obtain ⟨⟨mine, issued, back⟩, later⟩ := List.forall_mem_cons.1 ok
      exact (keeps_giveBackId_books mine issued back).bind fun _ => ih later
  unfold endRound
  refine (given _ fun id mem => ?_).bind fun _ => ?_
  · obtain ⟨listed, fresh⟩ := List.mem_filter.1 mem
    exact ok id listed (by simpa using fresh)
  · split
    · exact .pure _
    · exact keeps_atNode framed fun n h => framed n _ rfl rfl rfl h

/-- A round that is not applied is ended. -/
theorem keeps_closeRound {ids : List TxId} (round : Round)
    (ended : Step.Keeps (Running G name own) (endRound name ids round.stale)) :
    Step.Keeps (Running G name own) (closeRound name ids round) := by
  intro c h
  rw [closeRound_snd]
  split
  · exact h
  · exact ended c h

/-- What a round leaves to the member is what ending it does, if the ids are not given back that the
answers report. -/
theorem running_schemaRound (lasting : Lasting G own) (offers : Offers G own command before after)
    (origin : ∀ n, G n → n.sequencer.origin = own) (h : c.Running G name own)
    (ended : ∀ stale,
      (∀ p c₂, schemaPoll name command before after c = (.ok p, c₂) →
        stale = p.tally.committedElsewhere own) →
      Step.Keeps (Running G name own) (endRound name [after, before] stale)) :
    (schemaRound name command before after c).2.Running G name own := by
  obtain ⟨n, station, holds⟩ := id h
  obtain ⟨c₁, message, same, ⟨fault, polled, offered⟩ | ⟨nodes, quorum, polled, offered⟩⟩ :=
    offerIds_parts station (origin n holds) command before after
  · rw [schemaRound_eq, Step.bind_apply, offered]
    refine keeps_closeRound ⟨.error fault, []⟩ (ended [] fun p c₂ ok => ?_) _
      (keeps_count lasting.framed _ c₁ (h.of_station same))
    rw [polled] at ok
    cases ok
  · obtain ⟨c₂, round, apply, -, parts, -, stale⟩ := offerSchema_parts (same.trans station)
      (origin n holds) command before after ⟨own, message⟩ nodes quorum
    have kept := keeps_offerSchema lasting offers message nodes quorum c₁ (h.of_station same)
    rw [schemaRound_eq, Step.bind_apply, offered, parts]
    rw [parts] at kept
    refine keeps_closeRound round (ended round.stale fun p c₃ ok => ?_) _ kept
    rw [polled] at ok
    rw [stale, ok]
    rfl

end Cluster

end QuorumCommit
