import QuorumCommit.Proofs.Wire.Truncation
import QuorumCommit.Wire.Task

/-!
Tasks come back from their bytes, whatever follows them, and from no part of their bytes. The one
condition is that a task fits the widths of the form: numbers their words, lengths eight bytes.
-/
namespace QuorumCommit

open Text Wire

namespace Wire

variable {α κ : Type}

def TextSized (s : String) : Prop := (Utf8.encode s).length < bound 8

instance (s : String) : Decidable (TextSized s) := inferInstanceAs (Decidable (_ < _))

def SignedSized (width : Nat) (n : Int) : Prop :=
  -(bound width : Int) ≤ 2 * n ∧ 2 * n < bound width

instance (width : Nat) (n : Int) : Decidable (SignedSized width n) :=
  inferInstanceAs (Decidable (_ ∧ _))

def ListSized (sized : α → Prop) (as : List α) : Prop := as.length < bound 8 ∧ ∀ a ∈ as, sized a

instance (sized : α → Prop) [DecidablePred sized] (as : List α) : Decidable (ListSized sized as) :=
  inferInstanceAs (Decidable (_ ∧ _))

theorem ListSized.reads {sized : α → Prop} {read : Reader α} {write : α → List UInt8} {as : List α}
    (h : ListSized sized as) (each : ∀ {a}, sized a → Reads read (write a) a) :
    Reads (readList read) (list write as) as :=
  reads_list (fun a mem => each (h.2 a mem)) h.1

def MapSized (sized : α → Prop) (m : Std.ExtTreeMap String α) : Prop :=
  ListSized (fun e => TextSized e.1 ∧ sized e.2) m.toList

instance (sized : α → Prop) [DecidablePred sized] (m : Std.ExtTreeMap String α) :
    Decidable (MapSized sized m) := inferInstanceAs (Decidable (ListSized _ _))

theorem MapSized.reads {sized : α → Prop} {read : Reader α} {write : α → List UInt8}
    {m : Std.ExtTreeMap String α} (h : MapSized sized m)
    (each : ∀ {a}, sized a → Reads read (write a) a) :
    Reads (readMap readString read) (map string write m) m := by
  refine reads_map (fun k a known => ?_) (by simpa using h.1)
  obtain ⟨key, value⟩ := h.2 (k, a) (Std.ExtTreeMap.mem_toList_iff_getElem?_eq_some.2 known)
  exact ⟨reads_string key, each value⟩

end Wire

namespace TxId

def Sized (t : TxId) : Prop := t.origin < bound 4 ∧ t.sequence < bound 8

instance (t : TxId) : Decidable t.Sized := inferInstanceAs (Decidable (_ ∧ _))

theorem Sized.reads {t : TxId} (h : t.Sized) : Reads reader t.toBytes t :=
  (reads_word h.1).bind (reads_word h.2).map

theorem local_reader : Local reader := (local_word 4).bind fun _ => (local_word 8).map _

end TxId

namespace RequestId

def Sized (r : RequestId) : Prop := r.node < bound 4 ∧ r.message < bound 8

instance (r : RequestId) : Decidable r.Sized := inferInstanceAs (Decidable (_ ∧ _))

theorem Sized.reads {r : RequestId} (h : r.Sized) : Reads reader r.toBytes r :=
  (reads_word h.1).bind (reads_word h.2).map

theorem local_reader : Local reader := (local_word 4).bind fun _ => (local_word 8).map _

end RequestId

namespace RecordId

def Sized (r : RecordId) : Prop := SignedSized 4 r.cluster ∧ SignedSized 8 r.position

instance (r : RecordId) : Decidable r.Sized := inferInstanceAs (Decidable (_ ∧ _))

theorem Sized.reads {r : RecordId} (h : r.Sized) : Reads reader r.toBytes r :=
  (reads_signed h.1.1 h.1.2).bind (reads_signed h.2.1 h.2.2).map

theorem local_reader : Local reader := (local_signed 4).bind fun _ => (local_signed 8).map _

end RecordId

namespace ChangeKind

theorem reads (k : ChangeKind) : Reads reader k.toBytes k := by
  cases k with
  | created => exact (reads_case (n := 0) (by decide) (by decide)).last (.pure _)
  | updated => exact (reads_case (n := 1) (by decide) (by decide)).last (.pure _)
  | deleted => exact (reads_case (n := 2) (by decide) (by decide)).last (.pure _)

theorem local_reader : Local reader := by
  refine (local_case 3).bind fun n => ?_
  split <;> exact .pure _

end ChangeKind

namespace RecordChange

def Sized (c : RecordChange) : Prop :=
  c.record.Sized ∧ TextSized c.clusterName ∧ c.version < bound 4 ∧ c.content.length < bound 8

instance (c : RecordChange) : Decidable c.Sized := inferInstanceAs (Decidable (_ ∧ _))

theorem Sized.reads {c : RecordChange} (h : c.Sized) : Reads reader c.toBytes c := by
  obtain ⟨record, clusterName, version, content⟩ := h
  unfold toBytes
  simp only [List.append_assoc]
  refine record.reads.bind ((reads_string clusterName).bind (c.kind.reads.bind ?_))
  exact (reads_word version).bind (reads_list (fun b _ => reads_byte b) content).map

theorem local_reader : Local reader :=
  RecordId.local_reader.bind fun _ => local_string.bind fun _ =>
    ChangeKind.local_reader.bind fun _ =>
    (local_word 4).bind fun _ => (local_list local_byte).map _

end RecordChange

namespace IndexAction

theorem reads (a : IndexAction) : Reads reader a.toBytes a := by
  cases a with
  | put => exact (reads_case (n := 0) (by decide) (by decide)).last (.pure _)
  | remove => exact (reads_case (n := 1) (by decide) (by decide)).last (.pure _)

theorem local_reader : Local reader := by
  refine (local_case 2).bind fun n => ?_
  split <;> exact .pure _

end IndexAction

namespace IndexEdit

def Sized (e : IndexEdit) : Prop := ∀ r ∈ e.value, r.Sized

instance (e : IndexEdit) : Decidable e.Sized := inferInstanceAs (Decidable (∀ r ∈ e.value, _))

theorem Sized.reads {e : IndexEdit} (h : e.Sized) : Reads reader e.toBytes e :=
  e.action.reads.bind (reads_option fun r known => (h r known).reads).map

theorem local_reader : Local reader :=
  IndexAction.local_reader.bind fun _ => (local_option RecordId.local_reader).map _

end IndexEdit

namespace IndexEdits

def Sized (e : IndexEdits) : Prop :=
  MapSized (ListSized IndexEdit.Sized) e.keyed ∧ ListSized IndexEdit.Sized e.unkeyed

instance (e : IndexEdits) : Decidable e.Sized := inferInstanceAs (Decidable (_ ∧ _))

theorem Sized.reads {e : IndexEdits} (h : e.Sized) : Reads reader e.toBytes e :=
  (h.1.reads fun edits => edits.reads fun edit => edit.reads).bind
    (h.2.reads fun edit => edit.reads).map

theorem local_reader : Local reader :=
  (local_map local_string (local_list IndexEdit.local_reader)).bind fun _ =>
    (local_list IndexEdit.local_reader).map _

end IndexEdits

namespace ChangeSet

def Sized (t : ChangeSet) : Prop :=
  ListSized RecordChange.Sized t.changes ∧ MapSized IndexEdits.Sized t.indexes ∧
    SignedSized 8 t.created

instance (t : ChangeSet) : Decidable t.Sized := inferInstanceAs (Decidable (_ ∧ _))

theorem Sized.reads {t : ChangeSet} (h : t.Sized) : Reads reader t.toBytes t := by
  obtain ⟨changes, indexes, created⟩ := h
  unfold toBytes
  rw [List.append_assoc]
  refine (changes.reads fun change => change.reads).bind ?_
  exact (indexes.reads fun edits => edits.reads).bind (reads_signed created.1 created.2).map

theorem local_reader : Local reader :=
  (local_list RecordChange.local_reader).bind fun _ =>
    (local_map local_string IndexEdits.local_reader).bind fun _ => (local_signed 8).map _

end ChangeSet

namespace Task

def Sized : Task → Prop
  | firstPhase request id changes => request.Sized ∧ id.Sized ∧ changes.Sized
  | secondPhase request _ | schemaSecondPhase request _ => request.Sized
  | schemaFirstPhase request command before after =>
    request.Sized ∧ TextSized command ∧ before.Sized ∧ after.Sized

instance : (t : Task) → Decidable t.Sized
  | firstPhase request id changes =>
    inferInstanceAs (Decidable (request.Sized ∧ id.Sized ∧ changes.Sized))
  | secondPhase request _ | schemaSecondPhase request _ => inferInstanceAs (Decidable request.Sized)
  | schemaFirstPhase request command before after =>
    inferInstanceAs (Decidable (request.Sized ∧ TextSized command ∧ before.Sized ∧ after.Sized))

theorem Sized.reads {t : Task} (h : t.Sized) : Reads reader t.toBytes t := by
  cases t with
  | firstPhase request id changes =>
    obtain ⟨request, id, changes⟩ := h
    simp only [toBytes, List.append_assoc]
    refine (reads_case (n := 0) (by decide) (by decide)).bind ?_
    exact request.reads.bind (id.reads.bind changes.reads.map)
  | secondPhase request commit =>
    simp only [toBytes, List.append_assoc]
    refine (reads_case (n := 1) (by decide) (by decide)).bind ?_
    exact RequestId.Sized.reads h |>.bind (reads_bool commit).map
  | schemaFirstPhase request command before after =>
    obtain ⟨request, command, before, after⟩ := h
    simp only [toBytes, List.append_assoc]
    refine (reads_case (n := 2) (by decide) (by decide)).bind ?_
    exact request.reads.bind ((reads_string command).bind (before.reads.bind after.reads.map))
  | schemaSecondPhase request apply =>
    simp only [toBytes, List.append_assoc]
    refine (reads_case (n := 3) (by decide) (by decide)).bind ?_
    exact RequestId.Sized.reads h |>.bind (reads_bool apply).map

theorem local_reader : Local reader := by
  refine (local_case 4).bind fun n => ?_
  split
  · exact RequestId.local_reader.bind fun _ => TxId.local_reader.bind fun _ =>
      ChangeSet.local_reader.map _
  · exact RequestId.local_reader.bind fun _ => local_bool.map _
  · exact RequestId.local_reader.bind fun _ => local_string.bind fun _ =>
      TxId.local_reader.bind fun _ => TxId.local_reader.map _
  · exact RequestId.local_reader.bind fun _ => local_bool.map _

/-- Whatever follows its bytes, a task is read back as it was, and if its bytes are cut off
anywhere, nothing is read. -/
theorem ofBytes_toBytes_append (t : Task) (sized : t.Sized) :
    (∀ rest, ofBytes (t.toBytes ++ rest) = .ok t) ∧
      ∀ front, front <+: t.toBytes → front ≠ t.toBytes →
        ∃ text, ofBytes front = .error (.unreadable text) := by
  constructor
  · intro rest
    unfold ofBytes
    rw [sized.reads rest]
  · rintro front ⟨back, whole⟩ cut
    have some : back ≠ [] := by
      rintro rfl
      exact cut (by rw [← whole, List.append_nil])
    obtain ⟨fault, eq⟩ := sized.reads.cut local_reader whole some
    unfold ofBytes
    rw [eq]
    exact ⟨_, rfl⟩

/-- A change set with a record that waits for its place and an index with a key and the null key. -/
theorem ofBytes_toBytes_append_null_key :
    let keyed : List (String × List IndexEdit) :=
      [("k", [⟨.put, some ⟨9, -1⟩⟩, ⟨.remove, none⟩]), ("l", [])]
    let edits : IndexEdits := ⟨Std.ExtTreeMap.ofList keyed, [⟨.remove, some ⟨9, 4⟩⟩]⟩
    let t := firstPhase ⟨2, 7⟩ ⟨2, 1⟩ ⟨[⟨⟨9, -1⟩, "übung", .created, 0, [1, 255]⟩],
      Std.ExtTreeMap.ofList [("byName", edits)], 1⟩
    t.Sized ∧ ofBytes (t.toBytes ++ [3, 4]) = .ok t ∧
      ∃ text, ofBytes (t.toBytes.take 60) = .error (.unreadable text) := by
  intro keyed edits t
  have sized : t.Sized := by decide +kernel
  have cut : t.toBytes.take 60 ≠ t.toBytes := by decide +kernel
  refine ⟨sized, (ofBytes_toBytes_append t sized).1 [3, 4], ?_⟩
  exact (ofBytes_toBytes_append t sized).2 _ (List.take_prefix 60 _) cut

end Task

end QuorumCommit
