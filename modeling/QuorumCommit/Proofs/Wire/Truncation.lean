import QuorumCommit.Proofs.Wire

/-!
Cut off values. No reader looks behind what it takes: if it gives a value, it gives the same one
when more bytes follow, and leaves those. So a binary form that is cut off before its end reads as
nothing: what would read it would read it from the whole form as well, and leave the rest of that.
-/
namespace QuorumCommit.Wire

open Text

variable {α β κ : Type}

/-- The reader makes the same of longer bytes and leaves what is added. -/
def Local (read : Reader α) : Prop :=
  ∀ bytes more rest a, read bytes = .ok (a, rest) → read (bytes ++ more) = .ok (a, rest ++ more)

theorem Reads.cut {read : Reader α} {front back bytes : List UInt8} {a : α}
    (h : Reads read bytes a) (near : Local read) (whole : front ++ back = bytes)
    (rest : back ≠ []) :
    ∃ fault, read front = .error fault := by
  cases early : read front with
  | error fault => exact ⟨fault, rfl⟩
  | ok p =>
    have all := h []
    rw [List.append_nil, ← whole, near _ _ _ _ early] at all
    simp [rest] at all

theorem Local.pure (a : α) : Local (Pure.pure a) := by
  intro bytes more rest b h
  cases h
  rfl

theorem Local.throw (fault : WireFault) : Local (throw fault : Reader α) :=
  fun _ _ _ _ h => nomatch h

theorem Local.bind {read : Reader α} {f : α → Reader β} (first : Local read)
    (second : ∀ a, Local (f a)) : Local (read >>= f) := by
  intro bytes more rest b h
  obtain ⟨a, between, taken, h⟩ := bind_eq_ok.1 h
  exact bind_eq_ok.2 ⟨a, _, first _ _ _ _ taken, second a _ _ _ _ h⟩

theorem Local.map {read : Reader α} (h : Local read) (f : α → β) :
    Local (do let x ← read; Pure.pure (f x)) :=
  h.bind fun a => .pure (f a)

theorem Local.ite {read other : Reader α} {p : Prop} [Decidable p] (yes : Local read)
    (no : Local other) : Local (if p then read else other) := by
  split
  · exact yes
  · exact no

theorem local_word (width : Nat) : Local (readWord width) := by
  induction width with
  | zero => exact .pure 0
  | succ width ih =>
    intro bytes more rest n h
    cases bytes with
    | nil => cases h
    | cons b bytes =>
      unfold readWord at h
      cases upper : readWord width bytes with
      | error fault =>
        rw [upper] at h
        cases h
      | ok p =>
        rw [upper] at h
        cases h
        rw [List.cons_append, readWord, ih _ _ _ _ upper]

theorem local_signed (width : Nat) : Local (readSigned width) := (local_word width).map _

theorem local_case (cases : Nat) : Local (readCase cases) :=
  (local_word 4).bind fun n => .ite (.pure n) (.throw _)

theorem local_byte : Local readByte := by
  intro bytes more rest b h
  cases bytes with
  | nil => cases h
  | cons _ _ =>
    cases h
    rfl

theorem local_bool : Local readBool :=
  local_byte.bind fun _ => .ite (.pure false) (.ite (.pure true) (.throw _))

theorem local_takeText (n : Nat) : Local (takeText n) := by
  intro bytes more rest text h
  unfold takeText at h ⊢
  by_cases short : bytes.length < n
  · rw [if_pos short] at h
    cases h
  · rw [if_neg short] at h
    cases h
    have enough : n ≤ bytes.length := Nat.le_of_not_lt short
    rw [if_neg (by rw [List.length_append]; omega), List.take_append_of_le_length enough,
      List.drop_append_of_le_length enough]

theorem local_string : Local readString := by
  refine (local_word 8).bind fun n => (local_takeText n).bind fun bytes => ?_
  cases Utf8.decode bytes with
  | ok s => exact .pure s
  | error fault => exact .throw _

theorem local_option {read : Reader α} (each : Local read) : Local (readOption read) := by
  refine local_byte.bind fun _ => .ite (.pure none) (.ite ?_ (.throw _))
  rw [map_eq_pure_bind]
  exact each.map some

theorem local_pair {readA : Reader α} {readB : Reader β} (first : Local readA)
    (second : Local readB) :
    Local (readPair readA readB) :=
  first.bind fun _ => second.map _

theorem local_items {read : Reader α} (each : Local read) (n : Nat) : Local (readItems read n) := by
  induction n with
  | zero => exact .pure []
  | succ n ih => exact each.bind fun _ => ih.map _

theorem local_list {read : Reader α} (each : Local read) : Local (readList read) :=
  (local_word 8).bind (local_items each)

theorem local_map [Ord κ] [Std.TransOrd κ] {readKey : Reader κ} {read : Reader α}
    (key : Local readKey) (value : Local read) : Local (readMap readKey read) :=
  (local_list (local_pair key value)).map _

end QuorumCommit.Wire
