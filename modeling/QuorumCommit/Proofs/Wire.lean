import QuorumCommit.Proofs.Text.Utf8
import QuorumCommit.Wire.Basic

/-!
Reading back what was written. A reader that meets the binary form of a value, whatever comes behind
it, gives the value and leaves the rest. Words, lists and maps have a bound: a number has to fit
into its width, a length into eight bytes.
-/
namespace QuorumCommit.Wire

open Text

variable {α β κ : Type}

theorem bind_apply (read : Reader α) (f : α → Reader β) (bytes : List UInt8) :
    (read >>= f) bytes = match read bytes with
      | .ok (a, rest) => f a rest
      | .error fault => .error fault := by
  simp only [bind, StateT.bind, Except.bind]
  rcases read bytes with _ | ⟨_, _⟩ <;> rfl

theorem bind_eq_ok {read : Reader α} {f : α → Reader β} {bytes rest : List UInt8} {b : β} :
    (read >>= f) bytes = .ok (b, rest) ↔
      ∃ a between, read bytes = .ok (a, between) ∧ f a between = .ok (b, rest) := by
  rw [bind_apply]
  rcases read bytes with _ | ⟨a, between⟩
  · simp
  · constructor
    · exact fun h => ⟨a, between, rfl, h⟩
    · rintro ⟨_, _, ⟨⟩, h⟩
      exact h

/-- The reader takes the value from the front of the bytes. -/
def Reads (read : Reader α) (bytes : List UInt8) (a : α) : Prop :=
  ∀ rest, read (bytes ++ rest) = .ok (a, rest)

theorem Reads.bind {read : Reader α} {f : α → Reader β} {bytes more : List UInt8} {a : α} {b : β}
    (first : Reads read bytes a) (second : Reads (f a) more b) :
    Reads (read >>= f) (bytes ++ more) b := by
  intro rest
  rw [List.append_assoc]
  exact bind_eq_ok.2 ⟨a, more ++ rest, first _, second rest⟩

theorem Reads.pure (a : α) : Reads (Pure.pure a) [] a := fun _ => rfl

/-- What follows takes no bytes. -/
theorem Reads.last {read : Reader α} {f : α → Reader β} {bytes : List UInt8} {a : α} {b : β}
    (h : Reads read bytes a) (result : Reads (f a) [] b) : Reads (read >>= f) bytes b := by
  have all := h.bind result
  rwa [List.append_nil] at all

theorem Reads.map {read : Reader α} {f : α → β} {bytes : List UInt8} {a : α}
    (h : Reads read bytes a) : Reads (do let x ← read; Pure.pure (f x)) bytes (f a) :=
  h.last (.pure (f a))

theorem bound_succ (width : Nat) : bound (width + 1) = 256 * bound width :=
  Nat.pow_succ'

theorem reads_word {width n : Nat} (small : n < bound width) :
    Reads (readWord width) (word width n) n := by
  induction width generalizing n with
  | zero =>
    intro rest
    obtain rfl : n = 0 := by simpa [bound] using small
    rfl
  | succ width ih =>
    intro rest
    rw [bound_succ] at small
    have lower : (UInt8.ofNat (n % 256)).toNat = n % 256 := by simp
    simp only [word, List.cons_append, readWord, ih (n := n / 256) (by omega) rest, lower]
    rw [Nat.mod_add_div]

theorem readWord_lt {width n : Nat} {bytes rest : List UInt8}
    (h : readWord width bytes = .ok (n, rest)) : n < bound width := by
  induction width generalizing n bytes with
  | zero =>
    cases h
    decide
  | succ width ih =>
    cases bytes with
    | nil => cases h
    | cons b bytes =>
      unfold readWord at h
      cases upper : readWord width bytes with
      | error fault =>
        rw [upper] at h
        cases h
      | ok p =>
        rw [upper] at h
        cases h
        have := ih upper
        have := b.toNat_lt
        rw [bound_succ]
        omega

/-- The upper half of the words stands for the negative numbers. -/
theorem reads_signed {width : Nat} {n : Int} (least : -(bound width : Int) ≤ 2 * n)
    (most : 2 * n < bound width) : Reads (readSigned width) (signed width n) n := by
  have pos : 0 < bound width := Nat.pow_pos (by decide)
  have low := Int.emod_nonneg n (b := bound width) (by omega)
  have high := Int.emod_lt_of_pos n (b := bound width) (by omega)
  have small : (n % bound width).toNat < bound width := by omega
  have read := (reads_word small).map (f := fun m =>
    if 2 * m < bound width then (m : Int) else (m : Int) - bound width)
  have value : (if 2 * (n % bound width).toNat < bound width then ((n % bound width).toNat : Int)
      else ((n % bound width).toNat : Int) - bound width) = n := by
    by_cases negative : n < 0
    · have shifted : n % bound width = n + bound width := by
        rw [← Int.add_emod_right]
        exact Int.emod_eq_of_lt (by omega) (by omega)
      rw [if_neg (by omega)]
      omega
    · rw [Int.emod_eq_of_lt (by omega) (by omega), if_pos (by omega)]
      omega
  rwa [value] at read

theorem reads_case {n cases : Nat} (known : n < cases) (few : cases < bound 4) :
    Reads (readCase cases) (case n) n := by
  refine (reads_word (Nat.lt_trans known few)).last ?_
  rw [if_pos known]
  exact .pure n

theorem reads_byte (b : UInt8) : Reads readByte (byte b) b := fun _ => rfl

theorem reads_bool (b : Bool) : Reads readBool (bool b) b := by
  intro rest
  cases b <;> rfl

theorem reads_takeText (bytes : List UInt8) : Reads (takeText bytes.length) bytes bytes := by
  intro rest
  unfold takeText
  rw [if_neg (by simp), List.take_left, List.drop_left]

theorem reads_string {s : String} (short : (Utf8.encode s).length < bound 8) :
    Reads readString (string s) s := by
  refine (reads_word short).bind ((reads_takeText _).last ?_)
  rw [Utf8.decode_encode]
  exact .pure s

theorem reads_option {read : Reader α} {write : α → List UInt8} {o : Option α}
    (each : ∀ a, o = some a → Reads read (write a) a) :
    Reads (readOption read) (option write o) o := by
  cases o with
  | none => exact fun _ => rfl
  | some a =>
    refine (reads_byte 1).bind (f := fun b => if b = 0 then Pure.pure none else
      if b = 1 then some <$> read else throw (.optionTag b.toNat)) ?_
    rw [if_neg (by decide), if_pos rfl, map_eq_pure_bind]
    exact (each a rfl).map

theorem reads_pair {readA : Reader α} {readB : Reader β} {writeA : α → List UInt8}
    {writeB : β → List UInt8} {p : α × β} (first : Reads readA (writeA p.1) p.1)
    (second : Reads readB (writeB p.2) p.2) :
    Reads (readPair readA readB) (pair writeA writeB p) p :=
  first.bind second.map

theorem readPair_eq_ok {readA : Reader α} {readB : Reader β} {bytes rest : List UInt8} {p : α × β}
    (h : readPair readA readB bytes = .ok (p, rest)) :
    ∃ between, readA bytes = .ok (p.1, between) ∧ readB between = .ok (p.2, rest) := by
  obtain ⟨a, between, first, h⟩ := bind_eq_ok.1 h
  obtain ⟨b, after, second, h⟩ := bind_eq_ok.1 h
  cases h
  exact ⟨between, first, second⟩

theorem reads_items {read : Reader α} {write : α → List UInt8} {as : List α}
    (each : ∀ a ∈ as, Reads read (write a) a) :
    Reads (readItems read as.length) (items write as) as := by
  induction as with
  | nil => exact .pure []
  | cons a as ih =>
    refine (each a List.mem_cons_self).bind ?_
    exact (ih fun b mem => each b (List.mem_cons_of_mem _ mem)).map

theorem readItems_forall {read : Reader α} {p : α → Prop}
    (each : ∀ bytes a rest, read bytes = .ok (a, rest) → p a) {n : Nat} {bytes rest : List UInt8}
    {as : List α} (h : readItems read n bytes = .ok (as, rest)) : ∀ a ∈ as, p a := by
  induction n generalizing bytes as with
  | zero =>
    cases h
    simp
  | succ n ih =>
    obtain ⟨b, between, first, h⟩ := bind_eq_ok.1 h
    obtain ⟨bs, after, others, h⟩ := bind_eq_ok.1 h
    cases h
    intro a mem
    rcases List.mem_cons.1 mem with rfl | mem
    · exact each _ _ _ first
    · exact ih others a mem

theorem reads_list {read : Reader α} {write : α → List UInt8} {as : List α}
    (each : ∀ a ∈ as, Reads read (write a) a) (short : as.length < bound 8) :
    Reads (readList read) (list write as) as :=
  (reads_word short).bind (reads_items each)

variable [Ord κ] [Std.TransOrd κ] [Std.LawfulEqOrd κ]

/-- What one entry after the other has put into a map, when their keys differ. -/
theorem getElem?_foldl_insert {entries : List (κ × α)} {m : Std.ExtTreeMap κ α} {k : κ} {v : α}
    (distinct : entries.Pairwise fun e e' => e.1 ≠ e'.1) :
    (entries.foldl (fun m e => m.insert e.1 e.2) m)[k]? = some v ↔
      (k, v) ∈ entries ∨ (∀ w, (k, w) ∉ entries) ∧ m[k]? = some v := by
  induction entries generalizing m with
  | nil => simp
  | cons e rest ih =>
    obtain ⟨others, distinct⟩ := List.pairwise_cons.1 distinct
    refine (ih distinct).trans ?_
    obtain ⟨k', v'⟩ := e
    simp only [Std.ExtTreeMap.getElem?_insert, Std.compare_eq_iff_eq, List.mem_cons,
      Prod.mk.injEq, not_or, not_and]
    by_cases same : k' = k
    · subst same
      have absent (w : α) : (k', w) ∉ rest := fun mem => others _ mem rfl
      simp [absent, eq_comm]
    · simp [same, Ne.symm same]

theorem foldl_insert_toList (m : Std.ExtTreeMap κ α) :
    m.toList.foldl (fun m e => m.insert e.1 e.2) ∅ = m := by
  refine Std.ExtTreeMap.ext_getElem? fun k => Option.ext fun v => ?_
  refine (getElem?_foldl_insert ?_).trans ?_
  · exact Std.ExtTreeMap.distinct_keys_toList.imp fun differ same => differ (by simp [same])
  · simp [Std.ExtTreeMap.mem_toList_iff_getElem?_eq_some]

theorem foldl_insert_forall {p : κ → α → Prop} {entries : List (κ × α)} {m : Std.ExtTreeMap κ α}
    (known : ∀ e ∈ entries, p e.1 e.2) (start : ∀ k a, m[k]? = some a → p k a) :
    ∀ k a, (entries.foldl (fun m e => m.insert e.1 e.2) m)[k]? = some a → p k a := by
  induction entries generalizing m with
  | nil => exact start
  | cons e entries ih =>
    refine ih (fun e mem => known e (List.mem_cons_of_mem _ mem)) fun k a mem => ?_
    rw [Std.ExtTreeMap.getElem?_insert] at mem
    split at mem
    · next same =>
      rw [Std.compare_eq_iff_eq] at same
      cases mem
      exact same ▸ known e List.mem_cons_self
    · exact start k a mem

/-- Every entry of the map was read. -/
theorem readMap_forall {readKey : Reader κ} {read : Reader α} {p : κ → α → Prop}
    (each : ∀ bytes k between a rest, readKey bytes = .ok (k, between) →
      read between = .ok (a, rest) → p k a)
    {bytes rest : List UInt8} {m : Std.ExtTreeMap κ α}
    (h : readMap readKey read bytes = .ok (m, rest)) : ∀ k a, m[k]? = some a → p k a := by
  obtain ⟨entries, between, found, h⟩ := bind_eq_ok.1 h
  cases h
  obtain ⟨n, after, -, found⟩ := bind_eq_ok.1 found
  refine foldl_insert_forall (readItems_forall (fun bytes e rest h => ?_) found) (by simp)
  obtain ⟨between, first, second⟩ := readPair_eq_ok h
  exact each _ _ _ _ _ first second

theorem reads_map {readKey : Reader κ} {read : Reader α} {writeKey : κ → List UInt8}
    {write : α → List UInt8} {m : Std.ExtTreeMap κ α}
    (each : ∀ k a, m[k]? = some a → Reads readKey (writeKey k) k ∧ Reads read (write a) a)
    (short : m.size < bound 8) : Reads (readMap readKey read) (map writeKey write m) m := by
  have entries : Reads (readList (readPair readKey read)) (map writeKey write m) m.toList := by
    refine reads_list (fun e mem => ?_) (by rwa [Std.ExtTreeMap.length_toList])
    obtain ⟨key, value⟩ := each e.1 e.2 (Std.ExtTreeMap.mem_toList_iff_getElem?_eq_some.1 mem)
    exact reads_pair key value
  have read := entries.map (f := fun entries =>
    entries.foldl (fun (m : Std.ExtTreeMap κ α) e => m.insert e.1 e.2) ∅)
  rwa [foldl_insert_toList] at read

end QuorumCommit.Wire
