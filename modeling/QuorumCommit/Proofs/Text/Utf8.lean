import QuorumCommit.Text.Utf8

/-!
Texts come back from their bytes. The lead byte of a character says how many tail bytes follow, and
the range of the first of them leaves out nothing but overlong forms, surrogates and code points
past the last one, so that it is met by every character.
-/
namespace QuorumCommit.Text.Utf8

variable {b : UInt8} {bytes rest after : List UInt8} {low high judged acc n code index : Nat}
  {l : Lead}

theorem toNat_tail (n : Nat) : (tail n).toNat = 0x80 + n % 64 := by
  unfold tail
  rw [UInt8.toNat_ofNat']
  omega

theorem readTails_tail {m : Nat} (fits : low ≤ 0x80 + m % 64 ∧ 0x80 + m % 64 ≤ high) :
    readTails low high judged acc (n + 1) (tail m :: rest) =
      readTails 0x80 0xBF (judged + 1) (acc * 64 + m % 64) n rest := by
  rw [readTails, toNat_tail, if_pos fits, Nat.add_sub_cancel_left]

/-- Tail bytes behind the first one may have any bits. -/
theorem readTails_next {m : Nat} : readTails 0x80 0xBF judged acc (n + 1) (tail m :: rest) =
    readTails 0x80 0xBF (judged + 1) (acc * 64 + m % 64) n rest :=
  readTails_tail (by omega)

theorem lead?_one (small : n < 0x80) : lead? n = some ⟨n, 0, 0x80, 0xBF⟩ := by
  unfold lead?
  rw [if_pos small]

theorem lead?_two (low : 0x80 ≤ n) (high : n < 0x800) :
    lead? (0xC0 + n / 64) = some ⟨n / 64, 1, 0x80, 0xBF⟩ := by
  unfold lead?
  rw [if_neg (by omega), if_neg (by omega), if_pos (by omega), Nat.add_sub_cancel_left]

/-- The first tail byte of three is in range unless the form is overlong or the code point is a
surrogate. -/
theorem lead?_three (low : 0x800 ≤ n) (high : n < 0x10000) (real : n < 0xD800 ∨ 0xDFFF < n) :
    ∃ least most, lead? (0xE0 + n / 4096) = some ⟨n / 4096, 2, least, most⟩ ∧
      least ≤ 0x80 + n / 64 % 64 ∧ 0x80 + n / 64 % 64 ≤ most := by
  unfold lead?
  rw [if_neg (by omega), if_neg (by omega), if_neg (by omega)]
  by_cases first : n / 4096 = 0
  · rw [if_pos (by omega), first]
    exact ⟨_, _, rfl, by omega, by omega⟩
  rw [if_neg (by omega)]
  by_cases near : n / 4096 = 0x0D
  · rw [if_pos (by omega), near]
    exact ⟨_, _, rfl, by omega, by omega⟩
  rw [if_neg (by omega), if_pos (by omega), Nat.add_sub_cancel_left]
  exact ⟨_, _, rfl, by omega, by omega⟩

/-- The first tail byte of four is in range unless the form is overlong or the code point is past
the last one. -/
theorem lead?_four (low : 0x10000 ≤ n) (high : n < 0x110000) :
    ∃ least most, lead? (0xF0 + n / 262144) = some ⟨n / 262144, 3, least, most⟩ ∧
      least ≤ 0x80 + n / 4096 % 64 ∧ 0x80 + n / 4096 % 64 ≤ most := by
  unfold lead?
  rw [if_neg (by omega), if_neg (by omega), if_neg (by omega), if_neg (by omega),
    if_neg (by omega), if_neg (by omega)]
  by_cases first : n / 262144 = 0
  · rw [if_pos (by omega), first]
    exact ⟨_, _, rfl, by omega, by omega⟩
  rw [if_neg (by omega)]
  by_cases last : n / 262144 = 4
  · rw [if_neg (by omega), if_pos (by omega), last]
    exact ⟨_, _, rfl, by omega, by omega⟩
  rw [if_pos (by omega), Nat.add_sub_cancel_left]
  exact ⟨_, _, rfl, by omega, by omega⟩

theorem valid_toNat (c : Char) : c.toNat < 0xD800 ∨ 0xDFFF < c.toNat ∧ c.toNat < 0x110000 := c.valid

theorem toNat_ofNat (small : n < 256) : (UInt8.ofNat n).toNat = n := UInt8.toNat_ofNat_of_lt' small

/-- The bytes of a character are a lead byte and as many tail bytes as it announces, which carry the
code point. -/
theorem encodeChar_spec (c : Char) (rest : List UInt8) : ∃ b tails l,
    encodeChar c = b :: tails ∧ lead? b.toNat = some l ∧
      readTailsOf l (tails ++ rest) = .ok (c.toNat, rest) := by
  have valid := valid_toNat c
  unfold encodeChar readTailsOf
  dsimp only
  by_cases one : c.toNat < 0x80
  · rw [if_pos one]
    refine ⟨_, _, ⟨c.toNat, 0, 0x80, 0xBF⟩, rfl, ?_, rfl⟩
    rw [toNat_ofNat (by omega), lead?_one one]
  rw [if_neg one]
  by_cases two : c.toNat < 0x800
  · rw [if_pos two]
    refine ⟨_, _, _, rfl, by rw [toNat_ofNat (by omega), lead?_two (by omega) two], ?_⟩
    rw [List.singleton_append, readTails_next, readTails]
    congr 2
    dsimp only
    omega
  rw [if_neg two]
  by_cases three : c.toNat < 0x10000
  · rw [if_pos three]
    obtain ⟨low, high, lead, fits⟩ := lead?_three (n := c.toNat) (by omega) three (by omega)
    refine ⟨_, _, _, rfl, by rw [toNat_ofNat (by omega), lead], ?_⟩
    rw [List.cons_append, readTails_tail fits, List.singleton_append, readTails_next, readTails]
    congr 2
    dsimp only
    omega
  · rw [if_neg three]
    obtain ⟨low, high, lead, fits⟩ := lead?_four (n := c.toNat) (by omega) (by omega)
    refine ⟨_, _, _, rfl, by rw [toNat_ofNat (by omega), lead], ?_⟩
    rw [List.cons_append, readTails_tail fits, List.cons_append, readTails_next,
      List.singleton_append, readTails_next, readTails]
    congr 2
    dsimp only
    omega

theorem readFrom_char (lead : lead? b.toNat = some l)
    (tails : readTailsOf l bytes = .ok (code, after)) :
    readFrom index (b :: bytes) =
      (readFrom (index + 1 + l.tails) after).map (Char.ofNat code :: ·) := by
  rw [readFrom]
  simp only [lead]
  split
  all_goals
    rename_i eq
    rw [tails] at eq
    cases eq
  rcases readFrom (index + 1 + l.tails) after with _ | _ <;> rfl

theorem readFrom_encode (cs : List Char) (index : Nat) :
    readFrom index (cs.flatMap encodeChar) = .ok cs := by
  induction cs generalizing index with
  | nil => rw [List.flatMap_nil, readFrom]
  | cons c cs ih =>
    obtain ⟨b, tails, l, bytes, lead, read⟩ := encodeChar_spec c (cs.flatMap encodeChar)
    rw [List.flatMap_cons, bytes, List.cons_append, readFrom_char lead read, ih, Char.ofNat_toNat]
    rfl

theorem decode_encode (s : String) : decode (encode s) = .ok s := by
  unfold decode encode
  rw [readFrom_encode]
  exact congrArg Except.ok String.ofList_toList

end QuorumCommit.Text.Utf8
