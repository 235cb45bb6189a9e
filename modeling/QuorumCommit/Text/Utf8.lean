/-!
UTF-8. Reading refuses overlong forms, surrogates and code points past the last one, and says
where the first bad sequence begins and how many of its bytes were judged.
-/
namespace QuorumCommit.Text

/-- The first place where bytes stop being UTF-8. -/
inductive Utf8Fault where
  | malformed (length index : Nat)
  | cutOff (index : Nat)
  deriving DecidableEq, Repr

namespace Utf8Fault

def message : Utf8Fault → String
  | malformed length index => s!"invalid utf-8 sequence of {length} bytes from index {index}"
  | cutOff index => s!"incomplete utf-8 byte sequence from index {index}"

end Utf8Fault

namespace Utf8

/-- A tail byte that carries six bits. -/
def tail (n : Nat) : UInt8 := UInt8.ofNat (0x80 + n % 64)

def encodeChar (c : Char) : List UInt8 :=
  let n := c.toNat
  if n < 0x80 then [UInt8.ofNat n]
  else if n < 0x800 then [UInt8.ofNat (0xC0 + n / 64), tail n]
  else if n < 0x10000 then [UInt8.ofNat (0xE0 + n / 4096), tail (n / 64), tail n]
  else [UInt8.ofNat (0xF0 + n / 262144), tail (n / 4096), tail (n / 64), tail n]

def encode (s : String) : List UInt8 := s.toList.flatMap encodeChar

/-- What a lead byte announces: its own bits, the number of tail bytes, and the range in which
the first of them lies. -/
structure Lead where
  bits : Nat
  tails : Nat
  low : Nat
  high : Nat

def lead? (b : Nat) : Option Lead :=
  if b < 0x80 then some ⟨b, 0, 0x80, 0xBF⟩
  else if b < 0xC2 then none
  else if b < 0xE0 then some ⟨b - 0xC0, 1, 0x80, 0xBF⟩
  else if b = 0xE0 then some ⟨0, 2, 0xA0, 0xBF⟩
  else if b = 0xED then some ⟨0x0D, 2, 0x80, 0x9F⟩
  else if b < 0xF0 then some ⟨b - 0xE0, 2, 0x80, 0xBF⟩
  else if b = 0xF0 then some ⟨0, 3, 0x90, 0xBF⟩
  else if b < 0xF4 then some ⟨b - 0xF0, 3, 0x80, 0xBF⟩
  else if b = 0xF4 then some ⟨4, 3, 0x80, 0x8F⟩
  else none

/-- Reads tail bytes after `judged` good ones. A failure tells how many bytes were judged good
before a wrong one, or nothing if the bytes ran out. -/
def readTails (low high judged acc : Nat) :
    Nat → List UInt8 → Except (Option Nat) (Nat × List UInt8)
  | 0, bytes => .ok (acc, bytes)
  | _ + 1, [] => .error none
  | n + 1, b :: rest =>
    if low ≤ b.toNat ∧ b.toNat ≤ high then
      readTails 0x80 0xBF (judged + 1) (acc * 64 + (b.toNat - 0x80)) n rest
    else .error (some judged)

theorem readTails_length {low high judged acc n : Nat} {bytes rest : List UInt8} {code : Nat}
    (h : readTails low high judged acc n bytes = .ok (code, rest)) :
    rest.length ≤ bytes.length := by
  induction n generalizing low high judged acc bytes with
  | zero => simp [readTails] at h; simp [h.2]
  | succ n ih =>
    cases bytes with
    | nil => simp [readTails] at h
    | cons b bytes =>
      simp only [readTails] at h
      split at h
      · exact Nat.le_succ_of_le (ih h)
      · simp at h

def readTailsOf (l : Lead) (bytes : List UInt8) : Except (Option Nat) (Nat × List UInt8) :=
  readTails l.low l.high 1 l.bits l.tails bytes

/-- Reads characters; `index` is the place of the first byte in the whole text. -/
def readFrom (index : Nat) (bytes : List UInt8) : Except Utf8Fault (List Char) :=
  match bytes with
  | [] => .ok []
  | b :: rest =>
    match lead? b.toNat with
    | none => .error (.malformed 1 index)
    | some l =>
      match _h : readTailsOf l rest with
      | .error none => .error (.cutOff index)
      | .error (some judged) => .error (.malformed judged index)
      | .ok (code, after) =>
        match readFrom (index + 1 + l.tails) after with
        | .error fault => .error fault
        | .ok cs => .ok (Char.ofNat code :: cs)
termination_by bytes.length
decreasing_by
  have := readTails_length _h
  simp only [List.length_cons]
  omega

def decode (bytes : List UInt8) : Except Utf8Fault String :=
  match readFrom 0 bytes with
  | .error fault => .error fault
  | .ok cs => .ok (String.ofList cs)

end Utf8

end QuorumCommit.Text
