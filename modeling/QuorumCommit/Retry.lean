import QuorumCommit.Fault

/-!
Repeated attempts. Attempts are counted from one; a fault that another attempt may cure is
followed by another one as long as there are attempts left, and the last result is the answer.
Before every attempt but the first there is a random pause, shorter than the policy's delay.
-/
namespace QuorumCommit

structure RetryPolicy where
  maxRetries : Nat
  delayMs : Nat
  deriving DecidableEq, Repr

namespace RetryPolicy

def default : RetryPolicy := ⟨10, 1000⟩

/-- A policy that makes at least one attempt. -/
def new (maxRetries delayMs : Nat) : RetryPolicy := ⟨max maxRetries 1, delayMs⟩

def shouldRetry (p : RetryPolicy) (attempt : Nat) : Bool := attempt < p.maxRetries

/-- The longest pause, in milliseconds, before an attempt. -/
def longestPause (p : RetryPolicy) (attempt : Nat) : Nat :=
  if attempt ≤ 1 then 0 else p.delayMs - 1

/-- Makes an attempt, and up to `more` further ones. -/
def runFrom {σ α : Type} (op : Nat → σ → Except Fault α × σ) (attempt : Nat) :
    Nat → σ → Except Fault α × σ
  | 0, s => op attempt s
  | more + 1, s =>
    match op attempt s with
    | (.ok a, s) => (.ok a, s)
    | (.error fault, s) =>
      if fault.isRetryable then runFrom op (attempt + 1) more s else (.error fault, s)

def run {σ α : Type} (p : RetryPolicy) (op : Nat → σ → Except Fault α × σ) (s : σ) :
    Except Fault α × σ :=
  runFrom op 1 (p.maxRetries - 1) s

end RetryPolicy

end QuorumCommit
