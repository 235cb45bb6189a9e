/-!
The verdict of a sequencer on a transaction id: whether the id may be promised now, and if not,
whether it came too early, is taken, or is done.
-/
namespace QuorumCommit

inductive Verdict where
  | alreadyPromised
  | missingPrevious
  | alreadyPresent
  | valid
  deriving DecidableEq, Repr

namespace Verdict

def name : Verdict → String
  | alreadyPromised => "AlreadyPromised"
  | missingPrevious => "MissingPrevious"
  | alreadyPresent => "AlreadyPresent"
  | valid => "Valid"

/-- The verdict may change without the id being given up. -/
def mayChange : Verdict → Bool
  | missingPrevious | alreadyPromised => true
  | alreadyPresent | valid => false

end Verdict

end QuorumCommit
