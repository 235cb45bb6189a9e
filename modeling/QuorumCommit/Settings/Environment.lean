import QuorumCommit.Settings.Basic
import QuorumCommit.Text.Numeral

/-!
Settings from environment variables. A variable that is not set leaves the default; the first
one that cannot be read, in the order of the settings, is the fault.
-/
namespace QuorumCommit.Settings

open Text

/-- Environment variables by name. -/
abbrev Environment := Std.ExtTreeMap String String

def wordBound : Nat := 18446744073709551616

def halfWordBound : Nat := 4294967296

def invalid (name reason : String) : Fault := .configuration s!"invalid {name}: {reason}"

/-- Reads a number below `bound`, if the variable is set. -/
def number? (env : Environment) (name : String) (bound default : Nat) : Except Fault Nat :=
  match env[name]? with
  | none => .ok default
  | some text =>
    match readNat bound text with
    | .ok n => .ok n
    | .error fault => .error (invalid name fault.message)

/-- Reads `majority`, `all` in any case of letters, or a number. -/
def quorum? (env : Environment) (name : String) (default : QuorumRule) :
    Except Fault QuorumRule :=
  match env[name]? with
  | none => .ok default
  | some text =>
    let text := text.map Char.toLower
    if text = "majority" then .ok .majority
    else if text = "all" then .ok .all
    else
      match readNat wordBound text with
      | .ok n => .ok (.fixed n)
      | .error _ => .error (invalid name "expected majority, all or a number")

def ofEnvironment (env : Environment) : Except Fault Settings := do
  let d := Settings.default
  let maxAutoRetry ← number? env "COORDINATOR_MAX_AUTO_RETRY" halfWordBound d.maxAutoRetry
  let autoRetryDelayMs ←
    number? env "COORDINATOR_AUTO_RETRY_DELAY_MS" wordBound d.autoRetryDelayMs
  let lockTimeoutMs ← number? env "COORDINATOR_LOCK_TIMEOUT_MS" wordBound d.lockTimeoutMs
  let pipelineDepth ← number? env "COORDINATOR_PIPELINE_DEPTH" wordBound d.pipelineDepth
  let quorum ← quorum? env "COORDINATOR_WRITE_QUORUM" d.replication.defaultQuorum
  let s : Settings :=
    { maxAutoRetry, autoRetryDelayMs, lockTimeoutMs, pipelineDepth
      logPath := env["COORDINATOR_LOG_PATH"]?
      replication := { d.replication with defaultQuorum := quorum } }
  s.validate
  pure s

end QuorumCommit.Settings
