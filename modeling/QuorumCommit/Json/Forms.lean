import QuorumCommit.Attempt.Basic
import QuorumCommit.Json.Form
import QuorumCommit.Retry
import QuorumCommit.Settings.Basic
import QuorumCommit.Tally
import QuorumCommit.Task
import QuorumCommit.Text.Numeral

/-!
JSON forms of identifiers, change sets, tasks, snapshots and settings.
-/
namespace QuorumCommit

open Json

/-- The form of a type whose values are cases without content, given by a table of names. -/
@[reducible] def tableForm {α : Type} [DecidableEq α] (table : List (String × α)) : JsonForm α where
  toJson a := match table.find? (·.2 = a) with
    | some (name, _) => .str name
    | none => .null
  ofJson? := case? table

instance : JsonForm TxId where
  toJson t := .obj [("origin", nat t.origin), ("sequence", nat t.sequence)]
  ofJson? j := do
    let f ← fields? ["origin", "sequence"] j
    some ⟨← f.required word32? "origin", ← f.required word64? "sequence"⟩

instance : JsonForm RequestId where
  toJson r := .obj [("node", nat r.node), ("message", nat r.message)]
  ofJson? j := do
    let f ← fields? ["node", "message"] j
    some ⟨← f.required word32? "node", ← f.required word64? "message"⟩

instance : JsonForm RecordId where
  toJson r := .obj [("cluster", .int r.cluster), ("position", .int r.position)]
  ofJson? j := do
    let f ← fields? ["cluster", "position"] j
    some ⟨← f.required int32? "cluster", ← f.required int64? "position"⟩

instance : JsonForm ChangeKind :=
  tableForm [("Created", .created), ("Updated", .updated), ("Deleted", .deleted)]

instance : JsonForm RecordChange where
  toJson c := .obj [("rid", toJson c.record), ("cluster_name", .str c.clusterName),
    ("kind", toJson c.kind), ("version", nat c.version),
    ("content", list (fun b => nat b.toNat) c.content)]
  ofJson? j := do
    let f ← fields? ["rid", "cluster_name", "kind", "version", "content"] j
    some ⟨← f.required ofJson? "rid", ← f.required str? "cluster_name",
      ← f.required ofJson? "kind", ← f.required word32? "version",
      ← f.required (list? word8?) "content"⟩

instance : JsonForm IndexAction := tableForm [("Put", .put), ("Remove", .remove)]

instance : JsonForm IndexEdit where
  toJson e := .obj [("operation", toJson e.action), ("value", option toJson e.value)]
  ofJson? j := do
    let f ← fields? ["operation", "value"] j
    some ⟨← f.required ofJson? "operation", ← f.optional ofJson? "value"⟩

instance : JsonForm IndexEdits where
  toJson e := .obj [("per_key", map (list toJson) e.keyed), ("null_key", list toJson e.unkeyed)]
  ofJson? j := do
    let f ← fields? ["per_key", "null_key"] j
    some ⟨← f.required (map? (list? ofJson?)) "per_key",
      ← f.required (list? ofJson?) "null_key"⟩

instance : JsonForm ChangeSet where
  toJson t := .obj [("operations", list toJson t.changes),
    ("index_changes", map toJson t.indexes), ("created", .int t.created)]
  ofJson? j := do
    let f ← fields? ["operations", "index_changes", "created"] j
    some ⟨← f.required (list? ofJson?) "operations",
      ← f.required (map? ofJson?) "index_changes", ← f.required int64? "created"⟩

instance : JsonForm Verdict :=
  tableForm [("AlreadyPresent", .alreadyPresent), ("AlreadyPromised", .alreadyPromised),
    ("MissingPrevious", .missingPrevious), ("Valid", .valid)]

instance : JsonForm AttemptStatus :=
  tableForm [("Pending", .pending), ("Success", .success), ("Failed", .failed),
    ("TimedOut", .timedOut)]

instance : JsonForm Outcome :=
  tableForm [("Success", .success), ("InvalidSequence", .invalidSequence)]

instance : JsonForm ReplyMode :=
  tableForm [("Response", .awaited), ("NoResponse", .ignored)]

instance : JsonForm RunMode := tableForm [("Local", .direct), ("Replicated", .replicated)]

instance : JsonForm IndexKind :=
  tableForm [("Unique", .unique), ("UniqueHash", .uniqueHash), ("Dictionary", .dictionary),
    ("DictionaryHash", .dictionaryHash), ("NotUnique", .notUnique), ("FullText", .fullText)]

instance : JsonForm LockKey where
  toJson
    | .record id => tagged "Record" (toJson id)
    | .indexKey text => tagged "IndexKey" (.str text)
  ofJson? j := do
    match ← variant? j with
    | ("Record", content) => return .record (← ofJson? content)
    | ("IndexKey", content) => return .indexKey (← str? content)
    | _ => none

instance : JsonForm Applied where
  toJson a := .obj [("tx_id", toJson a.id), ("offset", nat a.offset)]
  ofJson? j := do
    let f ← fields? ["tx_id", "offset"] j
    some ⟨← f.required ofJson? "tx_id", ← f.required word64? "offset"⟩

/-- A record with its version. -/
structure RecordVersion where
  record : RecordId
  version : Nat
  deriving DecidableEq, Repr

instance : JsonForm RecordVersion where
  toJson v := .obj [("rid", toJson v.record), ("version", nat v.version)]
  ofJson? j := do
    let f ← fields? ["rid", "version"] j
    some ⟨← f.required ofJson? "rid", ← f.required word32? "version"⟩

/-- A number that names a member: an integer as JSON writes it, in quotes. -/
def numberName? (name : String) : Option Nat :=
  match name.toList with
  | '0' :: _ :: _ => none
  | '+' :: _ => none
  | [] => none
  | cs =>
    match Text.readDigits 4294967296 0 cs with
    | .ok n => some n
    | .error _ => none

def wordPair? (j : Json) : Option (Nat × Nat) := do
  match ← arr? j with
  | [a, b] => return (← word64? a, ← word64? b)
  | _ => none

instance : JsonForm Snapshot where
  toJson s := .obj
    [("origins", .obj (s.origins.toList.map fun (origin, last, offset) =>
        (toString origin, .arr [nat last, nat offset]))),
      ("next_offset", nat s.nextOffset)]
  ofJson? j := do
    let f ← fields? ["origins", "next_offset"] j
    let origins ← f.required obj? "origins"
    let origins ← origins.mapM fun (name, entry) => do
      some (← numberName? name, ← wordPair? entry)
    some ⟨Std.ExtTreeMap.ofList origins, ← f.required word64? "next_offset"⟩

instance : JsonForm RetryPolicy where
  toJson p := .obj [("max_retries", nat p.maxRetries), ("delay_ms", nat p.delayMs)]
  ofJson? j := do
    let f ← fields? ["max_retries", "delay_ms"] j
    some ⟨← f.required word32? "max_retries", ← f.required word64? "delay_ms"⟩

instance : JsonForm QuorumRule where
  toJson
    | .majority => .str "majority"
    | .all => .str "all"
    | .fixed n => tagged "fixed" (nat n)
  ofJson? j :=
    match case? [("majority", QuorumRule.majority), ("all", .all)] j, variant? j with
    | some rule, _ => some rule
    | none, some ("fixed", content) => (word64? content).map .fixed
    | none, _ => none

instance : JsonForm Placement where
  toJson p := .obj [("servers", list .str p.servers), ("write_quorum", option toJson p.quorum)]
  ofJson? j := do
    let f ← fields? ["servers", "write_quorum"] j
    some ⟨← f.defaulted (list? str?) [] "servers",
      ← f.defaulted (option? ofJson?) none "write_quorum"⟩

instance : JsonForm Replication where
  toJson r := .obj [("servers", list .str r.servers),
    ("default_write_quorum", toJson r.defaultQuorum), ("clusters", map toJson r.clusters)]
  ofJson? j := do
    let f ← fields? ["servers", "default_write_quorum", "clusters"] j
    some ⟨← f.defaulted (list? str?) [] "servers",
      ← f.defaulted ofJson? QuorumRule.majority "default_write_quorum",
      ← f.defaulted (map? ofJson?) ∅ "clusters"⟩

instance : JsonForm Settings where
  toJson s := .obj [("max_auto_retry", nat s.maxAutoRetry),
    ("auto_retry_delay_ms", nat s.autoRetryDelayMs), ("lock_timeout_ms", nat s.lockTimeoutMs),
    ("pipeline_depth", nat s.pipelineDepth), ("log_path", option .str s.logPath),
    ("replication", toJson s.replication)]
  ofJson? j := do
    let d := Settings.default
    let f ← fields? ["max_auto_retry", "auto_retry_delay_ms", "lock_timeout_ms",
      "pipeline_depth", "log_path", "replication"] j
    some {
      maxAutoRetry := ← f.defaulted word32? d.maxAutoRetry "max_auto_retry"
      autoRetryDelayMs := ← f.defaulted word64? d.autoRetryDelayMs "auto_retry_delay_ms"
      lockTimeoutMs := ← f.defaulted word64? d.lockTimeoutMs "lock_timeout_ms"
      pipelineDepth := ← f.defaulted word64? d.pipelineDepth "pipeline_depth"
      logPath := ← f.defaulted (option? str?) none "log_path"
      replication := ← f.defaulted ofJson? d.replication "replication" }

/-- The content of a task: an object, never an array. -/
def taskFields? (names : List String) : Json → Option Fields
  | .obj members => fields? names (.obj members)
  | _ => none

instance : JsonForm Task where
  toJson
    | .firstPhase request id changes => tagged "FirstPhase" (.obj
      [("request_id", toJson request), ("tx_id", toJson id), ("transaction", toJson changes)])
    | .secondPhase request commit => tagged "SecondPhase" (.obj
      [("request_id", toJson request), ("commit", .bool commit)])
    | .schemaFirstPhase request command before after => tagged "DdlFirstPhase" (.obj
      [("request_id", toJson request), ("query", .str command), ("before", toJson before),
        ("after", toJson after)])
    | .schemaSecondPhase request apply => tagged "DdlSecondPhase" (.obj
      [("request_id", toJson request), ("apply", .bool apply)])
  ofJson? j := do
    match ← variant? j with
    | ("FirstPhase", content) => do
      let f ← taskFields? ["request_id", "tx_id", "transaction"] content
      return .firstPhase (← f.required ofJson? "request_id") (← f.required ofJson? "tx_id")
        (← f.required ofJson? "transaction")
    | ("SecondPhase", content) => do
      let f ← taskFields? ["request_id", "commit"] content
      return .secondPhase (← f.required ofJson? "request_id") (← f.required bool? "commit")
    | ("DdlFirstPhase", content) => do
      let f ← taskFields? ["request_id", "query", "before", "after"] content
      return .schemaFirstPhase (← f.required ofJson? "request_id")
        (← f.required str? "query") (← f.required ofJson? "before")
        (← f.required ofJson? "after")
    | ("DdlSecondPhase", content) => do
      let f ← taskFields? ["request_id", "apply"] content
      return .schemaSecondPhase (← f.required ofJson? "request_id")
        (← f.required bool? "apply")
    | _ => none

end QuorumCommit
