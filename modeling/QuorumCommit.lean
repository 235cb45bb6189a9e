import QuorumCommit.Attempt.Basic
import QuorumCommit.Attempt.Phases
import QuorumCommit.Attempt.Registry
import QuorumCommit.ChangeSet
import QuorumCommit.Cluster.Basic
import QuorumCommit.Cluster.Commit
import QuorumCommit.Cluster.Delivery
import QuorumCommit.Cluster.Schema
import QuorumCommit.Fault
import QuorumCommit.FileTree.Basic
import QuorumCommit.FileTree.Path
import QuorumCommit.FileTree.Replace
import QuorumCommit.Ident
import QuorumCommit.Journal
import QuorumCommit.Json.Basic
import QuorumCommit.Json.Form
import QuorumCommit.Json.Forms
import QuorumCommit.Json.Printer
import QuorumCommit.Json.Reader
import QuorumCommit.LockTable
import QuorumCommit.Meter
import QuorumCommit.Node.Answer
import QuorumCommit.Node.Basic
import QuorumCommit.Node.Data
import QuorumCommit.Node.Schema
import QuorumCommit.Order
import QuorumCommit.Proofs.Attempt.Applying
import QuorumCommit.Proofs.Attempt.Ending
import QuorumCommit.Proofs.Attempt.Fitting
import QuorumCommit.Proofs.Attempt.Holding
import QuorumCommit.Proofs.Attempt.Keeping
import QuorumCommit.Proofs.Attempt.Preparing
import QuorumCommit.Proofs.Attempt.Registry
import QuorumCommit.Proofs.Attempt.Taking
import QuorumCommit.Proofs.ChangeSet
import QuorumCommit.Proofs.Cluster.Abroad
import QuorumCommit.Proofs.Cluster.Agreement
import QuorumCommit.Proofs.Cluster.CatchUpTrace
import QuorumCommit.Proofs.Cluster.CatchingUp
import QuorumCommit.Proofs.Cluster.Commands
import QuorumCommit.Proofs.Cluster.Committing
import QuorumCommit.Proofs.Cluster.Convergence
import QuorumCommit.Proofs.Cluster.Declining
import QuorumCommit.Proofs.Cluster.Durability
import QuorumCommit.Proofs.Cluster.Enduring
import QuorumCommit.Proofs.Cluster.ExactlyOnce
import QuorumCommit.Proofs.Cluster.Gapless
import QuorumCommit.Proofs.Cluster.History
import QuorumCommit.Proofs.Cluster.Leading
import QuorumCommit.Proofs.Cluster.Member
import QuorumCommit.Proofs.Cluster.Network
import QuorumCommit.Proofs.Cluster.NoDivergence
import QuorumCommit.Proofs.Cluster.NoLeak
import QuorumCommit.Proofs.Cluster.NoTrace
import QuorumCommit.Proofs.Cluster.Offers
import QuorumCommit.Proofs.Cluster.Ordered
import QuorumCommit.Proofs.Cluster.Outstanding
import QuorumCommit.Proofs.Cluster.Polling
import QuorumCommit.Proofs.Cluster.Replicas
import QuorumCommit.Proofs.Cluster.Resubmission
import QuorumCommit.Proofs.Cluster.Retiring
import QuorumCommit.Proofs.Cluster.RoundParts
import QuorumCommit.Proofs.Cluster.Rounds
import QuorumCommit.Proofs.Cluster.Running
import QuorumCommit.Proofs.Cluster.Runs
import QuorumCommit.Proofs.Cluster.SchemaSettled
import QuorumCommit.Proofs.Cluster.Station
import QuorumCommit.Proofs.Cluster.Steady
import QuorumCommit.Proofs.Cluster.Submission
import QuorumCommit.Proofs.Cluster.Unblocked
import QuorumCommit.Proofs.Cluster.Undoing
import QuorumCommit.Proofs.Cluster.VoteKept
import QuorumCommit.Proofs.Contention
import QuorumCommit.Proofs.FileTree
import QuorumCommit.Proofs.Journal
import QuorumCommit.Proofs.Journal.Contiguity
import QuorumCommit.Proofs.Journal.Unsaved
import QuorumCommit.Proofs.LockTable
import QuorumCommit.Proofs.Node.Acts
import QuorumCommit.Proofs.Node.Answering
import QuorumCommit.Proofs.Node.Between
import QuorumCommit.Proofs.Node.Bodies
import QuorumCommit.Proofs.Node.Calls
import QuorumCommit.Proofs.Node.Calm
import QuorumCommit.Proofs.Node.CatchUp
import QuorumCommit.Proofs.Node.Confined
import QuorumCommit.Proofs.Node.Discipline
import QuorumCommit.Proofs.Node.Exclusive
import QuorumCommit.Proofs.Node.Issue
import QuorumCommit.Proofs.Node.Judging
import QuorumCommit.Proofs.Node.LostUpdate
import QuorumCommit.Proofs.Node.Onward
import QuorumCommit.Proofs.Node.Opening
import QuorumCommit.Proofs.Node.Origin
import QuorumCommit.Proofs.Node.Pledge
import QuorumCommit.Proofs.Node.Reports
import QuorumCommit.Proofs.Node.SchemaActs
import QuorumCommit.Proofs.Node.SchemaSession
import QuorumCommit.Proofs.Node.SchemaSettling
import QuorumCommit.Proofs.Node.Session
import QuorumCommit.Proofs.Node.Settling
import QuorumCommit.Proofs.Node.Voting
import QuorumCommit.Proofs.Node.Writing
import QuorumCommit.Proofs.Retry
import QuorumCommit.Proofs.Sequencer
import QuorumCommit.Proofs.Sequencer.Issuing
import QuorumCommit.Proofs.Sequencer.Snapshot
import QuorumCommit.Proofs.Step
import QuorumCommit.Proofs.Store.Admission
import QuorumCommit.Proofs.Store.Built
import QuorumCommit.Proofs.Store.Commands
import QuorumCommit.Proofs.Store.Commuting
import QuorumCommit.Proofs.Store.Content
import QuorumCommit.Proofs.Store.Footprint
import QuorumCommit.Proofs.Store.AllocationRun
import QuorumCommit.Proofs.Store.Places
import QuorumCommit.Proofs.Store.Placing
import QuorumCommit.Proofs.Store.Reservation
import QuorumCommit.Proofs.Store.UniqueKeys
import QuorumCommit.Proofs.Store.Waiting
import QuorumCommit.Proofs.Tally
import QuorumCommit.Proofs.Tally.Majority
import QuorumCommit.Proofs.Text.Utf8
import QuorumCommit.Proofs.Wire
import QuorumCommit.Proofs.Wire.Task
import QuorumCommit.Proofs.Wire.Truncation
import QuorumCommit.Proofs.InFlight.Basic
import QuorumCommit.Proofs.InFlight.Chronicle
import QuorumCommit.Proofs.InFlight.Guard
import QuorumCommit.Proofs.InFlight.Leaks
import QuorumCommit.Proofs.InFlight.Owned
import QuorumCommit.Proofs.InFlight.Sound
import QuorumCommit.Proofs.InFlight.Vote
import QuorumCommit.Retry
import QuorumCommit.Sequencer.Basic
import QuorumCommit.Sequencer.Snapshot
import QuorumCommit.Sequencer.Verdict
import QuorumCommit.Settings.Basic
import QuorumCommit.Settings.Environment
import QuorumCommit.Store.Admission
import QuorumCommit.Store.Basic
import QuorumCommit.Store.Index
import QuorumCommit.Store.Positions
import QuorumCommit.Tally
import QuorumCommit.Task
import QuorumCommit.Text.Blank
import QuorumCommit.Text.Hex
import QuorumCommit.Text.Numeral
import QuorumCommit.Text.Outline
import QuorumCommit.Text.Quoted
import QuorumCommit.Text.Unprintable
import QuorumCommit.Text.Utf8
import QuorumCommit.Wire.Basic
import QuorumCommit.Wire.Task
