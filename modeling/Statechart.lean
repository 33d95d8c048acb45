import Statechart.Checkpoint
import Statechart.CommandLine
import Statechart.Configuration
import Statechart.Console
import Statechart.Context
import Statechart.Definition
import Statechart.Definition.Build
import Statechart.Definition.Error
import Statechart.Definition.Layout
import Statechart.Definition.Tree
import Statechart.Description
import Statechart.Duration
import Statechart.Execution
import Statechart.History
import Statechart.Interpreter
import Statechart.Json.Basic
import Statechart.Json.Binary64
import Statechart.Json.Number
import Statechart.Json.Printer
import Statechart.Json.Raw
import Statechart.Json.Record
import Statechart.Json.Token
import Statechart.Keyboard
import Statechart.Keyed
import Statechart.Main
import Statechart.Mission
import Statechart.Mission.Actions
import Statechart.Mission.Signals
import Statechart.Path
import Statechart.Proofs.ActionOrder
import Statechart.Proofs.ActiveLeaves
import Statechart.Proofs.Advances
import Statechart.Proofs.Ancestry
import Statechart.Proofs.Answers
import Statechart.Proofs.Armed
import Statechart.Proofs.Atomicity
import Statechart.Proofs.BoundedFirings
import Statechart.Proofs.BoundedHistory
import Statechart.Proofs.Build
import Statechart.Proofs.Calendar
import Statechart.Proofs.CheckpointText
import Statechart.Proofs.Choice
import Statechart.Proofs.Chronicle
import Statechart.Proofs.ClockRange
import Statechart.Proofs.ClockSlices
import Statechart.Proofs.Commit
import Statechart.Proofs.Completion
import Statechart.Proofs.Crash
import Statechart.Proofs.Crossings
import Statechart.Proofs.DefaultEntry
import Statechart.Proofs.Deliveries
import Statechart.Proofs.Displacement
import Statechart.Proofs.DocumentOrder
import Statechart.Proofs.Enactment
import Statechart.Proofs.Ending
import Statechart.Proofs.Errors
import Statechart.Proofs.Failure
import Statechart.Proofs.Farewell
import Statechart.Proofs.Finality
import Statechart.Proofs.FiringOrder
import Statechart.Proofs.Firings
import Statechart.Proofs.Foresight
import Statechart.Proofs.Forgetful
import Statechart.Proofs.Generations
import Statechart.Proofs.Handlers
import Statechart.Proofs.JsonText
import Statechart.Proofs.KeyPaths
import Statechart.Proofs.Layout
import Statechart.Proofs.LegalRuns
import Statechart.Proofs.Legality
import Statechart.Proofs.Listing
import Statechart.Proofs.NodeTable
import Statechart.Proofs.Notification
import Statechart.Proofs.Numerals
import Statechart.Proofs.Outcome
import Statechart.Proofs.Passes
import Statechart.Proofs.Phases
import Statechart.Proofs.Plan
import Statechart.Proofs.Posts
import Statechart.Proofs.PredatorFlag
import Statechart.Proofs.PrettyText
import Statechart.Proofs.Progress
import Statechart.Proofs.Provision
import Statechart.Proofs.Queries
import Statechart.Proofs.Readings
import Statechart.Proofs.Records
import Statechart.Proofs.References
import Statechart.Proofs.Restart
import Statechart.Proofs.Restoration
import Statechart.Proofs.RestoredHistory
import Statechart.Proofs.Resumption
import Statechart.Proofs.Retiming
import Statechart.Proofs.Root
import Statechart.Proofs.RoundTrip
import Statechart.Proofs.RunToCompletion
import Statechart.Proofs.Runs
import Statechart.Proofs.Scanning
import Statechart.Proofs.Scope
import Statechart.Proofs.Selection
import Statechart.Proofs.Sequencing
import Statechart.Proofs.Settled
import Statechart.Proofs.Siblings
import Statechart.Proofs.Sorties
import Statechart.Proofs.SpecText
import Statechart.Proofs.Stack
import Statechart.Proofs.Subscriptions
import Statechart.Proofs.Succession
import Statechart.Proofs.Tables
import Statechart.Proofs.Targets
import Statechart.Proofs.TimerDiscipline
import Statechart.Proofs.TimerSignals
import Statechart.Proofs.TimestampText
import Statechart.Proofs.UuidText
import Statechart.Proofs.Validity
import Statechart.Proofs.Value
import Statechart.Routine
import Statechart.Settings
import Statechart.Snapshot
import Statechart.Spec
import Statechart.Spec.Codec
import Statechart.StateSet
import Statechart.StateValue
import Statechart.Step.Plan
import Statechart.Step.Scope
import Statechart.Step.Selection
import Statechart.Text.Blank
import Statechart.Text.Printable
import Statechart.Text.Quoted
import Statechart.Timers
import Statechart.Timestamp
import Statechart.Transport
import Statechart.Uuid
