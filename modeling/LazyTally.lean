import LazyTally.Bytes
import LazyTally.Counter
import LazyTally.Counters
import LazyTally.Counters.Metered
import LazyTally.Engine.Basic
import LazyTally.Engine.Layered
import LazyTally.Engine.Metered
import LazyTally.Engine.Refusing
import LazyTally.Engine.Resolution
import LazyTally.Failure
import LazyTally.Json.Fields
import LazyTally.Json.Reader
import LazyTally.Json.Value
import LazyTally.Json.Writer
import LazyTally.KeyMap
import LazyTally.Metrics.Meter
import LazyTally.Metrics.Sink
import LazyTally.Metrics.Statistics
import LazyTally.Metrics.Ticker
import LazyTally.Operator.Basic
import LazyTally.Operator.Concatenation
import LazyTally.Operator.Counting
import LazyTally.Operator.Metered
import LazyTally.Operator.Pairwise
import LazyTally.Options
import LazyTally.Random.ChaCha
import LazyTally.Random.Uniform
import LazyTally.Session.Run
import LazyTally.Session.Step
import LazyTally.Store.Batch
import LazyTally.Store.Layers
import LazyTally.Store.Record
import LazyTally.Text.Log
import LazyTally.Text.Quoted
import LazyTally.Text.Shown
import LazyTally.Trace
import LazyTally.Workload.Config
import LazyTally.Workload.KeySource
import LazyTally.Workload.Report
import LazyTally.Workload.Run
import LazyTally.Proofs.OperatorLaws
import LazyTally.Proofs.Resolved
import LazyTally.Proofs.Condensing
import LazyTally.Proofs.Reorganising
import LazyTally.Proofs.Script
import LazyTally.Proofs.LazyResolution
import LazyTally.Proofs.Tally
import LazyTally.Proofs.Adoption
import LazyTally.Proofs.Canonical
import LazyTally.Proofs.Interchange
import LazyTally.Proofs.Containment
import LazyTally.Proofs.Sharing
import LazyTally.Proofs.Reporting
import LazyTally.Proofs.Provenance
import LazyTally.Proofs.Effects
import LazyTally.Proofs.ChainLength
import LazyTally.Proofs.Separation
import LazyTally.Proofs.Dumping
import LazyTally.Proofs.Outcomes
import LazyTally.Proofs.Reopening
import LazyTally.Proofs.Flushing
import LazyTally.Proofs.Regrouping
import LazyTally.Proofs.KeyRange
import LazyTally.Proofs.Totals
import LazyTally.Proofs.Turns
import LazyTally.Proofs.Accounting
import LazyTally.Proofs.Balance
import LazyTally.Proofs.Metering
import LazyTally.Proofs.MergeWork
import LazyTally.Proofs.LimitSchedule
import LazyTally.Proofs.Facade
import LazyTally.Proofs.FailingRuns
import LazyTally.Proofs.KeyCycle
import LazyTally.Proofs.StorageKeys
import LazyTally.Proofs.Acceptance
import LazyTally.Proofs.Rounds
import LazyTally.Proofs.Malformed
import LazyTally.Proofs.Folding
import LazyTally.Proofs.Listing
import LazyTally.Proofs.Json.Grammar
import LazyTally.Proofs.Json.Tokens
import LazyTally.Proofs.Json.Values
import LazyTally.Proofs.Json.Written
import LazyTally.Proofs.Json.Records
import LazyTally.Proofs.Configurations
import LazyTally.Proofs.StoredForm
import LazyTally.Proofs.Representation
import LazyTally.Proofs.Recording
import LazyTally.Proofs.Following
import LazyTally.Proofs.Sinks
import LazyTally.Proofs.Advisory
