import FidbPoc.Lib.Table
import FidbPoc.Lib.Checked
import FidbPoc.Lib.Run
import FidbPoc.Coordinator.Records
import FidbPoc.Coordinator.Config
import FidbPoc.Coordinator.Statements
import FidbPoc.Coordinator.Lease
import FidbPoc.Coordinator.Stages
import FidbPoc.Coordinator.Operator
import FidbPoc.Coordinator.Admission
import FidbPoc.Coordinator.Sync
import FidbPoc.Coordinator.System
import FidbPoc.Coordinator.View
import FidbPoc.Coordinator.Edits
import FidbPoc.Coordinator.Lifecycle
import FidbPoc.Coordinator.LeaseSteps
import FidbPoc.Coordinator.OperatorSteps
import FidbPoc.Coordinator.QueueSteps
import FidbPoc.Coordinator.SyncSteps
import FidbPoc.Coordinator.Selection
import FidbPoc.Coordinator.Synchronization
import FidbPoc.Coordinator.Refinement
import FidbPoc.Coordinator.Admissions
import FidbPoc.Coordinator.Mirror
import FidbPoc.Coordinator.QuarantineExclusion
import FidbPoc.Coordinator.Fencing
import FidbPoc.Coordinator.Spans
import FidbPoc.Coordinator.Resync
import FidbPoc.Coordinator.Contenders
import FidbPoc.Coordinator.CarryForward
import FidbPoc.Coordinator.Budget
import FidbPoc.Coordinator.EventLog
import FidbPoc.Coordinator.Slots
import FidbPoc.Lib.Dict
import FidbPoc.Lib.Leaders
import FidbPoc.Lib.Python
import FidbPoc.Lib.Buffer
import FidbPoc.Matching.Scoring
import FidbPoc.Matching.Compact
import FidbPoc.Matching.Population
import FidbPoc.Matching.Streaming
import FidbPoc.Matching.Culling
import FidbPoc.Matching.Interning
import FidbPoc.Matching.Engines
import FidbPoc.Lib.Relation
import FidbPoc.Lib.Sums
import FidbPoc.Corpus.Evidence
import FidbPoc.Corpus.Index
import FidbPoc.Corpus.Delta
import FidbPoc.Corpus.Transaction
import FidbPoc.Corpus.Soundness
import FidbPoc.Corpus.Ingestion
import FidbPoc.Corpus.Cumulative
import FidbPoc.Corpus.Incremental
import FidbPoc.Corpus.Classification
import FidbPoc.Corpus.Folds
import FidbPoc.Corpus.Partition
import FidbPoc.Corpus.Reconciliation
import FidbPoc.Corpus.QueryCounts
import FidbPoc.Coordinator.Execution
import FidbPoc.Coordinator.Canonical
import FidbPoc.Coordinator.Claiming
import FidbPoc.Coordinator.Percentiles
import FidbPoc.Lib.Json
import FidbPoc.Lib.Patterns
import FidbPoc.Lib.FileTree
import FidbPoc.Retention.Policy
import FidbPoc.Retention.Ledger
import FidbPoc.Retention.Records
import FidbPoc.Retention.Success
import FidbPoc.Retention.Failures
import FidbPoc.Retention.Validation
import FidbPoc.Retention.Plan
import FidbPoc.Selection.Registry
import FidbPoc.Selection.Switching
import FidbPoc.Matching.Building
import FidbPoc.Matching.Provenance
import FidbPoc.Matching.Union
import FidbPoc.Materialized.History
import FidbPoc.Lanes.Occurrence
import FidbPoc.Lanes.Database
import FidbPoc.Lanes.Preservation
import FidbPoc.Lanes.Compaction
import FidbPoc.Lanes.Lossless
import FidbPoc.Width.Config
import FidbPoc.Width.Compile
import FidbPoc.Width.Batch
import FidbPoc.Width.Tables
import FidbPoc.Width.Identity
import FidbPoc.Width.Pinning
import FidbPoc.Links.Prepared
import FidbPoc.Links.Report
import FidbPoc.Links.Gate
import FidbPoc.Links.Repair
import FidbPoc.Validation.Claims
import FidbPoc.Validation.Exclusion
import FidbPoc.Validation.Cover
import FidbPoc.Validation.Supervision
import FidbPoc.Validation.Lifecycle
import FidbPoc.Validation.Resumption
import FidbPoc.Lib.Numbered
import FidbPoc.Validation.Attempts
import FidbPoc.Validation.Requeues
import FidbPoc.Validation.Progress
import FidbPoc.Validation.Blame
import FidbPoc.Validation.Reference
import FidbPoc.Validation.LeaveOneOut
import FidbPoc.Lib.Buckets
import FidbPoc.Planning.Authority
import FidbPoc.Planning.Resolution
import FidbPoc.Planning.Loading
import FidbPoc.Planning.Chunks
import FidbPoc.Planning.Packing
import FidbPoc.Planning.Requests
import FidbPoc.Lib.Grouping
import FidbPoc.Planning.Variants
import FidbPoc.Planning.Strategies
import FidbPoc.Planning.Readiness
import FidbPoc.Lib.Toml
import FidbPoc.Lib.SortedJson
import FidbPoc.Lib.Tally
import FidbPoc.Lib.Aggregation
import FidbPoc.Noise.Decisions
import FidbPoc.Noise.RoundTrip
import FidbPoc.Lib.Bins
import FidbPoc.Planning.Blocks
import FidbPoc.Campaigns.Records
import FidbPoc.Campaigns.Reports
import FidbPoc.Campaigns.System
import FidbPoc.Campaigns.Evidence
import FidbPoc.Campaigns.Publication
import FidbPoc.Campaigns.Sessions
import FidbPoc.Campaigns.Exclusion
import FidbPoc.Lib.Makespan
import FidbPoc.Campaigns.Balancing
import FidbPoc.Campaigns.HashEvidence
import FidbPoc.Uploads.Protocol
import FidbPoc.Uploads.Immutability
import FidbPoc.Uploads.Client
import FidbPoc.Uploads.Resumption
import FidbPoc.Exports.Records
import FidbPoc.Exports.Inspection
import FidbPoc.Exports.Build
import FidbPoc.Exports.Readiness
import FidbPoc.Extraction.Staging
import FidbPoc.Extraction.Order
import FidbPoc.Replay.Oracle
import FidbPoc.Replay.Sequence
import FidbPoc.Sources.Acquisition
import FidbPoc.Sources.Receipts
import FidbPoc.Sources.Pulls
import FidbPoc.Sources.Completion
import FidbPoc.Sources.Resolution
import FidbPoc.Sources.Lock
import FidbPoc.Lib.Calendar
import FidbPoc.Operations.Schedule
import FidbPoc.Operations.Loading
import FidbPoc.Operations.Windows
import FidbPoc.Operations.Evaluation
import FidbPoc.Operations.NextWindow
import FidbPoc.Operations.Admission
import FidbPoc.Operations.Overnight
import FidbPoc.Matching.Confusion
import FidbPoc.Matching.Decisions
import FidbPoc.Corpus.Ownership
import FidbPoc.Lib.LowerBound
import FidbPoc.Lib.Lexicographic
import FidbPoc.Lookup.Packing
import FidbPoc.Lookup.Order
import FidbPoc.Lookup.Probe
import FidbPoc.Lookup.Agreement
import FidbPoc.Lookup.Exactness
import FidbPoc.Timing.Gate
import FidbPoc.Timing.Evidence
import FidbPoc.Corpus.Conservation
import FidbPoc.Corpus.Disambiguation
import FidbPoc.Coordinator.Permanence
import FidbPoc.Retention.Accounting
import FidbPoc.Retention.Bundles
import FidbPoc.Retention.Disposal
import FidbPoc.Retention.Survival
import FidbPoc.Extraction.Containment
import FidbPoc.Extraction.Links
