import RecordFlow.Engine.Traced
import RecordFlow.Memory.Engine
import RecordFlow.Parquet.Reader
import RecordFlow.Value.Decoding
import RecordFlow.Proofs.Memory.Pruned
import RecordFlow.Proofs.Pruning.Idempotent
import RecordFlow.Proofs.Pruning.Losses
import RecordFlow.Proofs.Pruning.Nested
import RecordFlow.Proofs.Pruning.Columns
import RecordFlow.Proofs.Pruning.Opaque
import RecordFlow.Proofs.Pruning.Sides
import RecordFlow.Proofs.Pipeline.Workspace
import RecordFlow.Proofs.Translation
import RecordFlow.Proofs.Growth
import RecordFlow.Proofs.Pruning.Emptied
import RecordFlow.Proofs.Aggregation
import RecordFlow.Proofs.Memory.Accumulator
import RecordFlow.Proofs.Memory.Grouping
import RecordFlow.Proofs.Memory.NestedLoop
import RecordFlow.Proofs.Recall
import RecordFlow.Proofs.Csv.Pruned
import RecordFlow.Proofs.Parquet.Projection
import RecordFlow.Proofs.Memory.Sums
import RecordFlow.Proofs.Memory.Extremes
import RecordFlow.Proofs.Schema.Conform
import RecordFlow.Proofs.Json
import RecordFlow.Proofs.Value.Json
import RecordFlow.Proofs.Memory.Positions
import RecordFlow.Proofs.Value.Typed
import RecordFlow.Proofs.Csv.Typed
import RecordFlow.Proofs.Pruning.Declaring
import RecordFlow.Proofs.Schema.Derivation
import RecordFlow.Proofs.Source.Batches
import RecordFlow.Proofs.Pruning.Termination
