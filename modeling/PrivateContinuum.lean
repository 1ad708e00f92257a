import PrivateContinuum.Library.Worklist
import PrivateContinuum.Library.Outcome
import PrivateContinuum.Library.Extremum
import PrivateContinuum.Library.Ordered
import PrivateContinuum.Library.Bytes
import PrivateContinuum.Library.Formats
import PrivateContinuum.Library.Panics
import PrivateContinuum.Library.Interaction
import PrivateContinuum.Library.Simulation
import PrivateContinuum.Library.Union
import PrivateContinuum.Library.KeyedUnion
import PrivateContinuum.Library.Agents
import PrivateContinuum.Library.AppendLog
import PrivateContinuum.Library.Knowledge
import PrivateContinuum.Library.Replicated
import PrivateContinuum.Library.CausalHistory
import PrivateContinuum.Library.Execution
import PrivateContinuum.Core.Basic
import PrivateContinuum.Core.Scalar
import PrivateContinuum.Core.ScalarInvariant
import PrivateContinuum.Core.ScalarMerge
import PrivateContinuum.Core.Construction
import PrivateContinuum.Core.Working
import PrivateContinuum.Core.Finalization
import PrivateContinuum.Core.Domain
import PrivateContinuum.Core.DomainInvariant
import PrivateContinuum.Core.DomainHistory
import PrivateContinuum.Core.Durability
import PrivateContinuum.Core.State
import PrivateContinuum.Core.MergeFrontier
import PrivateContinuum.Core.Handoff
import PrivateContinuum.Sync.Projection
import PrivateContinuum.Sync.ProjectionMerge
import PrivateContinuum.Sync.DirtyDomains
import PrivateContinuum.Sync.DirtyHistory
import PrivateContinuum.Sync.ScalarFraming
import PrivateContinuum.Sync.Codec
import PrivateContinuum.Sync.Protection
import PrivateContinuum.Sync.Wire
import PrivateContinuum.Sync.Protected
import PrivateContinuum.Sync.Recovery
import PrivateContinuum.Sync.Session
import PrivateContinuum.Sync.SessionLikeness
import PrivateContinuum.Sync.Conduct
import PrivateContinuum.Sync.RecordHistory
import PrivateContinuum.Sync.RecordCodec
import PrivateContinuum.Sync.RecordFormat
import PrivateContinuum.Sync.ProjectionFormat
import PrivateContinuum.Sync.RecordSafety
import PrivateContinuum.Sync.PartFormat
import PrivateContinuum.Sync.RecordStore
import PrivateContinuum.Sync.ContextBinding
import PrivateContinuum.Runtime.TrustedState
import PrivateContinuum.Runtime.TrustedStateSet
import PrivateContinuum.Runtime.TrustedStateFormat
import PrivateContinuum.Runtime.Bookkeeping
import PrivateContinuum.Runtime.Publication
import PrivateContinuum.Runtime.Receive
import PrivateContinuum.Runtime.CatchUp
import PrivateContinuum.Runtime.Resume
import PrivateContinuum.Runtime.Assembly
import PrivateContinuum.Runtime.Delivery
import PrivateContinuum.Runtime.CatchUpAgreement
import PrivateContinuum.Runtime.RecoveryKnowledge
import PrivateContinuum.Runtime.PublicationKnowledge
import PrivateContinuum.Storage.Envelope
import PrivateContinuum.Storage.FileSystem
import PrivateContinuum.Storage.UnixFs
import PrivateContinuum.Storage.DiskInvariant
import PrivateContinuum.Storage.CommitSafety
import PrivateContinuum.Storage.CrashConsistency
import PrivateContinuum.Transport.GitHub
import PrivateContinuum.Transport.GitHubHistory
import PrivateContinuum.Transport.GitHubRefinement
import PrivateContinuum.Sync.SessionTraces
import PrivateContinuum.Sync.Network
import PrivateContinuum.Sync.HonestNetwork
import PrivateContinuum.Sync.NetworkSafety
import PrivateContinuum.Runtime.Coverage
import PrivateContinuum.Runtime.CatchUpTraces
import PrivateContinuum.Runtime.ResumeDiscipline
import PrivateContinuum.Runtime.Expectations
import PrivateContinuum.Runtime.Replicas
import PrivateContinuum.Runtime.ReplicaSafety
import PrivateContinuum.Core.GraphWalks
import PrivateContinuum.Library.ShiftRegister
import PrivateContinuum.Storage.EnvelopeIntegrity
import PrivateContinuum.Library.DepthFirst
import PrivateContinuum.Library.Dict
import PrivateContinuum.Reference.Identity
import PrivateContinuum.Reference.Causality
import PrivateContinuum.Reference.CausalityInvariant
import PrivateContinuum.Reference.DeltaSync
import PrivateContinuum.Reference.Checkpoint
import PrivateContinuum.Reference.CheckpointInvariant
import PrivateContinuum.Reference.CheckpointRefinement
import PrivateContinuum.Library.InOrder
import PrivateContinuum.Library.CycleSearch
import PrivateContinuum.Library.Fallback
import PrivateContinuum.Reference.Positions
import PrivateContinuum.Reference.PositionPaths
import PrivateContinuum.Reference.PositionOrder
import PrivateContinuum.Reference.PositionSorting
import PrivateContinuum.Reference.HierarchyInvariant
import PrivateContinuum.Reference.CycleResolution
import PrivateContinuum.Reference.Materialization
import PrivateContinuum.Reference.BoundedResolution
import PrivateContinuum.Reference.HistoryResolution
import PrivateContinuum.Reference.ResolutionConfluence
import PrivateContinuum.Reference.OracleSimulation
import PrivateContinuum.Library.Bypass
import PrivateContinuum.Reference.Finalization
import PrivateContinuum.Reference.SquashInvariant
import PrivateContinuum.Reference.LedgerSafety
