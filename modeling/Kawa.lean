import Kawa.Lib.Dict
import Kawa.Lib.Json
import Kawa.Lib.Latest
import Kawa.Lib.Chain
import Kawa.Lib.Result
import Kawa.Lib.Runs
import Kawa.Lib.Table
import Kawa.Lib.Stretches
import Kawa.Ids
import Kawa.Events
import Kawa.Trust
import Kawa.TrustHistory
import Kawa.Authority
import Kawa.AuthorityCurrency
import Kawa.AuthorityNoise
import Kawa.AuthorityLineage
import Kawa.Tables
import Kawa.Codec
import Kawa.Emit
import Kawa.Stream
import Kawa.CodecRoundTrip
import Kawa.AuthorityGate
import Kawa.Reduce
import Kawa.ReduceProgress
import Kawa.Admission
import Kawa.AdmissionSteps
import Kawa.Archive
import Kawa.Calls
import Kawa.LogInvariant
import Kawa.EmitProgress
import Kawa.LogSound
import Kawa.AdmitProgress
import Kawa.Provenance
import Kawa.ScopeCommitment
import Kawa.AdmittedLog
import Kawa.ClaimStanding
import Kawa.StubUpgrade
import Kawa.KindAgreement
import Kawa.FrozenOrigin
import Kawa.SoleAuthority
import Kawa.PolicyLineage
import Kawa.Http
import Kawa.PullAuthorizer
import Kawa.OfferRetention
import Kawa.Retrieval
import Kawa.ShadowFree
import Kawa.LinkVisibility
import Kawa.Verdict
import Kawa.OriginBooks
import Kawa.BatchTotality
import Kawa.ForkDetection
import Kawa.CausalClock
import Kawa.RuntimeHandles
import Kawa.WireRoundTrip
import Kawa.BundlePlan
import Kawa.Bundle
import Kawa.Redelivery
import Kawa.CatchUp
import Kawa.ScopeSafe
import Kawa.WorkFold
import Kawa.WorkRuns
import Kawa.TierPlan
import Kawa.BalancedEvidence
import Kawa.LeafPrefix
import Kawa.ForkRelease
import Kawa.CausalOrder
import Kawa.PullDecoding
import Kawa.GenesisConflict
import Kawa.ForkRecovery
import Kawa.Backfill
import Kawa.ClockClosure
import Kawa.Lib.Numerals
import Kawa.EvidenceShare
import Kawa.ArchiveSound
import Kawa.ValidityWindow
import Kawa.EdgeAccount
import Kawa.WithheldCount
import Kawa.OrientationBasis
import Kawa.DependencyCounters
import Kawa.BundleTotality
import Kawa.WorkDiscovery
import Kawa.AnchorCurrency
import Kawa.Relations
import Kawa.RelationWalk
import Kawa.ConsoleTotality
import Kawa.ArchiveCycle
import Kawa.SegmentProof
import Kawa.CycleRecovery
import Kawa.Network
import Kawa.ScopeConfinement
import Kawa.WorkConvergence
import Kawa.Supervisor
import Kawa.Leases
import Kawa.PlanFold
import Kawa.ReplicaAgreement
import Kawa.Occurrence
import Kawa.Replay
import Kawa.Incarnations
import Kawa.Participants
import Kawa.PolicyInForce
import Kawa.Attestations
import Kawa.Wakes
import Kawa.Lib.Nesting
import Kawa.Sections
