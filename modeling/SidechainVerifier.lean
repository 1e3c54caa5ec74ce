import SidechainVerifier.Bytes
import SidechainVerifier.Chain.Certificate
import SidechainVerifier.Chain.Hash
import SidechainVerifier.Chain.Sidechain
import SidechainVerifier.Chain.Transaction
import SidechainVerifier.Digest.Blake3
import SidechainVerifier.Digest.Sha256
import SidechainVerifier.Error
import SidechainVerifier.Ristretto.Point
import SidechainVerifier.Check
import SidechainVerifier.Ristretto.Group
import SidechainVerifier.Schnorr.Batch
import SidechainVerifier.Schnorr.Prover
import SidechainVerifier.OrderedMap
import SidechainVerifier.Request
import SidechainVerifier.Extraction
import SidechainVerifier.Verdict
import SidechainVerifier.BatchVerification
import SidechainVerifier.Cache
import SidechainVerifier.Queue
import SidechainVerifier.PauseGate
import SidechainVerifier.Stats
import SidechainVerifier.Config
import SidechainVerifier.Delivery
import SidechainVerifier.Driver
import SidechainVerifier.Json.Parser
import SidechainVerifier.Json.Records
import SidechainVerifier.Text.Inspect
import SidechainVerifier.Proofs.Identity
import SidechainVerifier.Proofs.MapLaws
import SidechainVerifier.Proofs.RequestSets
import SidechainVerifier.Proofs.Consultations
import SidechainVerifier.Proofs.Extractions
import SidechainVerifier.Proofs.Steps
import SidechainVerifier.Proofs.Runs
import SidechainVerifier.Proofs.Provenance
import SidechainVerifier.Proofs.Cycles
import SidechainVerifier.Proofs.Notices
import SidechainVerifier.Proofs.CachedVerdicts
import SidechainVerifier.Proofs.Flights
import SidechainVerifier.Proofs.Ledger
import SidechainVerifier.Proofs.Counters
import SidechainVerifier.Proofs.BackendRuns
import SidechainVerifier.Proofs.Inquiries
import SidechainVerifier.Proofs.Binding
import SidechainVerifier.Proofs.BatchVerdicts
import SidechainVerifier.Proofs.Layouts
import SidechainVerifier.Proofs.Transcripts
import SidechainVerifier.Proofs.GroupLaws
import SidechainVerifier.Proofs.Combinations
import SidechainVerifier.Proofs.FlatSets
import SidechainVerifier.Proofs.FlatQueues
import SidechainVerifier.Proofs.Courses
import SidechainVerifier.Proofs.CacheEntries
import SidechainVerifier.Proofs.CompletedCycles
import SidechainVerifier.Proofs.PlainCaches
import SidechainVerifier.Proofs.CacheIndices
import SidechainVerifier.Proofs.ObjectNames
import SidechainVerifier.Proofs.Frames
import SidechainVerifier.Proofs.Guards
import SidechainVerifier.Proofs.Resets
import SidechainVerifier.Proofs.Families
import SidechainVerifier.Proofs.Evictions
import SidechainVerifier.Proofs.Schedules
import SidechainVerifier.Proofs.Triggers
import SidechainVerifier.Proofs.Boundaries
import SidechainVerifier.Proofs.WholeTransactions
import SidechainVerifier.Proofs.Assertions
import SidechainVerifier.Proofs.HonestProofs
import SidechainVerifier.Proofs.Responses
import SidechainVerifier.Proofs.WholeGroups
import SidechainVerifier.Proofs.PauseCounts
import SidechainVerifier.Proofs.ArrivalOrder
import SidechainVerifier.Proofs.CycleAccounts
import SidechainVerifier.Proofs.ServiceRuns
import SidechainVerifier.Proofs.DriverRounds
