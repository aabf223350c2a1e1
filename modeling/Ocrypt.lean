import Ocrypt.OrphanedBlocks
import Ocrypt.SiblingRoutes
import Ocrypt.ReorgCycles
import Ocrypt.ResolutionLeases
import Ocrypt.HandledPayments
import Ocrypt.ReplayProtection
import Ocrypt.CallbackReplays
import Ocrypt.DustFilter
import Ocrypt.TransferProgress
import Ocrypt.FinalityQueue
import Ocrypt.FourEyes
import Ocrypt.RefundLedger
import Ocrypt.RefundReplays
import Ocrypt.RefundTotals
import Ocrypt.ArrivalOrder
import Ocrypt.OwnedPayments
import Ocrypt.CandidateSets
import Ocrypt.ShardedScans
import Ocrypt.RewindDepth
import Ocrypt.QuorumFaults
import Ocrypt.RateCollection
import Ocrypt.LegacyEvents
import Ocrypt.ManifestKeys
import Ocrypt.MatchingAttempts
import Ocrypt.WebhookSignatures
import Ocrypt.ReportJobs
import Ocrypt.SafeHeights
import Ocrypt.SparseRanges
import Ocrypt.TraceWindows
import Ocrypt.LedgerReversals
import Ocrypt.SweepBatches
import Ocrypt.ShardFrontiers
import Ocrypt.SettlementSync
import Ocrypt.ProviderCircuits
import Ocrypt.ObservationLifecycle
import Ocrypt.Quotes
import Ocrypt.ReportTotals
