import Ocrypt.SettlementLegs

/-! The PostgreSQL state that the settlement transactions share: one list of rows per table,
with the columns the transactions read or write. Timestamps kept for display, evidence blobs,
webhook bodies and the outbox are left out. -/
namespace Ocrypt.Store
open Money Domain Ledger Matching SettlementLegs

inductive BlockStatus
  | observed
  | canonical
  | safe
  | finalized
  | reorged
  deriving DecidableEq, Repr

structure ChainBlock where
  chainID : String
  height : ℕ
  hash : String
  status : BlockStatus
  lastObservedAt : ℤ

/-- A row of scanner_cursors; the primary key is (chain, shard, capability). -/
structure ScannerCursor where
  (chainID shard capability : String)
  height : ℕ
  hash : String
  lockedBy : Option String
  lockedUntil : Option ℤ
  version : ℤ

inductive QueueStatus
  | pending
  | leased
  | retry
  | deadLetter
  | reorged
  deriving DecidableEq, Repr

/-- A row of scanner_transfer_queue; (chain, identity key) is unique. -/
structure QueuedTransfer where
  (eventID chainID identityKey : String)
  event : TransferEvent
  status : QueueStatus
  attemptCount : ℕ
  nextAttemptAt : ℤ
  lockedBy : Option String
  lockedUntil : Option ℤ
  leaseToken : Option String

structure PaymentIntent where
  (id tenantID merchantID customerReference : String)
  amountMinor : Amount
  currency : String
  currencyScale : ℕ
  metadata : String
  status : IntentStatus
  version : ℤ

def PaymentIntent.key (i : PaymentIntent) : String × String := (i.id,i.tenantID)

inductive ReservationState
  | active
  | released
  | consumed
  deriving DecidableEq, Repr

/-- A row of amount_reservations; active rows of one exact amount never overlap in time. -/
structure AmountReservation where
  (id tenantID routeID chainID address assetID : String)
  exactAmount : Amount
  (windowStart windowEnd : ℤ)
  state : ReservationState

inductive ObservationFinality
  | observed
  | confirmed
  | finalized
  | reorged
  deriving DecidableEq, Repr

/-- A row of payment_observations; there is at most one for a transfer. -/
structure PaymentObservation where
  (id tenantID merchantID intentID routeID transferEventID : String)
  identity : EventIdentity
  fromAddress : String
  amount : Amount
  assetDecimals : ℕ
  blockHash : String
  blockHeight : ℕ
  blockTime : ℤ
  (confirmations requiredConfirmations : ℕ)
  finality : ObservationFinality
  evidenceHash : String
  (generation version : ℕ)

inductive CallbackType
  | observed
  | confirming
  | settled
  | overpaid
  | reorged
  | needsReview
  | partiallyPaid
  deriving DecidableEq, Repr

/-- A row of payment_observation_events; the three columns are its primary key. -/
structure ObservationEvent where
  observationID : String
  generation : ℕ
  eventType : CallbackType
  deriving DecidableEq, Repr

/-- A row of callback_events; (intent, aggregate sequence) is unique where the sequence is
not null. -/
structure CallbackEvent where
  (id tenantID merchantID intentID : String)
  eventType : CallbackType
  aggregateSequence : Option ℤ

inductive MatchKind
  | exact
  | partialPayment
  | gasfreePolicy
  | manual
  | crossAssetOverride
  deriving DecidableEq, Repr

inductive MatchState
  | proposed
  | finalized
  | reversed
  deriving DecidableEq, Repr

/-- The evidence a match credits: a transfer or a verified event of a hosted provider. -/
inductive MatchSource
  | transfer (eventID : String)
  | provider (inboxID : String)
  deriving DecidableEq, Repr

structure PaymentMatch where
  (id tenantID : String)
  source : MatchSource
  (routeID intentID : String)
  kind : MatchKind
  (expected received credited : Amount)
  state : MatchState
  policyVersion : ℤ
  aggregateID : Option String
  role : AllocationRole

inductive AggregateState
  | collecting
  | review
  | settled
  | reversed
  deriving DecidableEq, Repr

/-- A row of payment_match_aggregates; a route has at most one that is not reversed. -/
structure MatchAggregate where
  (id tenantID merchantID routeID intentID policyID : String)
  policyVersion : ℤ
  state : AggregateState
  classification : ExceptionClass
  (expected received credited treasuryReceived gasFreeFees : Amount)
  evidenceHash : String

/-- A row of payment_route_policy_bindings: the policy text bound to a route, with its digest. -/
structure PolicyBinding where
  (routeID tenantID policySnapshot configHash : String)

inductive JobStatus
  | pending
  | leased
  | retry
  | completed
  | deadLetter
  deriving DecidableEq, Repr

/-- A row of automated_matching_jobs; the primary key is the route. -/
structure MatchingJob where
  (routeID tenantID merchantID : String)
  status : JobStatus
  nextAttemptAt : ℤ
  attemptCount : ℕ
  lockedBy : Option String
  lockedUntil : Option ℤ
  leaseToken : Option String
  rescheduleRequested : Bool

inductive UnmatchedStatus
  | new
  | candidatesReady
  | bound
  | approvalRequired
  | verificationRequested
  | verificationRetry
  | verified
  | resolved
  | ignored
  | invalid
  | conflict
  | reorged
  deriving DecidableEq, Repr

/-- A row of unmatched_payments; there is at most one for a transfer. -/
structure UnmatchedPayment where
  id : String
  tenantID : Option String
  (eventID classification : String)
  status : UnmatchedStatus
  selectedRouteID : Option String
  workflowVersion : ℤ

/-- A row of match_candidates; route and rank are unique in a candidate set. -/
structure MatchCandidate where
  (tenantID unmatchedID routeID : String)
  rank : ℕ
  score : ℤ
  exceptionClass : ExceptionClass
  (reasons disqualifiers : List String)
  candidateSetVersion : ℤ

structure ResolutionRow where
  (id tenantID unmatchedPaymentID transferEventID targetRouteID : String)
  candidateSetVersion : ℤ
  (requestedBy approvedBy : String)
  (acceptShortfall acceptLatePayment acceptCrossAsset : Bool)
  reason : String
  status : UnmatchedStatus
  verifierEvidenceHash : Option String
  nextAttemptAt : ℤ
  attemptCount : ℕ
  lockedBy : Option String
  lockedUntil : Option ℤ
  leaseToken : Option String

inductive BusinessType
  | paymentSettlement
  | paymentSettlementReversal
  deriving DecidableEq, Repr

/-- The record a ledger transaction is booked for. The column holds its UUID; UUIDs of
different kinds of record are never equal. -/
inductive Correlation
  | transfer (eventID : String)
  | aggregate (aggregateID : String)
  | provider (inboxID : String)
  deriving DecidableEq, Repr

structure LedgerTransaction where
  (id tenantID : String)
  businessType : BusinessType
  businessReference : String
  reversalOf : Option String
  correlation : Correlation
  policyVersion : ℤ
  entries : List LedgerEntry
  deriving DecidableEq

structure Asset where
  (id chainID : String)
  native : Bool
  decimals : ℕ
  dustThreshold : Amount

inductive ProviderStatus
  | pending
  | authorized
  | paid
  | cancelRequested
  | cancelled
  | failed
  | refunded
  | superseded
  deriving DecidableEq, Repr

/-- A row of provider_orders; (provider, provider reference) is unique. -/
structure ProviderOrder where
  (id tenantID merchantID routeID providerID providerReference : String)
  status : ProviderStatus
  assetID : String
  amount : Amount
  assetDecimals : ℕ
  lastOccurredAt : Option ℤ
  lastEventID : String

structure ProviderEvidence where
  providerReference : String
  status : ProviderStatus
  assetID : String
  amount : Amount
  assetDecimals : ℕ
  (rawDigest signatureDigest configManifestID : String)
  configVersion : ℤ
  deriving DecidableEq, Repr

/-- A row of provider_inbox; (provider, provider event) is unique. -/
structure ProviderInboxEvent where
  (id tenantID merchantID providerID providerOrderID routeID providerEventID : String)
  evidence : ProviderEvidence

inductive PrebindState
  | pending
  | attached
  | expired
  deriving DecidableEq, Repr

/-- A row of provider_prebind_inbox; (provider, provider event) is unique. -/
structure PrebindEvent where
  (id tenantID merchantID providerID providerEventID : String)
  evidence : ProviderEvidence
  state : PrebindState
  claimToken : Option String
  claimUntil : Option ℤ
  attachedInboxID : Option String

inductive IncidentKind
  | paidAfterRefund
  | refundAfterSettlement
  | refundBeforeSettlement
  | economicFactMismatch
  deriving DecidableEq, Repr

/-- A row of provider_reconciliation_incidents; the inbox event is unique. -/
structure ReconciliationIncident where
  (providerOrderID providerInboxID : String)
  kind : IncidentKind

/-- A row of hosted_provider_runtime_incidents of kind provider_callback_quarantined. -/
structure RuntimeIncident where
  (providerOrderID evidenceDigest : String)

structure Database where
  chainBlocks : List ChainBlock := []
  cursors : List ScannerCursor := []
  transferQueue : List QueuedTransfer := []
  transferEvents : List TransferEvent := []
  assets : List Asset := []
  intents : List PaymentIntent := []
  routes : List PaymentRoute := []
  reservations : List AmountReservation := []
  observations : List PaymentObservation := []
  observationEvents : List ObservationEvent := []
  callbacks : List CallbackEvent := []
  paymentMatches : List PaymentMatch := []
  aggregates : List MatchAggregate := []
  bindings : List PolicyBinding := []
  jobs : List MatchingJob := []
  unmatched : List UnmatchedPayment := []
  candidates : List MatchCandidate := []
  resolutions : List ResolutionRow := []
  ledger : List LedgerTransaction := []
  providerOrders : List ProviderOrder := []
  providerInbox : List ProviderInboxEvent := []
  prebindInbox : List PrebindEvent := []
  reconciliationIncidents : List ReconciliationIncident := []
  runtimeIncidents : List RuntimeIncident := []

/-- What the transactions use from outside the tables: digests and JSON encoding, the reading
of a policy text and of intent metadata, the compatibility proof of legacy evidence, and the
ledger accounts of a merchant and asset, which are created on first use and never change. -/
structure Externals where
  hashing : Hashing
  marshalAmbiguity : (routeID policy received : String) → (eventIDs : List String) → String
  decodePolicy : String → Option AutomatedMatchingPolicy
  snapshotAcceptsLate : String → Bool
  snapshotToleranceBPS : String → ℤ
  canonicalCandidateMetadata : String → Option String
  matchesLegacyNativeEVMEvidence : TransferEvent → String → Bool
  accounts : (tenantID merchantID assetID : String) → SettlementAccounts

def versionConflict (detail : String) : Failure := ⟨.versionConflict,detail⟩

def stateConflict (detail : String) : Failure := ⟨.stateConflict,detail⟩

def databaseFailure (detail : String) : Failure := ⟨.database,detail⟩

def openIntentStatuses : List IntentStatus :=
  [.pending,.observed,.partiallyPaid,.confirmed,.expired,.needsReview,.reorgReview]

/-- `hex.DecodeString` followed by the length check of SHA-256: 64 hexadecimal digits. -/
def isSHA256Hex (text : String) : Bool :=
  text.toList.length = 64 && text.toList.all fun c =>
    ('0' ≤ c && c ≤ '9') || ('a' ≤ c && c ≤ 'f') || ('A' ≤ c && c ≤ 'F')

/-- The digits are also lowercase, as `hex.EncodeToString` writes them. -/
def isLowerSHA256Hex (text : String) : Bool :=
  text.toList.length = 64 && text.toList.all fun c =>
    ('0' ≤ c && c ≤ '9') || ('a' ≤ c && c ≤ 'f')

end Ocrypt.Store
