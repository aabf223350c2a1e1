import Ocrypt.MatchingJobs
import Ocrypt.Observations

/-! `IngestAndSettle`, the financial transaction of the chain workers: it stores a transfer or
merges the progress of a stored one, and settles the intent whose route expects exactly this
amount. A final transfer without one exact route becomes an unmatched payment. -/
namespace Ocrypt.Settlement
open Domain SettlementLegs Fallible Table Store Writes Observations Candidates MatchingJobs

abbrev sameFacts (stored event : TransferEvent) : Prop :=
  stored.kind = event.kind ∧ stored.fromAddress = event.fromAddress ∧
    stored.amount = event.amount ∧ stored.assetDecimals = event.assetDecimals ∧
    stored.parserVersion = event.parserVersion

variable (ext : Externals) (db : Database) (event : TransferEvent) (now : ℤ)

/-- The scanner currently holds the block of the event as part of the canonical chain. -/
abbrev canonicalInclusion : Prop :=
  ∃ b ∈ db.chainBlocks, b.chainID = event.identity.chainID ∧ b.height = event.blockHeight ∧
    b.hash = event.blockHash ∧
    b.status ∈ ([.canonical,.safe,.finalized] : List BlockStatus)

def mergeTransferProgress (current : TransferStatus) (confirmations : ℕ)
    (reported : TransferStatus) (reportedConfirmations : ℕ) :
    Except Failure (TransferStatus × ℕ × Bool) :=
  if current ≠ reported ∧ !canTransitionTransfer current reported then
    .error (stateConflict ("invalid transfer finality transition from " ++ current.text ++
      " to " ++ reported.text))
  else
    let resultConfirmations := max confirmations reportedConfirmations
    .ok (reported,resultConfirmations,
      decide (reported ≠ current ∨ resultConfirmations ≠ confirmations))

/-- Equal evidence, or evidence in the older encoding of the same receipt, which is kept. -/
def reconcileEvidence (stored event : TransferEvent) : Except Failure TransferEvent :=
  if stored.evidenceHash = event.evidenceHash then .ok event
  else do
    require (ext.matchesLegacyNativeEVMEvidence event stored.evidenceHash)
      ⟨.invariantViolation,"duplicate transfer identity has different canonical inclusion facts"⟩
    require (∃ a ∈ db.assets, a.id = event.identity.assetID ∧ a.chainID = event.identity.chainID ∧
        a.native ∧ a.decimals = 18)
      ⟨.invariantViolation,"legacy EVM evidence requires a native asset"⟩
    pure { event with evidenceHash := stored.evidenceHash, nativeEVMRawEvidence := [] }

/-- The database after the event is recorded, whether there is anything to act on, and the
event as it is now stored. -/
structure Canonical where
  db : Database
  actionable : Bool
  event : TransferEvent

def storeTransfer : Except Failure Canonical := do
  require (0 < event.amount.n) (databaseFailure "transfer_events_amount_atomic_check")
  let rows ← insertUnique (·.id = event.id) { event with nativeEVMRawEvidence := [] }
    (databaseFailure "transfer_events_pkey") db.transferEvents
  pure ⟨{ db with transferEvents := rows },true,event⟩

def withInclusion (event row : TransferEvent) : TransferEvent :=
  { row with
    blockHash := event.blockHash
    blockHeight := event.blockHeight
    onChainTime := event.onChainTime
    confirmations := event.confirmations
    status := event.status
    evidenceHash := event.evidenceHash }

/-- A stored transfer that a reorganisation orphaned is included again: only in a block that
the scanner holds as canonical. -/
def reincludeTransfer (stored event : TransferEvent) : Except Failure Canonical := do
  require (event.status ∈ ([.observed,.confirmed,.finalized] : List TransferStatus))
    (stateConflict "re-included transfer has invalid finality")
  require (canonicalInclusion db event)
    (stateConflict "re-included transfer lacks current canonical block evidence")
  let rows ← updateOne (fun t => t.id = stored.id ∧ t.status = .reorged) (withInclusion event)
    (versionConflict "") db.transferEvents
  pure ⟨{ db with transferEvents := rows },true,{ event with id := stored.id }⟩

/-- A stored transfer that is reported again: confirmations and finality may only grow. -/
def mergeTransfer (stored event : TransferEvent) : Except Failure Canonical := do
  require (stored.blockHash = event.blockHash ∧ stored.blockHeight = event.blockHeight ∧
      stored.onChainTime = event.onChainTime)
    ⟨.invariantViolation,"duplicate transfer identity has different canonical inclusion facts"⟩
  let canonical ← reconcileEvidence ext db stored event
  let (status,confirmations,progressed) ← mergeTransferProgress stored.status
    stored.confirmations event.status event.confirmations
  let canonical := { canonical with
    id := stored.id, status := status, confirmations := confirmations }
  if progressed then
    let rows ← updateOne (fun t => t.id = stored.id ∧ t.status = stored.status ∧
        t.confirmations = stored.confirmations)
      (fun t => { t with status := status, confirmations := confirmations })
      (versionConflict "") db.transferEvents
    pure ⟨{ db with transferEvents := rows },true,canonical⟩
  else pure ⟨db,false,canonical⟩

def insertCanonicalTransfer : Except Failure Canonical := do
  require (isLowerSHA256Hex event.evidenceHash) ⟨.validation,"invalid transfer evidence hash"⟩
  match db.transferEvents.find? (·.identity = event.identity) with
  | none => storeTransfer db event
  | some stored => do
    require (sameFacts stored event)
      ⟨.invariantViolation,"duplicate transfer identity has different canonical facts"⟩
    if stored.status = .reorged then reincludeTransfer db stored event
    else mergeTransfer ext db stored event

def intentOf (route : PaymentRoute) : Option PaymentIntent :=
  db.intents.find? fun i => i.id = route.intentID ∧ i.tenantID = route.tenantID

/-- A route that is still matchable with an intent that can still be settled. -/
def openIntentOf (route : PaymentRoute) : Option PaymentIntent :=
  (intentOf db route).filter fun i => i.status ∈ openIntentStatuses ∧ route.status.Matchable

/-- The on-chain routes that expect exactly this payment; a route that saw the transfer before
it was orphaned keeps its claim whatever the time of the new inclusion. -/
def exactRoute (r : PaymentRoute) : Prop :=
  r.provider = .onChain ∧ r.chainID = event.identity.chainID ∧
    r.assetID = event.identity.assetID ∧ r.address = event.identity.toAddress ∧
    r.expectedAmount = event.amount ∧
    ((r.startsAt ≤ event.onChainTime ∧ event.onChainTime ≤ r.expiresAt) ∨
      ∃ o ∈ db.observations, o.transferEventID = event.id ∧ o.tenantID = r.tenantID ∧
        o.routeID = r.id ∧ o.finality = .reorged)

instance (db : Database) (event : TransferEvent) (r : PaymentRoute) :
    Decidable (exactRoute db event r) := by
  delta exactRoute
  infer_instance

def findSettlementCandidates : List SettlementCandidate :=
  let rows := (db.routes.filter (exactRoute db event)).filterMap fun r =>
    (openIntentOf db r).map fun i => (r,i)
  let sorted := rows.insertionSort fun a b =>
    a.1.createdAt < b.1.createdAt ∨ (a.1.createdAt = b.1.createdAt ∧ a.1.id ≤ b.1.id)
  (sorted.take 2).map fun (r,i) =>
    ⟨r.tenantID,r.merchantID,r.intentID,r.id,i.version,r.expectedAmount,r.requiredFinality⟩

structure IngestIDs where
  (observation observationWebhook unmatched exceptionWebhook settlement matchID webhook : String)

inductive SettlementOutcome
  | duplicate
  | observed
  | unmatched
  | ambiguous
  | ignored
  | settled
  deriving DecidableEq, Repr

structure SettlementResult where
  transferEventID : String
  outcome : SettlementOutcome
  paymentIntentID : String := ""
  paymentRouteID : String := ""
  settlementID : String := ""
  webhookEventID : String := ""
  deriving DecidableEq, Repr

/-- UPDATE payment_intents to a settled status, fenced by the version that was read. -/
def settleIntent (intentID tenantID : String) (version : ℤ) (status : IntentStatus) :
    Except Failure Database := do
  let intents ← updateOne (fun i => i.id = intentID ∧ i.tenantID = tenantID ∧
      i.version = version ∧ i.status ∈ openIntentStatuses)
    (fun i => { i with status := status, version := i.version+1 }) (versionConflict "") db.intents
  pure { db with intents }

def closeOwnRoute (routeID tenantID : String) : Database :=
  { db with
    routes := update (fun r => r.id = routeID ∧ r.tenantID = tenantID ∧ r.status.Matchable)
      (fun r => { r with status := .settled }) db.routes
    reservations := update
      (fun a => a.routeID = routeID ∧ a.tenantID = tenantID ∧ a.state = .active)
      (fun a => { a with state := .consumed }) db.reservations }

variable (intentID routeID tenantID : String) (ids : IngestIDs)

abbrev siblingRoute (r : PaymentRoute) : Prop :=
  r.intentID = intentID ∧ r.id ≠ routeID ∧ r.tenantID = tenantID

/-- The reservations of the siblings are released and their provider orders superseded. -/
def releaseSiblings : Database :=
  { db with
    reservations := update (fun a => a.state = .active ∧ ∃ r ∈ db.routes,
        a.routeID = r.id ∧ a.tenantID = r.tenantID ∧ siblingRoute intentID routeID tenantID r)
      (fun a => { a with state := .released }) db.reservations
    providerOrders := update (fun po =>
        po.status ∈ ([.pending,.authorized,.cancelRequested] : List ProviderStatus) ∧
        ∃ r ∈ db.routes, po.routeID = r.id ∧ po.tenantID = r.tenantID ∧
          siblingRoute intentID routeID tenantID r)
      (fun po => { po with status := .superseded }) db.providerOrders }

def supersedeSiblings : Database :=
  { db with
    routes := update (fun r => siblingRoute intentID routeID tenantID r ∧ r.status.Matchable)
      (fun r => { r with status := .superseded }) db.routes }

def exactMatch (candidate : SettlementCandidate) (event : TransferEvent) (matchID : String) :
    PaymentMatch where
  id := matchID
  tenantID := candidate.tenantID
  source := .transfer event.id
  routeID := candidate.routeID
  intentID := candidate.intentID
  kind := .exact
  expected := candidate.expected
  received := event.amount
  credited := event.amount
  state := .finalized
  policyVersion := 1
  aggregateID := none
  role := .payment

def transferLedger (tenantID merchantID : String) (event : TransferEvent) (settlementID : String) :
    LedgerTransaction where
  id := settlementID
  tenantID := tenantID
  businessType := .paymentSettlement
  businessReference := settlementID
  reversalOf := none
  correlation := .transfer event.id
  policyVersion := 1
  entries := singleTransferLegs (ext.accounts tenantID merchantID event.identity.assetID)
    event.identity.assetID event.amount

def settleExact (candidate : SettlementCandidate) (event : TransferEvent) (ids : IngestIDs) :
    Except Failure Database := do
  let (db,observation) ← advancePaymentObservation db candidate event ids.observation
    ids.observationWebhook
  let db ← insertMatch db (exactMatch candidate event ids.matchID)
  let db ← postLedger db
    (transferLedger ext candidate.tenantID candidate.merchantID event ids.settlement)
  let db ← settleIntent db candidate.intentID candidate.tenantID candidate.intentVersion .settled
  -- The writes to the own route and to the siblings touch disjoint rows.
  let db := supersedeSiblings db candidate.intentID candidate.routeID candidate.tenantID
  let db := releaseSiblings db candidate.intentID candidate.routeID candidate.tenantID
  let db := closeOwnRoute db candidate.routeID candidate.tenantID
  let db ← insertCallback db ⟨ids.webhook,candidate.tenantID,candidate.merchantID,
    candidate.intentID,.settled,some (candidate.intentVersion+1)⟩
  linkObservationEvent db observation .settled

/-- Transfers below the dust threshold of the asset are ignored, unless a bound policy could
still accept them as a payment. -/
def belowUnmatchedDustThreshold : Except Failure Bool := do
  let asset ← orFail (db.assets.find? fun a =>
      a.chainID = event.identity.chainID ∧ a.id = event.identity.assetID)
    (databaseFailure "no rows in result set")
  let routePlausible := db.routes.any fun r =>
    r.provider = .onChain && r.chainID = event.identity.chainID &&
    r.assetID = event.identity.assetID && r.address = event.identity.toAddress &&
    (openIntentOf db r).isSome &&
    db.bindings.any fun b => b.routeID = r.id && b.tenantID = r.tenantID &&
      ((r.startsAt ≤ event.onChainTime && event.onChainTime ≤ r.expiresAt) ||
        (ext.snapshotAcceptsLate b.policySnapshot && r.expiresAt < event.onChainTime &&
          event.onChainTime ≤ r.graceEndsAt)) &&
      (r.expectedAmount.n : ℤ) *
        (10000 - min 10000 (max 0 (ext.snapshotToleranceBPS b.policySnapshot))) ≤
        event.amount.n*10000
  pure (!routePlausible && !asset.dustThreshold.isZero && event.amount.cmp asset.dustThreshold ≠ .gt)

def hours (n : ℤ) : ℤ := n*60*minute

/-- The routes on the receiving address that come into question, newest first. -/
def matchingRoutes : List PaymentRoute :=
  let rows := db.routes.filter fun r => r.chainID = event.identity.chainID ∧
    r.address = event.identity.toAddress ∧ (openIntentOf db r).isSome ∧
    r.startsAt - hours 24 ≤ event.onChainTime ∧ event.onChainTime ≤ r.graceEndsAt+hours 24
  rows.insertionSort fun a b =>
    b.createdAt < a.createdAt ∨ (a.createdAt = b.createdAt ∧ a.id ≤ b.id)

/-- What the query reads of them: one more than are evaluated, to tell whether there are more. -/
def potentialRoutes : List PaymentRoute := (matchingRoutes db event).take 101

structure Potential where
  candidates : List Candidate := []
  tenantID : String := ""
  classification : String

def findPotentialCandidates : Potential :=
  let routes := potentialRoutes db event
  let bounded := routes.take 100
  match bounded with
  | [] => { classification := "no_candidate_route" }
  | first::_ =>
    if bounded.any (·.tenantID ≠ first.tenantID) then
      { classification := "cross_tenant_ambiguous" }
    else
      let built := buildCandidates event bounded now
      -- A route beyond the bound may be a hidden contender: every candidate says so.
      let candidates := if 100 < routes.length then built.map (fun c =>
        { c with reasons := c.reasons ++ ["candidate_context_truncated"] }) else built
      { candidates
        tenantID := first.tenantID
        classification := match candidates with
          | [] => "no_candidate_route"
          | c::_ => c.exceptionClass.text }

/-- The intent of an exception is moved to review, or shown as partially paid. -/
def recordExceptionIntent (tenantID : String) (candidate : Candidate) (webhookID : String) :
    Except Failure Database :=
  let status : IntentStatus :=
    if candidate.exceptionClass = .partialPayment then .partiallyPaid else .needsReview
  let eventType : CallbackType :=
    if candidate.exceptionClass = .partialPayment then .partiallyPaid else .needsReview
  let selected (i : PaymentIntent) : Prop := i.id = candidate.intentID ∧ i.tenantID = tenantID ∧
    (∃ r ∈ db.routes, r.id = candidate.routeID ∧ r.intentID = i.id ∧ r.tenantID = i.tenantID) ∧
    i.status ∈
      ([.pending,.observed,.partiallyPaid,.confirmed,.expired,.needsReview] : List IntentStatus)
  match db.intents.find? fun i => decide (selected i) with
  | none => .ok db
  | some intent =>
    let intents := update selected (fun i => { i with status := status, version := i.version+1 })
      db.intents
    insertCallback { db with intents }
      ⟨webhookID,tenantID,intent.merchantID,intent.id,eventType,some (intent.version+1)⟩

/-- INSERT INTO unmatched_payments; a row that is not reorged is never overwritten. -/
def upsertUnmatched (row : UnmatchedPayment) : Except Failure (Database × String) :=
  match db.unmatched.find? (·.eventID = row.eventID) with
  | none => do
    let rows ← insertUnique (·.id = row.id) row (databaseFailure "unmatched_payments_pkey")
      db.unmatched
    pure ({ db with unmatched := rows },row.id)
  | some stored =>
    if stored.status = .reorged then
      .ok ({ db with
        unmatched := update (·.eventID = row.eventID) (fun u => { u with
          tenantID := row.tenantID
          classification := row.classification
          status := row.status }) db.unmatched },stored.id)
    else .error (databaseFailure "no rows in result set")

/-- One candidate of the first candidate set, unless its route or rank is already there. -/
def insertCandidate (unmatchedID tenantID : String) (rows : List MatchCandidate)
    (ranked : Candidate × ℕ) : List MatchCandidate :=
  if ∃ c ∈ rows, c.unmatchedID = unmatchedID ∧ c.candidateSetVersion = 1 ∧
      (c.routeID = ranked.1.routeID ∨ c.rank = ranked.2) then rows
  else rows ++ [⟨tenantID,unmatchedID,ranked.1.routeID,ranked.2,ranked.1.score,
    ranked.1.exceptionClass,ranked.1.reasons,[],1⟩]

/-- The candidates are stored; an automatic one is queued for the reducer, otherwise the
intent of the best one is shown as an exception. -/
def routeException (potential : Potential) (unmatchedID : String) (now : ℤ) (webhookID : String) :
    Except Failure Database :=
  if potential.tenantID = "" then .ok db
  else
    let rows := (potential.candidates.zipIdx 1).foldl
      (insertCandidate unmatchedID potential.tenantID) db.candidates
    let db := { db with candidates := rows }
    let contexts := loadAutomaticCandidateContexts db potential.candidates potential.tenantID
    match selectAutomaticCandidate ext event potential.candidates contexts with
    | some automatic =>
      let unique := (uniqueAutomaticCandidate potential.candidates).isSome
      (if unique then recordExceptionIntent db potential.tenantID automatic webhookID
        else .ok db).map fun db =>
        enqueueAutomatedMatchingCandidates db potential.tenantID [automatic] now
    | none =>
      match potential.candidates with
      | [] => .ok db
      | best::_ => recordExceptionIntent db potential.tenantID best webhookID

/-- The payment was classified before: it has a match or an unmatched row that still counts. -/
abbrev alreadyClassified (eventID : String) : Prop :=
  (∃ m ∈ db.paymentMatches, m.source = .transfer eventID ∧ m.state ≠ .reversed) ∨
    ∃ u ∈ db.unmatched, u.eventID = eventID ∧ u.status ≠ .reorged

/-- INSERT INTO unmatched_payments … ON CONFLICT (event_id) DO NOTHING for dust. -/
def ignoreDust (eventID unmatchedID : String) : Except Failure Database :=
  if ∃ u ∈ db.unmatched, u.eventID = eventID then .ok db
  else do
    let rows ← insertUnique (·.id = unmatchedID)
      ⟨unmatchedID,none,eventID,"dust_below_asset_threshold",.ignored,none,1⟩
      (databaseFailure "unmatched_payments_pkey") db.unmatched
    pure { db with unmatched := rows }

def ignorable (several : Bool) : Except Failure Bool :=
  if several then .ok false else belowUnmatchedDustThreshold ext db event

def recordUnmatched (several : Bool) (now : ℤ) (ids : IngestIDs) :
    Except Failure (Database × SettlementOutcome) := do
  let dust ← ignorable ext db event several
  if dust then
    let db ← ignoreDust db event.id ids.unmatched
    pure (db,.ignored)
  else
    let potential := findPotentialCandidates db event now
    let tenantID := if potential.tenantID = "" then none else some potential.tenantID
    let status : UnmatchedStatus :=
      if potential.candidates ≠ [] ∧ potential.tenantID ≠ "" then .candidatesReady else .new
    let (db,unmatchedID) ← upsertUnmatched db
      ⟨ids.unmatched,tenantID,event.id,potential.classification,status,none,1⟩
    let db ← routeException ext db event potential unmatchedID now ids.exceptionWebhook
    pure (db,if several then .ambiguous else .unmatched)

def settleOrClassify : Except Failure (Database × SettlementResult) :=
  let candidates := findSettlementCandidates db event
  if event.status ≠ .finalized then
    match candidates with
    | [candidate] => do
      let (db,_) ← advancePaymentObservation db candidate event ids.observation
        ids.observationWebhook
      pure (db,⟨event.id,.observed,candidate.intentID,candidate.routeID,"",""⟩)
    | _ => .ok (db,{ transferEventID := event.id, outcome := .observed })
  else if alreadyClassified db event.id then
    .ok (db,{ transferEventID := event.id, outcome := .duplicate })
  else
    match candidates with
    | [candidate] =>
      if event.confirmations < candidate.requiredFinality then do
        let (db,_) ← advancePaymentObservation db candidate event ids.observation
          ids.observationWebhook
        pure (db,{ transferEventID := event.id, outcome := .observed })
      else do
        let db ← settleExact ext db candidate event ids
        pure (db,⟨event.id,.settled,candidate.intentID,candidate.routeID,ids.settlement,
          ids.webhook⟩)
    | _ => do
      let (db,outcome) ← recordUnmatched ext db event (1 < candidates.length) now ids
      pure (db,{ transferEventID := event.id, outcome })

def ingestAndSettle : Except Failure (Database × SettlementResult) := do
  let canonical ← insertCanonicalTransfer ext db event
  if canonical.actionable then settleOrClassify ext canonical.db canonical.event now ids
  else pure (canonical.db,{ transferEventID := canonical.event.id, outcome := .duplicate })

end Ocrypt.Settlement
