import Ocrypt.Scanner
import Ocrypt.Settlement

/-! Operator decisions on unmatched payments: a worker claims a resolution together with a copy
of the transfer, and `ApplyFinalizedResolution` settles the chosen route under the lease. -/
namespace Ocrypt.Resolutions
open Domain Fallible Table Store Writes Settlement Scanner

/-- The form of a UUID in lowercase, as `ids.Valid` accepts it. -/
def validID (value : String) : Bool :=
  let cs := value.toList
  let hex (c : Char) : Bool := ('0' ≤ c && c ≤ '9') || ('a' ≤ c && c ≤ 'f')
  cs.length = 36 &&
    (cs.zipIdx.all fun (c,i) => if i = 8 ∨ i = 13 ∨ i = 18 ∨ i = 23 then c = '-' else hex c) &&
    (cs.getD 19 ' ' ∈ ['8','9','a','b']) && ('1' ≤ cs.getD 14 ' ' && cs.getD 14 ' ' ≤ '8')

structure ManualResolution where
  (id unmatchedPaymentID transferEventID targetRouteID : String)
  candidateSetVersion : ℤ
  (requestedBy approvedBy : String)
  (acceptShortfall acceptLatePayment acceptCrossAsset : Bool)
  reason : String
  status : UnmatchedStatus
  claimToken : String
  attempt : ℕ
  deriving DecidableEq, Repr

/-- A claimed resolution with the transfer as it was stored when it was claimed. -/
structure ResolutionJob where
  resolution : ManualResolution
  expected : TransferEvent
  deriving DecidableEq, Repr

def claimedCopy (row : ResolutionRow) (claimToken : String) : ManualResolution where
  id := row.id
  unmatchedPaymentID := row.unmatchedPaymentID
  transferEventID := row.transferEventID
  targetRouteID := row.targetRouteID
  candidateSetVersion := row.candidateSetVersion
  requestedBy := row.requestedBy
  approvedBy := row.approvedBy
  acceptShortfall := row.acceptShortfall
  acceptLatePayment := row.acceptLatePayment
  acceptCrossAsset := row.acceptCrossAsset
  reason := row.reason
  status := row.status
  claimToken := claimToken
  attempt := row.attemptCount

abbrev awaitsVerification (status : UnmatchedStatus) : Prop :=
  status = .verificationRequested ∨ status = .verificationRetry

/-- A row whose lease is held under the token at `clock`. -/
abbrev HoldsResolution (id claimToken : String) (clock : ℤ) (row : ResolutionRow) : Prop :=
  row.id = id ∧ row.leaseToken = some claimToken ∧ ∃ u ∈ row.lockedUntil, clock < u

variable (ext : Externals) (db : Database)

def loadResolutionJob (id claimToken : String) (clock : ℤ) : Except Failure ResolutionJob := do
  let noRows := databaseFailure "no rows in result set"
  let row ← orFail (db.resolutions.find? fun r => decide (HoldsResolution id claimToken clock r))
    noRows
  let expected ← orFail (db.transferEvents.find? (·.id = row.transferEventID)) noRows
  pure ⟨claimedCopy row claimToken,expected⟩

/-- A row that may be claimed on the chain at `now`. -/
abbrev claimableResolution (chainID : String) (now : ℤ) (r : ResolutionRow) : Prop :=
  (∃ t ∈ db.transferEvents, t.id = r.transferEventID ∧ t.identity.chainID = chainID) ∧
    awaitsVerification r.status ∧ r.nextAttemptAt ≤ now ∧ ∀ u ∈ r.lockedUntil, u < now

def claimResolution (workerID : String) (now lease clock : ℤ) (token : String → String)
    (claimed : Database × List ResolutionJob) (id : String) :
    Except Failure (Database × List ResolutionJob) := do
  let resolutions ← updateOne (fun r => r.id = id ∧ awaitsVerification r.status) (fun r => { r with
    lockedBy := some workerID
    lockedUntil := some (now+lease)
    leaseToken := some (token id)
    attemptCount := r.attemptCount+1 }) (versionConflict "") claimed.1.resolutions
  let db := { claimed.1 with resolutions }
  let job ← loadResolutionJob db id (token id) clock
  pure (db,claimed.2 ++ [job])

def claimResolutions (workerID chainID : String) (now lease : ℤ) (limit : ℕ) (clock : ℤ)
    (token : String → String) : Except Failure (Database × List ResolutionJob) := do
  require (workerID ≠ "" ∧ chainID ≠ "" ∧ second ≤ lease ∧ 1 ≤ limit ∧ limit ≤ 100)
    ⟨.unwrapped,"invalid manual resolution claim"⟩
  let due := (db.resolutions.filter (claimableResolution db chainID now)).insertionSort fun a b =>
    a.nextAttemptAt < b.nextAttemptAt ∨ (a.nextAttemptAt = b.nextAttemptAt ∧ a.id ≤ b.id)
  traverse (claimResolution workerID now lease clock token) ((due.take limit).map (·.id)) (db,[])

structure ManualSettlement where
  stored : ResolutionRow
  route : PaymentRoute
  intent : PaymentIntent
  expected : TransferEvent

/-- The target route is a candidate of the latest set without a disqualifier. -/
abbrev currentCandidate (r : ResolutionRow) (c : MatchCandidate) : Prop :=
  c.tenantID = r.tenantID ∧ c.unmatchedID = r.unmatchedPaymentID ∧ c.routeID = r.targetRouteID ∧
    c.candidateSetVersion = r.candidateSetVersion ∧ c.disqualifiers = [] ∧
    ∀ l ∈ db.candidates, l.tenantID = r.tenantID → l.unmatchedID = r.unmatchedPaymentID →
      l.candidateSetVersion ≤ c.candidateSetVersion

def loadManualSettlement (resolutionID claimToken : String) (clock : ℤ) :
    Except Failure ManualSettlement := do
  let lost := versionConflict ""
  let stored ← orFail (db.resolutions.find? fun r =>
    decide (HoldsResolution resolutionID claimToken clock r ∧ awaitsVerification r.status)) lost
  let route ← orFail (db.routes.find? fun r =>
    r.id = stored.targetRouteID ∧ r.tenantID = stored.tenantID) lost
  let intent ← orFail (intentOf db route) lost
  let expected ← orFail (db.transferEvents.find? (·.id = stored.transferEventID)) lost
  require (∃ c ∈ db.candidates, currentCandidate db stored c) lost
  pure ⟨stored,route,intent,expected⟩

abbrev sameChoices (stored : ResolutionRow) (r : ManualResolution) : Prop :=
  stored.requestedBy = r.requestedBy ∧ stored.approvedBy = r.approvedBy ∧
    stored.targetRouteID = r.targetRouteID ∧ stored.transferEventID = r.transferEventID ∧
    stored.candidateSetVersion = r.candidateSetVersion ∧
    stored.acceptShortfall = r.acceptShortfall ∧ stored.acceptLatePayment = r.acceptLatePayment ∧
    stored.acceptCrossAsset = r.acceptCrossAsset ∧ stored.reason = r.reason

/-- The supplied event is the stored transfer. The status is that of the supplied copy: the
stored status is not compared. -/
def agreesWithStored (expected verified : TransferEvent) : Bool :=
  match verified.identity.key ext.hashing.sha256Hex with
  | .error _ => false
  | .ok verifiedKey =>
    (expected.identity.key ext.hashing.sha256Hex).toOption.getD "" = verifiedKey &&
      verified.id = expected.id && verified.kind = expected.kind &&
      verified.fromAddress = expected.fromAddress &&
      verified.amount.cmp expected.amount = .eq &&
      verified.assetDecimals = expected.assetDecimals &&
      verified.blockHash = expected.blockHash && verified.blockHeight = expected.blockHeight &&
      verified.onChainTime = expected.onChainTime && verified.status = .finalized &&
      verified.evidenceHash = expected.evidenceHash

variable (r : ManualResolution) (m : ManualSettlement)

def checkManualSettlement (resolution : ManualResolution) (verified : TransferEvent) : Except Failure Unit := do
  require (sameChoices m.stored resolution)
    ⟨.invariantViolation,"claimed resolution facts changed"⟩
  require (agreesWithStored ext m.expected verified)
    ⟨.invariantViolation,"supplied scanner event disagrees with canonical transfer"⟩
  require (isLowerSHA256Hex verified.evidenceHash)
    ⟨.validation,"scanner evidence must be lowercase SHA-256 hex"⟩
  require (m.route.requiredFinality ≤ verified.confirmations)
    (stateConflict "transfer has not reached required finality")
  require (verified.identity.chainID = m.route.chainID ∧
      verified.identity.toAddress = m.route.address)
    ⟨.invariantViolation,"transfer does not target the selected route"⟩
  let sameAsset := verified.identity.assetID = m.route.assetID
  require (sameAsset ∨ m.stored.acceptCrossAsset)
    ⟨.validation,"cross-asset settlement was not approved"⟩
  require (sameAsset → verified.amount.cmp m.route.expectedAmount = .lt → m.stored.acceptShortfall)
    ⟨.validation,"payment shortfall was not approved"⟩
  require (m.route.expiresAt < verified.onChainTime → m.stored.acceptLatePayment)
    ⟨.validation,"late payment was not approved"⟩
  require (∀ p ∈ db.paymentMatches, p.source = .transfer verified.id → p.state = .reversed)
    (stateConflict "")

structure ManualIDs where
  (settlement matchID webhook : String)

def manualMatch (verified : TransferEvent) (matchID : String) : PaymentMatch where
  id := matchID
  tenantID := m.route.tenantID
  source := .transfer verified.id
  routeID := m.route.id
  intentID := m.route.intentID
  kind := if m.stored.acceptCrossAsset then .crossAssetOverride else .manual
  expected := m.route.expectedAmount
  received := verified.amount
  credited := verified.amount
  state := .finalized
  policyVersion := 1
  aggregateID := none
  role := .payment

/-- The resolution is completed under its lease and the payment is resolved to the route. -/
def completeResolution (claimToken evidence : String) (clock : ℤ) : Except Failure Database := do
  let resolutions ← updateOne (HoldsResolution m.stored.id claimToken clock) (fun r => { r with
    status := .resolved
    verifierEvidenceHash := some evidence
    lockedBy := none
    lockedUntil := none
    leaseToken := none }) (versionConflict "") db.resolutions
  let unmatched := update (fun u => u.id = m.stored.unmatchedPaymentID ∧
      u.tenantID = some m.route.tenantID)
    (fun u => { u with status := .resolved, selectedRouteID := some m.route.id }) db.unmatched
  pure { db with resolutions, unmatched }

def applyFinalizedResolution (resolution : ManualResolution) (verified : TransferEvent) (clock : ℤ)
    (ids : ManualIDs) : Except Failure Database := do
  require (validID resolution.id ∧ validID resolution.claimToken)
    ⟨.validation,"resolution lease identity is invalid"⟩
  let m ← loadManualSettlement db resolution.id resolution.claimToken clock
  checkManualSettlement ext db m resolution verified
  let exceeds : Bool := verified.identity.assetID = m.route.assetID ∧
    verified.amount.cmp m.route.expectedAmount = .gt
  let db ← insertMatch db (manualMatch m verified ids.matchID)
  let db ← postLedger db
    (transferLedger ext m.route.tenantID m.route.merchantID verified ids.settlement)
  let db ← settleIntent db m.intent.id m.route.tenantID m.intent.version
    (if exceeds then .overpaid else .settled)
  let db := closeOwnRoute db m.route.id m.route.tenantID
  let db ← completeResolution db m resolution.claimToken verified.evidenceHash clock
  insertCallback db ⟨ids.webhook,m.route.tenantID,m.route.merchantID,m.route.intentID,
    if exceeds then .overpaid else .settled,some (m.intent.version+1)⟩

/-- `ResolutionService.Resolve`: the claimed copy itself is the event that is applied, and it
has to be final. -/
def resolve (job : ResolutionJob) (clock : ℤ) (ids : ManualIDs) : Except Failure Database := do
  require (job.resolution.reason ≠ "") ⟨.validation,"a valid operator reason is required"⟩
  require (job.expected.identity.validate = .ok () ∧ job.expected.id ≠ "" ∧
      ¬job.expected.amount.isZero ∧ job.expected.status = .finalized)
    ⟨.invariantViolation,"a canonical finalized scanner event is required"⟩
  applyFinalizedResolution ext db job.resolution job.expected clock ids

def retryResolution (next : ℤ) (dead : Bool) (clock : ℤ) : Except Failure Database := do
  let status : UnmatchedStatus := if dead then .conflict else .verificationRetry
  let resolutions ← updateOne (HoldsResolution r.id r.claimToken clock) (fun row => { row with
    status := status
    nextAttemptAt := next
    lockedBy := none
    lockedUntil := none
    leaseToken := none }) (versionConflict "") db.resolutions
  pure { db with
    resolutions
    unmatched := update (·.id = r.unmatchedPaymentID) (fun u => { u with status := status })
      db.unmatched }

/-- A decision that can never be applied is rejected and the payment reopened. -/
def rejectResolution (clock : ℤ) : Except Failure Database := do
  let resolutions ← updateOne
    (fun row => HoldsResolution r.id r.claimToken clock row ∧ awaitsVerification row.status)
    (fun row => { row with
      status := .invalid
      lockedBy := none
      lockedUntil := none
      leaseToken := none }) (versionConflict "") db.resolutions
  let unmatched ← updateOne (fun u => u.id = r.unmatchedPaymentID ∧ awaitsVerification u.status ∧
      u.selectedRouteID = some r.targetRouteID)
    (fun u => { u with status := .candidatesReady, selectedRouteID := none })
    (versionConflict "") db.unmatched
  pure { db with resolutions, unmatched }

end Ocrypt.Resolutions
