import Ocrypt.Settlement

/-! `ReconcileAutomatedMatching`: one evaluation of a route under its lease. The route's policy
and the transfers it may claim are loaded, the reducer decides, and the decision is persisted
as an aggregate with one match for each allocation. -/
namespace Ocrypt.MatchingStore
open Money Domain Ledger Matching SettlementLegs Fallible Table Store Writes Candidates
  MatchingJobs Settlement

/-- The route under evaluation with the policy that is bound to it. -/
structure AutomatedMatchingRoute where
  route : PaymentRoute
  policy : AutomatedMatchingPolicy

/-- The identifiers drawn by one reconciliation; a match is drawn for each event. -/
structure ReconcileIDs where
  aggregate : String
  matchID : (eventID : String) → String
  webhook : String

variable (ext : Externals) (db : Database) (r : AutomatedMatchingRoute) (aggregateID : String)
    (d : AutomatedMatchDecision) (route : PaymentRoute) (state : MatchState) (ids : ReconcileIDs)

def loadAutomatedMatchingRoute (routeID : String) : Except Failure AutomatedMatchingRoute := do
  let noRows := databaseFailure "no rows in result set"
  let route ← orFail (db.routes.find? (·.id = routeID)) noRows
  require (∃ i ∈ db.intents, i.id = route.intentID ∧ i.tenantID = route.tenantID ∧
    i.merchantID = route.merchantID) noRows
  let binding ← orFail (db.bindings.find? fun b =>
    b.routeID = route.id ∧ b.tenantID = route.tenantID) noRows
  require (ext.hashing.sha256Hex binding.policySnapshot = binding.configHash)
    ⟨.invariantViolation,"bound matching policy digest mismatch"⟩
  let policy ← orFail (ext.decodePolicy binding.policySnapshot)
    ⟨.unwrapped,"decode matching policy"⟩
  policy.validate
  pure ⟨route,policy⟩

variable (events : List TransferEvent) (event : TransferEvent) (t : TransferEvent)

def isFee : Bool := event.kind = "gasfree_fee"

abbrev directTransfer : Prop :=
  t.identity.chainID = route.chainID ∧ t.identity.assetID = route.assetID ∧
    t.identity.toAddress = route.address ∧ isFee t = false ∧ t.status = .finalized ∧
    route.requiredFinality ≤ t.confirmations ∧ route.startsAt ≤ t.onChainTime ∧
    t.onChainTime ≤ route.graceEndsAt

abbrev feeTransfer : Prop :=
  t.identity.chainID = route.chainID ∧ t.identity.assetID = route.assetID ∧ isFee t ∧
    t.status = .finalized ∧ route.requiredFinality ≤ t.confirmations ∧
    ∃ d ∈ db.transferEvents, directTransfer route d ∧
      d.identity.transactionID = t.identity.transactionID

def matchableTransfers : List TransferEvent :=
  (db.transferEvents.filter fun t => (directTransfer route t ∨ feeTransfer db route t) ∧
    ∀ m ∈ db.paymentMatches, m.source = .transfer t.id → m.state ≠ .reversed →
      m.routeID = route.id).insertionSort fun a b =>
    a.onChainTime < b.onChainTime ∨ (a.onChainTime = b.onChainTime ∧ a.id ≤ b.id)

def storedCandidates (tenantID : String) : List Candidate :=
  let rows := (db.unmatched.filter fun u => u.eventID = event.id ∧ u.tenantID = some tenantID ∧
      u.status ∈ ([.new,.candidatesReady,.bound] : List UnmatchedStatus)).flatMap fun u =>
    db.candidates.filter fun c => c.unmatchedID = u.id ∧ c.tenantID = tenantID ∧
      c.candidateSetVersion = u.workflowVersion
  (rows.insertionSort fun a b =>
      b.score < a.score ∨ (a.score = b.score ∧ a.rank ≤ b.rank)).map fun c =>
    { routeID := c.routeID
      intentID := ((db.routes.find? fun r => r.id = c.routeID ∧ r.tenantID = c.tenantID).map
        (·.intentID)).getD ""
      exceptionClass := c.exceptionClass
      score := c.score
      amountDelta := none
      reasons := c.reasons }

/-- The route an event belongs to by its recorded candidates, the empty text when none owns it,
and whether a tie failed its validation. -/
def loadAutomaticEventOwner (tenantID : String) : String × Bool :=
  let candidates := storedCandidates db event tenantID
  match uniqueAutomaticCandidate candidates with
  | some winner => (winner.routeID,false)
  | none =>
    match candidates with
    | first::second::_ =>
      if first.score ≠ 100 ∨ second.score ≠ 100 then ("",false)
      else
        let contexts := loadAutomaticCandidateContexts db candidates tenantID
        match selectAutomaticCandidate ext event candidates contexts with
        | some winner => (winner.routeID,false)
        | none => ("",true)
    | _ => ("",false)

/-- The payments the route owns or that nobody owns, followed by the fees of their
transactions, and the payments that nobody owns. -/
def filterAutomatedMatchingEvents (owner : TransferEvent → String) (routeID : String) :
    List TransferEvent × List TransferEvent :=
  let owned := events.filter fun e => isFee e = false ∧ (owner e = "" ∨ owner e = routeID)
  let fees := events.filter fun e => isFee e ∧
    ∃ p ∈ owned, p.identity.transactionID = e.identity.transactionID
  (owned ++ fees,owned.filter fun e => owner e = "")

abbrev overlapsOther : Prop :=
  directTransfer route t ∧ ∃ other ∈ db.routes,
    other.chainID = t.identity.chainID ∧ other.assetID = t.identity.assetID ∧
    other.address = t.identity.toAddress ∧
    (∃ b ∈ db.bindings, b.routeID = other.id ∧ b.tenantID = other.tenantID) ∧
    other.id ≠ route.id ∧ other.status.Matchable ∧
    other.startsAt ≤ t.onChainTime ∧ t.onChainTime ≤ other.graceEndsAt ∧
    (route.expiresAt ≤ t.onChainTime ∨ t.onChainTime ≤ other.expiresAt)

def loadAutomatedMatchingEvents : List TransferEvent × Bool :=
  let events := matchableTransfers db route
  let owner (e : TransferEvent) := (loadAutomaticEventOwner ext db e route.tenantID).1
  let rejected := events.any fun e =>
    !isFee e && (loadAutomaticEventOwner ext db e route.tenantID).2
  let (filtered,unknown) := filterAutomatedMatchingEvents events owner route.id
  (filtered,rejected || unknown.any fun t => decide (overlapsOther db route t))

/-- The sum of the payments; an overflow leaves the zero amount, as the ignored error does. -/
def receivedOf : Amount :=
  events.foldl (fun received e =>
    if isFee e = false ∧ e.identity.toAddress = route.address then
      match received.add e.amount with
      | .ok total => total
      | .error _ => .zero
    else received) .zero

/-- The decision for payments that several routes could claim: review, with no allocation. -/
def failClosedAmbiguousDecision : AutomatedMatchDecision :=
  let received := receivedOf r.route events
  { outcome := .review
    exceptionClass := .ambiguous
    policyID := r.policy.id
    policyVersion := r.policy.version
    expected := r.route.expectedAmount
    received := received
    credited := .zero
    treasuryReceived := .zero
    gasFreeFees := .zero
    reasonCodes := ["multiple_policy_bound_routes_overlap"]
    allocations := []
    evidenceHash := ext.hashing.sha256Hex (ext.marshalAmbiguity r.route.id
      (r.policy.id ++ ":" ++ toString r.policy.version) (toString received.n)
      (events.map (·.id))) }

def decideMatching (now : ℤ) : Except Failure AutomatedMatchDecision :=
  let (events,ambiguous) := loadAutomatedMatchingEvents ext db r.route
  if ambiguous then .ok (failClosedAmbiguousDecision ext r events)
  else evaluateAutomatedMatch ext.hashing r.route events now r.policy

def aggregateState (outcome : AutomatedMatchOutcome) : AggregateState :=
  match outcome with
  | .collect => .collecting
  | .settle => .settled
  | .review => .review

def newAggregate (aggregateID : String) : MatchAggregate where
  id := aggregateID
  tenantID := r.route.tenantID
  merchantID := r.route.merchantID
  routeID := r.route.id
  intentID := r.route.intentID
  policyID := r.policy.id
  policyVersion := r.policy.version
  state := aggregateState d.outcome
  classification := d.exceptionClass
  expected := d.expected
  received := d.received
  credited := d.credited
  treasuryReceived := d.treasuryReceived
  gasFreeFees := d.gasFreeFees
  evidenceHash := d.evidenceHash

abbrev liveAggregate (g : MatchAggregate) : Prop :=
  g.tenantID = route.tenantID ∧ g.routeID = route.id ∧ g.state ≠ .reversed

/-- `DO UPDATE` of the aggregate that a route already has. -/
def reviseAggregate (g : MatchAggregate) : MatchAggregate :=
  { g with
    state := aggregateState d.outcome
    classification := d.exceptionClass
    received := d.received
    credited := d.credited
    treasuryReceived := d.treasuryReceived
    gasFreeFees := d.gasFreeFees
    evidenceHash := d.evidenceHash }

def upsertAutomatedAggregate (aggregateID : String) : Except Failure (Database × String) := do
  require (isSHA256Hex d.evidenceHash) ⟨.invariantViolation,""⟩
  require (d.credited.n ≤ d.received.n) (databaseFailure "payment_match_aggregates_check")
  match db.aggregates.find? fun g => decide (liveAggregate r.route g) with
  | none => do
    let rows ← insertUnique (·.id = aggregateID) (newAggregate r d aggregateID)
      (databaseFailure "payment_match_aggregates_pkey") db.aggregates
    pure ({ db with aggregates := rows },aggregateID)
  | some live => do
    require (live.state ≠ .settled) (stateConflict "")
    pure ({ db with
      aggregates := update (liveAggregate r.route) (reviseAggregate d) db.aggregates },live.id)

def MatchKind.ofAllocation : AllocationKind → MatchKind
  | .partialPayment => .partialPayment
  | .gasfreePolicy => .gasfreePolicy

def allocationMatch (matchID : String) (a : MatchAllocation) : PaymentMatch where
  id := matchID
  tenantID := r.route.tenantID
  source := .transfer a.eventID
  routeID := r.route.id
  intentID := r.route.intentID
  kind := MatchKind.ofAllocation a.matchKind
  expected := r.route.expectedAmount
  received := a.received
  credited := a.credited
  state := state
  policyVersion := d.policyVersion
  aggregateID := some aggregateID
  role := a.role

def upgradeMatch (credited : Amount) (state : MatchState) (m : PaymentMatch) : PaymentMatch :=
  { m with credited := credited, state := state }

/-- Insert the match of an allocation, or upgrade the one the aggregate already has for the
event; a match of anything else is a conflict. -/
def persistAllocation (db : Database) (a : MatchAllocation) : Except Failure Database :=
  let row := allocationMatch r aggregateID d state (ids.matchID a.eventID) a
  match db.paymentMatches.find? fun m => m.source = row.source ∧ m.state ≠ .reversed with
  | none => insertMatch db row
  | some stored => do
    require (stored.routeID = row.routeID ∧ stored.intentID = row.intentID ∧
        stored.aggregateID = row.aggregateID ∧ stored.received = row.received ∧
        stored.policyVersion = row.policyVersion)
      (stateConflict "transfer already allocated by another aggregate")
    require (row.credited.n ≤ row.received.n) (stateConflict "payment_matches_check")
    pure { db with
      paymentMatches := update (fun m => m.source = row.source ∧ m.state ≠ .reversed)
        (upgradeMatch row.credited row.state) db.paymentMatches }

def persistAutomatedAllocations : Except Failure Database :=
  traverse (persistAllocation r aggregateID d state ids) d.allocations db

def aggregateLedger (legs : List LedgerEntry) : LedgerTransaction where
  id := aggregateID
  tenantID := r.route.tenantID
  businessType := .paymentSettlement
  businessReference := aggregateID
  reversalOf := none
  correlation := .aggregate aggregateID
  policyVersion := d.policyVersion
  entries := legs

/-- The transaction is booked once for an aggregate; a second time only legs with new sequence
numbers would be added. -/
def postAutomatedSettlementLedger : Except Failure Database := do
  let legs ← automatedSettlementLegs
    (ext.accounts r.route.tenantID r.route.merchantID r.route.assetID) r.route.assetID d
  let tx := aggregateLedger r aggregateID d legs
  if ∃ l ∈ db.ledger, l.tenantID = tx.tenantID ∧ l.businessType = tx.businessType ∧
      l.businessReference = tx.businessReference then
    pure { db with
      ledger := update (·.id = aggregateID) (fun l => { l with
        entries := l.entries ++
          legs.filter fun e => ∀ old ∈ l.entries, old.sequence ≠ e.sequence }) db.ledger }
  else postLedger db tx

def allocationEventIDs (allocations : List MatchAllocation) : List String :=
  allocations.map (·.eventID)

def resolvedUnmatched : List UnmatchedPayment :=
  update (fun u => u.eventID ∈ allocationEventIDs d.allocations ∧
      u.tenantID = some r.route.tenantID ∧ u.status ≠ .reorged)
    (fun u => { u with status := .resolved, selectedRouteID := some r.route.id }) db.unmatched

def boundUnmatched : List UnmatchedPayment :=
  update (fun u => u.eventID ∈ allocationEventIDs d.allocations ∧
      u.tenantID = some r.route.tenantID ∧
      u.status ∈ ([.new,.candidatesReady,.bound] : List UnmatchedStatus))
    (fun u => { u with status := .bound, selectedRouteID := some r.route.id }) db.unmatched

def finalizeAutomatedIntent (webhookID : String) : Except Failure Database := do
  let exceeds : Bool := d.received.cmp d.expected = .gt
  let settling (i : PaymentIntent) : Prop :=
    i.id = r.route.intentID ∧ i.tenantID = r.route.tenantID ∧ i.status ∈ openIntentStatuses
  let intent ← orFail (db.intents.find? fun i => decide (settling i))
    (databaseFailure "no rows in result set")
  let intents := update settling (fun i => { i with
    status := if exceeds then .overpaid else .settled
    version := i.version+1 }) db.intents
  let db := closeOwnRoute { db with intents } r.route.id r.route.tenantID
  insertCallback { db with unmatched := resolvedUnmatched db r d } ⟨webhookID,r.route.tenantID,r.route.merchantID,
    r.route.intentID,if exceeds then .overpaid else .settled,some (intent.version+1)⟩

/-- Payments are still being collected: they are bound to the route until the deadline. -/
def applyCollect : Except Failure Database := do
  let db ← persistAutomatedAllocations db r aggregateID d .proposed ids
  pure { db with
    unmatched := boundUnmatched db r d
    intents := update (fun i => i.id = r.route.intentID ∧ i.tenantID = r.route.tenantID ∧
        i.status ∈ ([.pending,.observed,.partiallyPaid,.needsReview] : List IntentStatus))
      (fun i => { i with status := .partiallyPaid, version := i.version+1 }) db.intents }

/-- The proposed matches are withdrawn and the payments of the decision reopened. -/
def applyReview : Database :=
  { db with
    paymentMatches := update (fun m => m.aggregateID = some aggregateID ∧
        m.tenantID = r.route.tenantID ∧ m.state = .proposed)
      (fun m => { m with state := .reversed }) db.paymentMatches
    unmatched := update (fun u => u.eventID ∈ allocationEventIDs d.allocations ∧
        u.tenantID = some r.route.tenantID ∧ u.status = .bound)
      (fun u => { u with status := .candidatesReady, selectedRouteID := none }) db.unmatched }

def applySettle : Except Failure Database := do
  let db ← persistAutomatedAllocations db r aggregateID d .finalized ids
  let db ← postAutomatedSettlementLedger ext db r aggregateID d
  finalizeAutomatedIntent db r d ids.webhook

def applyDecision : Except Failure Database :=
  match d.outcome with
  | .collect => applyCollect db r aggregateID d ids
  | .review => .ok (applyReview db r aggregateID d)
  | .settle => applySettle ext db r aggregateID d ids

/-- When a decision is final the job is completed; a collecting route is looked at again at the
deadline for late payments. -/
def finishAs (now : ℤ) : JobStatus × ℤ :=
  match d.outcome with
  | .collect => (.pending,automaticLatePaymentDeadline r.route)
  | .review | .settle => (.completed,now)

def reconcileAutomatedMatching (workerID : String) (job : AutomatedMatchingJob) (now clock : ℤ)
    (ids : ReconcileIDs) : Except Failure Database := do
  require (∃ j ∈ db.jobs, HoldsLease workerID job clock j) (versionConflict "")
  let r ← loadAutomatedMatchingRoute ext db job.routeID
  let d ← decideMatching ext db r now
  let (db,aggregateID) ← upsertAutomatedAggregate db r d ids.aggregate
  let db ← applyDecision ext db r aggregateID d ids
  let (status,next) := finishAs r d now
  finishAutomatedMatchingJob db workerID job status next clock

end Ocrypt.MatchingStore
