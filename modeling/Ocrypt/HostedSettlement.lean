import Ocrypt.Settlement

/-! `IngestVerifiedProviderPayment`, the financial transaction of hosted providers: the verified
event is stored as evidence, checked against its order and its order of occurrence, and a paid
event settles the intent. -/
namespace Ocrypt.HostedSettlement
open Money Domain SettlementLegs Fallible Table Store Writes Settlement

structure VerifiedProviderPayment where
  (tenantID merchantID providerID providerReference providerEventID : String)
  status : ProviderStatus
  assetID : String
  amount : Amount
  assetDecimals : ℕ
  occurredAt : ℤ
  (rawDigest signatureDigest configManifestID : String)
  configVersion : ℤ
  providerPaused : Bool

/-- The order the event is bound to, with its route and intent. -/
structure HostedSettlementCandidate where
  order : ProviderOrder
  route : PaymentRoute
  intent : PaymentIntent

structure HostedIDs where
  (inbox prebind settlement matchID webhook : String)

variable (ext : Externals) (db : Database) (c : HostedSettlementCandidate)
    (p : VerifiedProviderPayment) (ids : HostedIDs)

def VerifiedProviderPayment.evidence : ProviderEvidence :=
  ⟨p.providerReference,p.status,p.assetID,p.amount,p.assetDecimals,p.rawDigest,
    p.signatureDigest,p.configManifestID,p.configVersion⟩

structure HostedSettlementResult where
  duplicate : Bool := false
  outOfOrder : Bool := false
  quarantined : Bool := false
  settled : Bool := false
  providerInboxID : String := ""
  prebindEvidenceID : String := ""
  intentID : String := ""
  routeID : String := ""
  settlementID : String := ""
  webhookEventID : String := ""
  deriving DecidableEq, Repr

def loadHostedSettlementCandidate : Option HostedSettlementCandidate := do
  let order ← db.providerOrders.find? fun o => o.providerID = p.providerID ∧
    o.providerReference = p.providerReference ∧ o.tenantID = p.tenantID ∧
    o.merchantID = p.merchantID
  let route ← db.routes.find? fun r => r.id = order.routeID ∧ r.tenantID = order.tenantID
  let intent ← intentOf db route
  pure ⟨order,route,intent⟩

def economicDrift : Bool :=
  c.order.amount ≠ c.route.expectedAmount || c.order.assetID ≠ c.route.assetID ||
    c.order.assetDecimals ≠ c.route.assetDecimals

def providerEventIsOutOfOrder : Bool :=
  (c.order.lastOccurredAt.any fun last => p.occurredAt < last ||
      (p.occurredAt = last && p.providerEventID ≤ c.order.lastEventID)) ||
    (c.order.status ∈ ([.paid,.refunded,.cancelled,.failed] : List ProviderStatus) &&
      p.status ∈ ([.pending,.authorized] : List ProviderStatus))

/-- The incident an event raises by itself, and whether it also arrives out of order. -/
def providerIncidentDecision : Option IncidentKind × Bool :=
  if c.order.status = .refunded ∧ p.status = .paid then (some .paidAfterRefund,true)
  else if p.status = .refunded then
    if c.intent.status = .settled ∨ c.intent.status = .overpaid then
      (some .refundAfterSettlement,false)
    else (some .refundBeforeSettlement,false)
  else (none,false)

def recordProviderReconciliationIncident (inboxID : String) (kind : IncidentKind) : Database :=
  if ∃ i ∈ db.reconciliationIncidents, i.providerInboxID = inboxID then db
  else { db with
    reconciliationIncidents := db.reconciliationIncidents ++ [⟨c.order.id,inboxID,kind⟩] }

def recordPausedProviderCallbackIncident (rawDigest : String) : Database :=
  if ∃ i ∈ db.runtimeIncidents, i.providerOrderID = c.order.id ∧ i.evidenceDigest = rawDigest
  then db
  else { db with runtimeIncidents := db.runtimeIncidents ++ [⟨c.order.id,rawDigest⟩] }

def ingestProviderPrebindEvidence (id : String) :
    Except Failure (Database × HostedSettlementResult) :=
  match db.prebindInbox.find? fun e =>
      e.providerID = p.providerID ∧ e.providerEventID = p.providerEventID with
  | some stored => do
    require (stored.evidence = p.evidence) ⟨.idempotencyConflict,
      "pre-bind provider event id was replayed with different canonical facts"⟩
    pure (db,{ duplicate := true, quarantined := true, prebindEvidenceID := stored.id })
  | none => do
    let rows ← insertUnique (·.id = id) ⟨id,p.tenantID,p.merchantID,p.providerID,
      p.providerEventID,p.evidence,.pending,none,none,none⟩
      (stateConflict "provider_prebind_inbox_pkey") db.prebindInbox
    pure ({ db with prebindInbox := rows },{ quarantined := true, prebindEvidenceID := id })

def hostedMatch (inboxID matchID : String) : PaymentMatch where
  id := matchID
  tenantID := c.order.tenantID
  source := .provider inboxID
  routeID := c.route.id
  intentID := c.intent.id
  kind := .exact
  expected := c.order.amount
  received := c.order.amount
  credited := c.order.amount
  state := .finalized
  policyVersion := 1
  aggregateID := none
  role := .payment

def hostedLedger (inboxID settlementID : String) : LedgerTransaction where
  id := settlementID
  tenantID := c.order.tenantID
  businessType := .paymentSettlement
  businessReference := settlementID
  reversalOf := none
  correlation := .provider inboxID
  policyVersion := 1
  entries := singleTransferLegs (ext.accounts c.order.tenantID c.order.merchantID c.order.assetID)
    c.order.assetID c.order.amount

def hostedOpenStatuses : List IntentStatus := [.pending,.observed,.confirmed,.reorgReview]

/-- Every payable route of the intent is closed: the paid one settles, the others are superseded. -/
def closeIntentRoutes : Database :=
  { db with
    routes := update (fun r => r.tenantID = c.order.tenantID ∧ r.merchantID = c.order.merchantID ∧
        r.intentID = c.intent.id ∧ r.status.Matchable)
      (fun r => { r with status := if r.id = c.route.id then .settled else .superseded })
      db.routes }

def settleHosted (inboxID : String) (ids : HostedIDs) : Except Failure Database := do
  let db ← insertMatch db (hostedMatch c inboxID ids.matchID)
  let db ← postLedger db (hostedLedger ext c inboxID ids.settlement)
  let intents ← updateOne (fun i => i.id = c.intent.id ∧ i.tenantID = c.order.tenantID ∧
      i.merchantID = c.order.merchantID ∧ i.version = c.intent.version ∧
      i.status ∈ hostedOpenStatuses)
    (fun i => { i with status := .settled, version := i.version+1 }) (versionConflict "")
    db.intents
  let db := closeIntentRoutes { db with intents } c
  let db := releaseSiblings db c.intent.id c.route.id c.order.tenantID
  insertCallback db ⟨ids.webhook,c.order.tenantID,c.order.merchantID,c.intent.id,.settled,
    some (c.intent.version+1)⟩

def advanceOrder : Database :=
  { db with
    providerOrders := update (fun o => o.id = c.order.id ∧ o.tenantID = p.tenantID ∧
        o.merchantID = p.merchantID)
      (fun o => { o with
        status := p.status
        lastOccurredAt := some p.occurredAt
        lastEventID := p.providerEventID }) db.providerOrders }

def supersedeOrder : Database :=
  { db with
    providerOrders := update (fun o => o.id = c.order.id ∧ o.status = .paid)
      (fun o => { o with status := .superseded }) db.providerOrders }

abbrev matchesOrder : Prop :=
  p.assetID = c.order.assetID ∧ p.assetDecimals = c.order.assetDecimals ∧
    p.amount.cmp c.order.amount = .eq

abbrev alreadyClosed : Prop :=
  c.intent.status = .settled ∨ c.intent.status = .overpaid ∨ c.route.status ≠ .active

def processEvent : Except Failure (Database × HostedSettlementResult) :=
  let stored : HostedSettlementResult :=
    { providerInboxID := ids.inbox, intentID := c.intent.id, routeID := c.route.id }
  let incident (db : Database) (kind : IncidentKind) :=
    recordProviderReconciliationIncident db c ids.inbox kind
  if p.providerPaused then
    .ok (recordPausedProviderCallbackIncident db c p.rawDigest,{ stored with quarantined := true })
  else if economicDrift c then .ok (incident db .economicFactMismatch,stored)
  else
    match providerIncidentDecision c p with
    | (some kind,true) => .ok (incident db kind,{ stored with outOfOrder := true })
    | (kind,_) =>
      if providerEventIsOutOfOrder c p then .ok (db,{ stored with outOfOrder := true })
      else
        let db := advanceOrder db c p
        if p.status = .refunded then
          .ok (match kind with
            | some kind => incident db kind
            | none => db,stored)
        else if p.status ≠ .paid then .ok (db,stored)
        else if ¬matchesOrder c p then .ok (incident db .economicFactMismatch,stored)
        else if alreadyClosed c then .ok (supersedeOrder db c,stored)
        else if c.intent.status ∉ hostedOpenStatuses then .ok (db,stored)
        else (settleHosted ext db c ids.inbox ids).map fun db =>
          (db,{ stored with
            settled := true, settlementID := ids.settlement, webhookEventID := ids.webhook })

def ingestBound : Except Failure (Database × HostedSettlementResult) := do
  require (∀ e ∈ db.prebindInbox, e.providerID = p.providerID →
      e.providerEventID = p.providerEventID → e.evidence = p.evidence)
    ⟨.idempotencyConflict,"provider event changed between pre-bind and bound delivery"⟩
  match db.providerInbox.find? fun e =>
      e.providerID = p.providerID ∧ e.providerEventID = p.providerEventID with
  | some stored => do
    require (stored.evidence = p.evidence)
      ⟨.idempotencyConflict,"provider event id was replayed with different canonical facts"⟩
    pure (db,{
      duplicate := true
      providerInboxID := stored.id
      intentID := c.intent.id
      routeID := c.route.id })
  | none => do
    let rows ← insertUnique (·.id = ids.inbox) ⟨ids.inbox,p.tenantID,p.merchantID,p.providerID,
      c.order.id,c.route.id,p.providerEventID,p.evidence⟩
      (stateConflict "provider_inbox_pkey") db.providerInbox
    processEvent ext { db with providerInbox := rows } c p ids

def ingestEvent : Except Failure (Database × HostedSettlementResult) :=
  match loadHostedSettlementCandidate db p with
  | none => ingestProviderPrebindEvidence db p ids.prebind
  | some c => ingestBound ext db c p ids

/-- The claim under which evidence that waited for its order is ingested. -/
structure PrebindClaim where
  (id claimToken : String)

abbrev HoldsPrebind (claim : PrebindClaim) (p : VerifiedProviderPayment) (clock : ℤ)
    (e : PrebindEvent) : Prop :=
  e.id = claim.id ∧ e.tenantID = p.tenantID ∧ e.merchantID = p.merchantID ∧ e.state = .pending ∧
    e.claimToken = some claim.claimToken ∧ ∃ u ∈ e.claimUntil, clock ≤ u

def ingestVerifiedProviderPayment (prebind : Option PrebindClaim) (clock : ℤ) (ids : HostedIDs) :
    Except Failure (Database × HostedSettlementResult) := do
  require (p.tenantID ≠ "" ∧ p.merchantID ≠ "")
    ⟨.validation,"tenant and merchant are required"⟩
  match prebind with
  | none => ingestEvent ext db p ids
  | some claim => do
    require (∃ e ∈ db.prebindInbox, HoldsPrebind claim p clock e) (versionConflict "")
    let (db,result) ← ingestEvent ext db p ids
    require (result.providerInboxID ≠ "") (stateConflict "")
    let rows ← updateOne (HoldsPrebind claim p clock) (fun e => { e with
      state := .attached
      attachedInboxID := some result.providerInboxID
      claimToken := none
      claimUntil := none }) (versionConflict "") db.prebindInbox
    pure ({ db with prebindInbox := rows },result)

end Ocrypt.HostedSettlement
