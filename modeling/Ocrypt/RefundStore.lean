import Ocrypt.FinancialStore

/-! The transactions of `RefundStore`: the bridge from finalized matches to refundable
settlements, the creation of a refund under the lock of its settlement, and its updates. -/
namespace Ocrypt.RefundStore
open Money Domain Fallible Table Store Custody Refunds FinancialStore

variable (core : Database) (m : UpdateMutation RefundTerms Amount) (s : SettlementRow)

def eventOf (m : PaymentMatch) : Option TransferEvent :=
  match m.source with
  | .transfer eventID => core.transferEvents.find? fun e => e.id = eventID
  | .provider _ => none

def refundable (tenantID : String) : List (PaymentMatch × TransferEvent) :=
  core.paymentMatches.filterMap fun m =>
    match eventOf core m with
    | some e =>
      if m.tenantID = tenantID ∧ m.state = .finalized ∧ e.status = .finalized ∧ m.role = .payment
      then some (m,e) else none
    | none => none

def settlementOf (m : PaymentMatch) (e : TransferEvent) : SettlementRow where
  id := m.id
  tenantID := m.tenantID
  paymentMatchID := m.id
  assetID := e.identity.assetID
  chainID := e.identity.chainID
  intentID := m.intentID
  chainEventID := e.id
  observedSender := e.fromAddress
  receivedAmount := m.received
  refundedAmount := .zero
  finalized := true
  riskHold := false
  evidenceDigest := e.evidenceHash

def SameFacts (s excluded : SettlementRow) : Prop :=
  s.assetID = excluded.assetID ∧ s.chainID = excluded.chainID ∧ s.intentID = excluded.intentID ∧
    s.chainEventID = excluded.chainEventID ∧ s.observedSender = excluded.observedSender ∧
    s.receivedAmount = excluded.receivedAmount ∧ s.evidenceDigest = excluded.evidenceDigest

instance (s excluded : SettlementRow) : Decidable (SameFacts s excluded) :=
  inferInstanceAs (Decidable (_ ∧ _))

/-- ON CONFLICT (id): evidence is never rewritten, and a mismatch is a risk hold. -/
def recheck (excluded s : SettlementRow) : SettlementRow :=
  { s with
    finalized := s.finalized && decide (SameFacts s excluded)
    riskHold := s.riskHold || !decide (SameFacts s excluded) }

/-- The conflict clause names the id only: a second settlement of one tenant for one chain
event aborts the transaction. -/
def upsertSettlement (rows : List SettlementRow) (excluded : SettlementRow) :
    Except Refusal (List SettlementRow) :=
  if ∃ s ∈ rows, s.id = excluded.id then
    .ok (update (fun s => s.id = excluded.id) (recheck excluded) rows)
  else
    insertUnique (fun s : SettlementRow => s.tenantID = excluded.tenantID ∧
        s.chainEventID = excluded.chainEventID) excluded
      (storeFailure "financial_refund_settlements_tenant_id_chain_event_id_key") rows

/-- The match of the settlement is reversed, or its transfer has left the chain. -/
def Withdrawn : Prop :=
  ∃ m ∈ core.paymentMatches, m.id = s.paymentMatchID ∧ ∃ e ∈ core.transferEvents,
    m.source = .transfer e.id ∧ s.chainEventID = e.id ∧
      (m.state = .reversed ∨ e.status ∈ [.reorged,.invalidated])

instance (core : Database) (s : SettlementRow) : Decidable (Withdrawn core s) :=
  inferInstanceAs (Decidable (∃ m ∈ core.paymentMatches, _))

/-- The matches that one run enters; `createdAt` is the creation time of a match. -/
def selected (createdAt : String → ℤ) (core : Database) (tenantID : String) (limit : ℤ) :
    List (PaymentMatch × TransferEvent) :=
  ((refundable core tenantID).mergeSort fun a b => decide (createdAt a.1.id < createdAt b.1.id ∨
    (createdAt a.1.id = createdAt b.1.id ∧ a.1.id ≤ b.1.id))).take limit.toNat

def hold : SettlementRow := { s with finalized := false, riskHold := true }

def syncSettlements (createdAt : String → ℤ) (core : Database) (db : FinancialDatabase)
    (tenantID : String) (limit clock : ℤ) : Except Refusal (FinancialDatabase × ℕ) := do
  require (tenantID ≠ "" ∧ 1 ≤ limit ∧ limit ≤ 1000) ⟨.validation,""⟩
  let entered := (selected createdAt core tenantID limit).map fun r => settlementOf r.1 r.2
  let settlements ← traverse upsertSettlement entered db.settlements
  let stale (s : SettlementRow) : Bool := s.tenantID = tenantID ∧ Withdrawn core s ∧
    (s.finalized = true ∨ s.riskHold = false)
  let held := update (fun s => stale s) hold settlements
  let destinations := update (fun d : DestinationRow => d.tenantID = tenantID ∧
      (∃ s ∈ held, d.settlementID = s.id ∧ s.riskHold = true) ∧ d.revokedAt = none)
    (fun d => { d with revokedAt := some clock }) db.destinations
  pure ({ db with settlements := held, destinations },entered.length+settlements.countP stale)

variable {core : Database} {db db' : FinancialDatabase} {clock : ℤ} {r : Refund}

lemma syncSettlements_frame {createdAt : String → ℤ} {db : FinancialDatabase}
    {tenantID : String} {limit clock : ℤ} {r : FinancialDatabase × ℕ}
    (h : syncSettlements createdAt core db tenantID limit clock = .ok r) :
    r.1 = { db with settlements := r.1.settlements, destinations := r.1.destinations } := by
  simp only [syncSettlements,do_ok] at h
  obtain ⟨-,-,rows,-,rfl⟩ := h
  rfl

/-- `Settlement`: the row as the service reads it. -/
def settlement (db : FinancialDatabase) (tenantID id : String) : Option Settlement :=
  (db.settlements.find? fun s => s.tenantID = tenantID ∧ s.id = id).map fun s =>
    ⟨s.id,s.tenantID,s.assetID,s.chainID,s.intentID,s.chainEventID,
      ⟨s.chainID,s.observedSender⟩,s.receivedAmount,s.refundedAmount,s.finalized,s.riskHold⟩

def verifiedDestination (db : FinancialDatabase) (tenantID id : String) :
    Option VerifiedDestination :=
  (db.destinations.find? fun d => d.tenantID = tenantID ∧ d.id = id).map fun d =>
    ⟨d.id,d.tenantID,d.settlementID,d.assetID,⟨d.chainID,d.address⟩,d.method,d.evidenceDigest,
      d.verifiedAt,d.expiresAt.getD 0,d.revokedAt.getD 0⟩

def evidence (db : FinancialDatabase) (clock : ℤ) : Evidence where
  settlement := settlement db
  activePolicy := activePolicy (db.refundPolicies.map (·.toPolicyRow)) clock
  verifiedDestination := verifiedDestination db

def coreState (core : Database) (s : SettlementRow) : Option (MatchState × TransferStatus) := do
  let m ← core.paymentMatches.find? fun m => m.id = s.paymentMatchID ∧ m.tenantID = s.tenantID
  let e ← core.transferEvents.find? fun e => e.id = s.chainEventID
  pure (m.state,e.status)

def DestinationRow.Usable (d : DestinationRow) (clock : ℤ) : Prop :=
  d.revokedAt = none ∧ d.verifiedAt ≤ clock ∧ ∀ expires ∈ d.expiresAt, clock < expires

instance (d : DestinationRow) (clock : ℤ) : Decidable (DestinationRow.Usable d clock) :=
  inferInstanceAs (Decidable (_ ∧ _))

def lockRefundable (core : Database) (db : FinancialDatabase) (clock : ℤ) (r : Refund) :
    Except Refusal SettlementRow := do
  let s ← orFail (db.settlements.find? fun s => s.tenantID = r.tenantID ∧
    s.id = r.terms.settlementID) missing
  require (s.assetID = r.assetID ∧ s.chainID = r.chainID ∧ s.finalized = true ∧ s.riskHold = false)
    ⟨.stateConflict,""⟩
  let state ← orFail (coreState core s) missing
  require (state = (.finalized,.finalized)) ⟨.stateConflict,""⟩
  let d ← orFail (db.destinations.find? fun d => d.tenantID = r.tenantID ∧
    d.id = r.terms.destinationVerificationID ∧ d.settlementID = r.terms.settlementID) missing
  require (DestinationRow.Usable d clock ∧ d.assetID = s.assetID ∧ d.chainID = s.chainID ∧
    d.address = r.destination.value ∧ d.method ≠ .observedSender) ⟨.destination,""⟩
  let policy ← orFail (db.refundPolicies.find? fun p => p.tenantID = r.tenantID ∧
    p.id = r.policyID ∧ p.version = r.policyVersion ∧ p.enabled = true ∧
    p.emergencyPaused = false) missing
  require (¬(policy.refundToOriginOnly = true ∧ d.address ≠ s.observedSender)) ⟨.destination,""⟩
  pure s

def Held (x : ReservationRow) : Prop := x.releasedAt = none ∧ x.finalizedAt = none

instance : DecidablePred Held := fun _ => inferInstanceAs (Decidable (_ ∧ _))

def reservedAmount (rows : List ReservationRow) (tenantID settlementID : String) : ℕ :=
  ((rows.filter fun x => x.tenantID = tenantID ∧ x.settlementID = settlementID ∧ Held x).map
    fun x => x.amount.n).sum

def availableAmount (db : FinancialDatabase) (s : SettlementRow) : Except Refusal Amount := do
  let reserved ← orFail (Amount.ofNat? (reservedAmount db.reservations s.tenantID s.id))
    (storeFailure "amount exceeds 256 bits")
  match s.refundedAmount.add reserved with
  | .error _ => .error insufficientRefundable
  | .ok used =>
    match s.receivedAmount.sub used with
    | .error _ => .error insufficientRefundable
    | .ok available => pure available

/-- `Create`: the refund of an earlier request with the same key, or a new refund with its
reservation. -/
def createRefund (core : Database) (db : FinancialDatabase) (clock : ℤ) (m : CreateMutation) :
    Except Refusal (FinancialDatabase × Refund × Bool) := do
  let r := m.refund
  require (r.tenantID ≠ "" ∧ r.id ≠ "" ∧ r.terms.settlementID ≠ "" ∧ r.assetID ≠ "" ∧
    r.version = 1 ∧ m.audit.tenantID = r.tenantID) ⟨.validation,""⟩
  match db.refunds.find? fun s => s.tenantID = r.tenantID ∧ s.idempotencyKey = r.idempotencyKey with
  | some existing => do
    require (existing.requestHash = r.requestHash) ⟨.idempotencyConflict,""⟩
    pure (db,existing,false)
  | none => do
    let s ← lockRefundable core db clock r
    let available ← availableAmount db s
    require (r.terms.grossAmount.cmp available ≠ .gt ∧
      r.terms.grossAmount.cmp m.maximumRefundable ≠ .gt) insufficientRefundable
    let usage ← (reserveFinancialUsage db.usage r.tenantID r.assetID "refund" m.limitWindowStart
      m.limitWindowEnd r.terms.grossAmount m.dailyLimit).mapError fun _ => ⟨.policyLimit,""⟩
    let refunds ← insertUnique (fun s : Refund => s.id = r.id ∨
        (s.tenantID = r.tenantID ∧ s.idempotencyKey = r.idempotencyKey)) r
      ⟨.stateConflict,""⟩ db.refunds
    let reservations ← insertUnique (fun x : ReservationRow => x.tenantID = r.tenantID ∧
        x.refundID = r.id) ⟨r.tenantID,r.terms.settlementID,r.id,r.terms.grossAmount,none,none⟩
      ⟨.stateConflict,""⟩ db.reservations
    let db ← insertArtifacts "refund" { db with usage, refunds, reservations } m.audit m.ledger
    pure (db,r,true)

structure Created (core : Database) (db : FinancialDatabase) (clock : ℤ) (m : CreateMutation)
    (db' : FinancialDatabase) : Prop where
  fresh : ∀ s ∈ db.refunds, s.id ≠ m.refund.id ∧
    (s.tenantID = m.refund.tenantID → s.idempotencyKey ≠ m.refund.idempotencyKey)
  capacity : ∃ s available, lockRefundable core db clock m.refund = .ok s ∧
    availableAmount db s = .ok available ∧ m.refund.terms.grossAmount.n ≤ available.n
  unreserved : ∀ x ∈ db.reservations, x.tenantID = m.refund.tenantID → x.refundID ≠ m.refund.id
  written : db' = { db with
    usage := db'.usage
    refunds := db.refunds ++ [m.refund]
    reservations := db.reservations ++ [⟨m.refund.tenantID,m.refund.terms.settlementID,
      m.refund.id,m.refund.terms.grossAmount,none,none⟩]
    ledger := db.ledger ++ m.ledger.map fun l => ⟨l,"refund"⟩
    audits := db'.audits }

/-- A request finds the refund of an earlier one with its key and hash, or creates one. -/
theorem createRefund_eq_ok {m : CreateMutation} {created : Bool}
    (h : createRefund core db clock m = .ok (db',r,created)) :
    (created = false ∧ db' = db) ∨ (created = true ∧ r = m.refund ∧ Created core db clock m db') := by
  simp only [createRefund,do_eq_ok] at h
  obtain ⟨-,-,h⟩ := h
  split at h
  · simp only [do_ok] at h
    obtain ⟨-,-,rfl,-,rfl⟩ := h
    exact .inl ⟨rfl,rfl⟩
  · simp only [do_ok,insertUnique_eq_ok,ne_eq,Amount.cmp_eq_gt,not_lt] at h
    obtain ⟨s,hlo,available,hav,⟨hg,-⟩,usage,-,refunds,⟨hf,rfl⟩,
      reservations,⟨hu,rfl⟩,mid,har,rfl,rfl,rfl⟩ := h
    obtain rfl := insertArtifacts_eq_ok har
    refine .inr ⟨rfl,rfl,?_,⟨s,available,hlo,hav,hg⟩,?_,rfl⟩
    · intro s hs
      have hs := hf s hs
      rw [not_or,not_and] at hs
      exact hs
    · intro x hx hte hre
      exact hu x hx ⟨hte,hre⟩

/-- Before money moves, the settlement must still rest on finalized evidence. -/
def checkExecutable (core : Database) (db : FinancialDatabase)
    (m : UpdateMutation RefundTerms Amount) (current : Refund) : Except Refusal Unit :=
  if m.next.status ∈ [.awaitingSignature,.signed,.broadcast] then do
    let s ← orFail (db.settlements.find? fun s => s.tenantID = m.tenantID ∧
      s.id = current.terms.settlementID) missing
    let state ← orFail (coreState core s) missing
    require (state = (.finalized,.finalized) ∧ s.finalized = true ∧ s.riskHold = false)
      ⟨.stateConflict,""⟩
  else .ok ()

def HeldFor (x : ReservationRow) (tenantID refundID : String) : Prop :=
  x.tenantID = tenantID ∧ x.refundID = refundID ∧ Held x

instance (tenantID refundID : String) :
    DecidablePred fun x : ReservationRow => HeldFor x tenantID refundID :=
  fun _ => inferInstanceAs (Decidable (_ ∧ _))

def Bears (r : Refund) : Prop :=
  s.tenantID = r.tenantID ∧ s.id = r.terms.settlementID ∧
    s.refundedAmount.n+r.terms.grossAmount.n ≤ s.receivedAmount.n

instance (r : Refund) : DecidablePred fun s : SettlementRow => Bears s r :=
  fun _ => inferInstanceAs (Decidable (_ ∧ _))

def charge (r : Refund) (s : SettlementRow) : SettlementRow :=
  { s with refundedAmount :=
      ((s.refundedAmount.add r.terms.grossAmount).toOption).getD s.refundedAmount }

def releaseReservation (rows : List ReservationRow) : Except Refusal (List ReservationRow) :=
  if m.release.isZero then .ok rows
  else updateOne (fun x : ReservationRow => HeldFor x m.tenantID m.aggregateID)
    (fun x => { x with releasedAt := some m.next.updatedAt }) ⟨.stateConflict,""⟩ rows

/-- The first finalization uses the reservation up and charges the settlement. -/
def useReservation (current : Refund) (reservations : List ReservationRow)
    (settlements : List SettlementRow) :
    Except Refusal (List ReservationRow × List SettlementRow) :=
  if m.next.status = .finalized ∧ current.status ≠ .finalized then do
    let reservations ← updateOne (fun x : ReservationRow => HeldFor x m.tenantID m.aggregateID)
      (fun x => { x with finalizedAt := some m.next.updatedAt }) ⟨.stateConflict,""⟩ reservations
    let settlements ← updateOne (fun s : SettlementRow => Bears s m.next) (charge m.next)
      insufficientRefundable settlements
    pure (reservations,settlements)
  else .ok (reservations,settlements)

def updateRefund (core : Database) (db : FinancialDatabase) (clock : ℤ)
    (fence : Option FinancialFence) (m : UpdateMutation RefundTerms Amount) :
    Except Refusal (FinancialDatabase × Refund) := do
  require (UpdateMutation.WellFormed m) ⟨.validation,""⟩
  match ← replayMutation db.refundDecisions m with
  | some response => pure (db,response)
  | none => do
    checkFinancialFence db.leases fence m.tenantID "refund" m.aggregateID clock
    let current ← lockCurrent db.refunds m
    checkExecutable core db m current
    let refunds ← writeNext db.refunds m
    let reservations ← releaseReservation m db.reservations
    let (reservations,settlements) ← useReservation m current reservations db.settlements
    let db ← insertArtifacts "refund" { db with refunds, reservations, settlements } m.audit m.ledger
    pure ({ db with refundDecisions := storeFinancialDecision db.refundDecisions m },m.next)

structure Updated (core : Database) (db : FinancialDatabase) (m : UpdateMutation RefundTerms Amount)
    (current : Refund) (db' : FinancialDatabase) : Prop where
  wellFormed : UpdateMutation.WellFormed m
  stored : current ∈ db.refunds
  atVersion : AtVersion m current
  executable : checkExecutable core db m current = .ok ()
  reserved : ∃ rows, releaseReservation m db.reservations = .ok rows ∧
    useReservation m current rows db.settlements = .ok (db'.reservations,db'.settlements)
  written : db' = { db with
    refunds := Table.update (AtVersion m) (fun _ => m.next) db.refunds
    reservations := db'.reservations
    settlements := db'.settlements
    ledger := db.ledger ++ m.ledger.map fun l => ⟨l,"refund"⟩
    audits := db'.audits
    refundDecisions := db'.refundDecisions }

/-- A committed update is the replay of a decision, which changes nothing, or a write. -/
theorem updateRefund_eq_ok {fence : Option FinancialFence} {m : UpdateMutation RefundTerms Amount}
    (h : updateRefund core db clock fence m = .ok (db',r)) :
    (db' = db ∧ m.decision ≠ none) ∨ ∃ current, Updated core db m current db' := by
  simp only [updateRefund,do_ok] at h
  obtain ⟨hwe,replayed,hrp,h⟩ := h
  cases replayed with
  | some response =>
    cases h
    refine .inl ⟨rfl,fun hn => ?_⟩
    simp [replayMutation,hn] at hrp
  | none =>
    simp only [do_ok] at h
    obtain ⟨-,-,current,hlo,⟨⟩,he,refunds,hw,rows,hre,
      ⟨reservations,settlements⟩,hu,mid,har,rfl,rfl⟩ := h
    obtain ⟨hst,hv⟩ := lockCurrent_eq_ok hlo
    obtain rfl := insertArtifacts_eq_ok har
    refine .inr ⟨current,hwe,hst,hv,he,⟨rows,hre,hu⟩,?_⟩
    rw [writeNext_eq_ok hw]

end Ocrypt.RefundStore
