import Ocrypt.Refunds
import Ocrypt.Store
import Ocrypt.Treasury

/-! The tables of the financial operations and the transactions of `RefundStore` and
`TreasuryStore` over them. A request row is its aggregate: the other columns copy fields of it,
and every mutation of the services keeps the ones that an update does not write. Outbox rows, the
hash chain of the audit log and timestamps kept for display are left out. -/
namespace Ocrypt.FinancialStore
open Money Domain Fallible Table Custody

/-- A row of financial_treasury_policies; (tenant, asset, version) is unique. -/
structure PolicyRow (π : Type) where
  (id tenantID assetID : String)
  version : ℤ
  (enabled emergencyPaused : Bool)
  policy : π
  activeFrom : ℤ
  activeUntil : Option ℤ

structure RefundPolicyRow extends PolicyRow Refunds.Policy where
  refundToOriginOnly : Bool

/-- A row of financial_refund_settlements; (tenant, chain event) is unique. -/
structure SettlementRow where
  (id tenantID paymentMatchID assetID chainID intentID chainEventID observedSender : String)
  (receivedAmount refundedAmount : Amount)
  (finalized riskHold : Bool)
  evidenceDigest : String
  deriving DecidableEq

structure DestinationRow where
  (id tenantID settlementID assetID chainID address : String)
  method : Refunds.VerificationMethod
  evidenceDigest : String
  verifiedAt : ℤ
  (expiresAt revokedAt : Option ℤ)
  deriving DecidableEq

/-- A row of financial_refund_reservations; the primary key is (tenant, refund). -/
structure ReservationRow where
  (tenantID settlementID refundID : String)
  amount : Amount
  releasedAt : Option ℤ := none
  finalizedAt : Option ℤ := none
  deriving DecidableEq

structure SourceRow where
  (tenantID sweepID chainID sourceAddress nonceRef : String)
  releasedAt : Option ℤ := none
  deriving DecidableEq

structure UsageBucket where
  (tenantID assetID operation : String)
  (windowStart windowEnd : ℤ)
  amount : Amount
  deriving DecidableEq

/-- A row of financial_ledger_transactions with its debit and its credit leg. -/
structure LedgerRow extends LedgerCommand where
  aggregateType : String
  deriving DecidableEq

/-- A row of financial_operator_idempotency with the response it retains. -/
structure StoredDecision (τ : Type) where
  tenantID : String
  decision : Decision
  response : Aggregate τ

structure WorkLease where
  (tenantID aggregateType aggregateID ownerID : String)
  (fencingToken leaseUntil : ℤ)
  deriving DecidableEq

structure FinancialFence where
  (tenantID aggregateType aggregateID ownerID : String)
  token : ℤ
  deriving DecidableEq

structure FinancialDatabase where
  treasuryPolicies : List (PolicyRow Treasury.Policy) := []
  refundPolicies : List RefundPolicyRow := []
  settlements : List SettlementRow := []
  destinations : List DestinationRow := []
  refunds : List Refunds.Refund := []
  reservations : List ReservationRow := []
  sweeps : List Treasury.SweepRequest := []
  sources : List SourceRow := []
  usage : List UsageBucket := []
  refundDecisions : List (StoredDecision Refunds.RefundTerms) := []
  sweepDecisions : List (StoredDecision Treasury.SweepTerms) := []
  ledger : List LedgerRow := []
  audits : List AuditCommand := []
  leases : List WorkLease := []

variable {τ ρ π : Type} {db db' : FinancialDatabase} {rows : List (Aggregate τ)} {r : Aggregate τ}
  {m : UpdateMutation τ ρ} {ledger : List LedgerCommand} {aggregateType : String}

def missing : Refusal := ⟨.missing,""⟩

def storeFailure (detail : String) : Refusal := ⟨.database,detail⟩

def PolicyRow.Active (r : PolicyRow π) (tenantID assetID : String) (clock : ℤ) : Prop :=
  r.tenantID = tenantID ∧ r.assetID = assetID ∧ r.enabled = true ∧ r.emergencyPaused = false ∧
    r.activeFrom ≤ clock ∧ ∀ until_ ∈ r.activeUntil, clock < until_

instance (r : PolicyRow π) (tenantID assetID : String) (clock : ℤ) :
    Decidable (r.Active tenantID assetID clock) :=
  inferInstanceAs (Decidable (_ ∧ _))

def activePolicy (rows : List (PolicyRow π)) (clock : ℤ) (tenantID assetID : String) : Option π :=
  ((rows.filter fun r => r.Active tenantID assetID clock).mergeSort
    fun a b => decide (b.version ≤ a.version)).head?.map fun r => r.policy

def WorkLease.For (l : WorkLease) (tenantID aggregateType aggregateID : String) : Prop :=
  l.tenantID = tenantID ∧ l.aggregateType = aggregateType ∧ l.aggregateID = aggregateID

instance (tenantID aggregateType aggregateID : String) :
    DecidablePred fun l : WorkLease => l.For tenantID aggregateType aggregateID :=
  fun _ => inferInstanceAs (Decidable (_ ∧ _))

/-- A fresh lease, or one that has expired or is held by the same worker; the token grows. -/
def acquireFinancialLease (db : FinancialDatabase) (tenantID aggregateType aggregateID ownerID : String)
    (duration clock : ℤ) : Except Refusal (FinancialDatabase × Option FinancialFence) := do
  require (tenantID ≠ "" ∧ aggregateID ≠ "" ∧ ownerID ≠ "" ∧ 5*Requests.second ≤ duration ∧
    duration ≤ 15*minute) (storeFailure "invalid financial lease request")
  match db.leases.find? fun l => l.For tenantID aggregateType aggregateID with
  | none =>
    pure ({ db with leases := db.leases ++
      [⟨tenantID,aggregateType,aggregateID,ownerID,1,clock+duration⟩] },
      some ⟨tenantID,aggregateType,aggregateID,ownerID,1⟩)
  | some lease =>
    if lease.leaseUntil < clock ∨ lease.ownerID = ownerID then
      let renew (l : WorkLease) : WorkLease := { l with
        ownerID := ownerID
        fencingToken := l.fencingToken+1
        leaseUntil := clock+duration }
      let leases := Table.update (fun l => l.For tenantID aggregateType aggregateID) renew db.leases
      pure ({ db with leases },
        some ⟨tenantID,aggregateType,aggregateID,ownerID,lease.fencingToken+1⟩)
    else pure (db,none)

def LeasesOnly (db db' : FinancialDatabase) : Prop := ∃ leases, db' = { db with leases }

lemma LeasesOnly.refl (db : FinancialDatabase) : LeasesOnly db db := ⟨db.leases,rfl⟩

lemma LeasesOnly.trans {a b c : FinancialDatabase} (hab : LeasesOnly a b) (hbc : LeasesOnly b c) :
    LeasesOnly a c := by
  obtain ⟨l,rfl⟩ := hab
  obtain ⟨l',rfl⟩ := hbc
  exact ⟨l',rfl⟩

lemma acquireFinancialLease_leases
    {tenantID aggregateType aggregateID ownerID : String} {duration clock : ℤ}
    {fence : Option FinancialFence}
    (h : acquireFinancialLease db tenantID aggregateType aggregateID ownerID duration clock =
      .ok (db',fence)) : LeasesOnly db db' := by
  simp only [acquireFinancialLease,do_eq_ok] at h
  obtain ⟨-,-,h⟩ := h
  split at h
  · cases h
    exact ⟨_,rfl⟩
  · split_ifs at h <;> cases h
    · exact ⟨_,rfl⟩
    · exact LeasesOnly.refl db

def checkFinancialFence (leases : List WorkLease) (fence : Option FinancialFence)
    (tenantID aggregateType aggregateID : String) (clock : ℤ) : Except Refusal Unit :=
  match fence with
  | none => .ok ()
  | some f => do
    require (f.tenantID = tenantID ∧ f.aggregateType = aggregateType ∧
      f.aggregateID = aggregateID) ⟨.fenceLost,""⟩
    let lease ← orFail (leases.find? fun l => l.For tenantID aggregateType aggregateID)
      ⟨.fenceLost,""⟩
    require (lease.ownerID = f.ownerID ∧ lease.fencingToken = f.token ∧ clock < lease.leaseUntil)
      ⟨.fenceLost,""⟩

def UsageBucket.For (b : UsageBucket) (tenantID assetID operation : String) (start : ℤ) : Prop :=
  b.tenantID = tenantID ∧ b.assetID = assetID ∧ b.operation = operation ∧ b.windowStart = start

instance (tenantID assetID operation : String) (start : ℤ) :
    DecidablePred fun b : UsageBucket => b.For tenantID assetID operation start :=
  fun _ => inferInstanceAs (Decidable (_ ∧ _))

/-- Charge the bucket of a window, which is opened on first use and must stay within the
maximum. -/
def reserveFinancialUsage (rows : List UsageBucket) (tenantID assetID operation : String)
    (start end_ : ℤ) (amount maximum : Amount) : Except Refusal (List UsageBucket) := do
  require (start ≠ 0 ∧ start < end_ ∧ amount.isZero = false ∧ maximum.isZero = false)
    (storeFailure "invalid usage window")
  let exceeded := storeFailure "usage limit exceeded"
  let rows := if ∃ b ∈ rows, b.For tenantID assetID operation start then rows
    else rows ++ [⟨tenantID,assetID,operation,start,end_,.zero⟩]
  let bucket ← orFail (rows.find? fun b => b.For tenantID assetID operation start) missing
  match bucket.amount.add amount with
  | .error _ => .error exceeded
  | .ok next => do
    require (next.cmp maximum ≠ .gt) exceeded
    pure (update (fun b => b.For tenantID assetID operation start)
      (fun b => { b with amount := next, windowEnd := end_ }) rows)

/-- The response of an earlier decision with the same key; the fingerprint must agree. -/
def financialDecisionReplay (rows : List (StoredDecision τ)) (tenantID : String) (d : Decision) :
    Except Refusal (Option (Aggregate τ)) := do
  require (tenantID ≠ "" ∧ d.actorID ≠ "" ∧ d.operation ≠ "" ∧ d.identity.key ≠ "" ∧
      d.identity.fingerprint ≠ .zero)
    (storeFailure "invalid financial decision idempotency identity")
  match rows.find? fun s => s.tenantID = tenantID ∧ s.decision.actorID = d.actorID ∧
      s.decision.operation = d.operation ∧ s.decision.identity.key = d.identity.key with
  | none => pure none
  | some stored => do
    require (stored.decision.identity.fingerprint = d.identity.fingerprint)
      ⟨.idempotencyConflict,""⟩
    pure (some stored.response)

/-- The replay at the start of an update; a mutation without a decision is never replayed. -/
def replayMutation (rows : List (StoredDecision τ)) (m : UpdateMutation τ ρ) :
    Except Refusal (Option (Aggregate τ)) :=
  match m.decision with
  | none => .ok none
  | some d => financialDecisionReplay rows m.tenantID d

def storeFinancialDecision (rows : List (StoredDecision τ)) (m : UpdateMutation τ ρ) :
    List (StoredDecision τ) :=
  match m.decision with
  | none => rows
  | some d => rows ++ [⟨m.tenantID,d,m.next⟩]

def insertFinancialLedger (aggregateType : String) (rows : List LedgerRow) (l : LedgerCommand) :
    Except Refusal (List LedgerRow) := do
  require (l.id ≠ "" ∧ l.tenantID ≠ "" ∧ l.assetID ≠ "" ∧ l.aggregateID ≠ "" ∧ l.entryType ≠ "" ∧
      l.debitAccountID ≠ "" ∧ l.creditAccountID ≠ "" ∧ l.debitAccountID ≠ l.creditAccountID ∧
      l.amount.isZero = false)
    (storeFailure "invalid balanced ledger command")
  insertUnique (fun r : LedgerRow => r.id = l.id) ⟨l,aggregateType⟩
    (storeFailure "financial_ledger_transactions_pkey") rows

def insertArtifacts (aggregateType : String) (db : FinancialDatabase) (audit : AuditCommand)
    (ledger : List LedgerCommand) : Except Refusal FinancialDatabase := do
  require (audit.tenantID ≠ "" ∧ audit.aggregateID ≠ "" ∧ audit.actorID ≠ "" ∧ audit.action ≠ "" ∧
      Requests.isBlank audit.reason = false)
    (storeFailure "invalid financial audit command")
  require (∀ l ∈ ledger, l.tenantID = audit.tenantID) ⟨.validation,""⟩
  let rows ← traverse (insertFinancialLedger aggregateType) ledger db.ledger
  pure { db with audits := db.audits ++ [audit], ledger := rows }

def UpdateMutation.WellFormed (m : UpdateMutation τ ρ) : Prop :=
  m.tenantID ≠ "" ∧ m.aggregateID ≠ "" ∧ 1 ≤ m.expectedVersion ∧
    m.next.version = m.expectedVersion+1 ∧ m.next.tenantID = m.tenantID ∧
    m.next.id = m.aggregateID

instance (m : UpdateMutation τ ρ) : Decidable (UpdateMutation.WellFormed m) :=
  inferInstanceAs (Decidable (_ ∧ _))

/-- `Get` of both stores. -/
def get (rows : List (Aggregate τ)) (tenantID id : String) : Option (Aggregate τ) :=
  rows.find? fun r => r.tenantID = tenantID ∧ r.id = id

def lockCurrent (rows : List (Aggregate τ)) (m : UpdateMutation τ ρ) :
    Except Refusal (Aggregate τ) := do
  let current ← orFail (get rows m.tenantID m.aggregateID) missing
  require (current.version = m.expectedVersion) ⟨.versionConflict,""⟩
  pure current

def writeNext (rows : List (Aggregate τ)) (m : UpdateMutation τ ρ) :
    Except Refusal (List (Aggregate τ)) :=
  updateOne (fun r : Aggregate τ => r.tenantID = m.tenantID ∧ r.id = m.aggregateID ∧
    r.version = m.expectedVersion) (fun _ => m.next) ⟨.versionConflict,""⟩ rows

def AtVersion (m : UpdateMutation τ ρ) (r : Aggregate τ) : Prop :=
  r.tenantID = m.tenantID ∧ r.id = m.aggregateID ∧ r.version = m.expectedVersion

instance (m : UpdateMutation τ ρ) : DecidablePred (AtVersion m) :=
  fun _ => inferInstanceAs (Decidable (_ ∧ _))

lemma get_eq_some {tenantID id : String}
    (h : get rows tenantID id = some r) : r ∈ rows ∧ r.tenantID = tenantID ∧ r.id = id :=
  mem_of_find? h

lemma lockCurrent_eq_ok (h : lockCurrent rows m = .ok r) : r ∈ rows ∧ AtVersion m r := by
  simp only [lockCurrent,do_ok,orFail_eq_ok] at h
  obtain ⟨r,hg,hv,rfl⟩ := h
  obtain ⟨hr,hte,hid⟩ := get_eq_some hg
  exact ⟨hr,hte,hid,hv⟩

lemma writeNext_eq_ok {rows rows' : List (Aggregate τ)}
    (h : writeNext rows m = .ok rows') : rows' = update (AtVersion m) (fun _ => m.next) rows := by
  exact (updateOne_eq_ok.mp h).2.symm

lemma traverse_insertFinancialLedger {rows rows' : List LedgerRow}
    (h : traverse (insertFinancialLedger aggregateType) ledger rows = .ok rows') :
    rows' = rows ++ ledger.map fun l => ⟨l,aggregateType⟩ := by
  induction ledger generalizing rows with
  | nil =>
    cases h
    simp
  | cons l ledger ih =>
    obtain ⟨mid,hm,hr⟩ := traverse_cons_eq_ok.mp h
    simp only [insertFinancialLedger,do_ok,insertUnique_eq_ok] at hm
    obtain ⟨-,-,-,rfl⟩ := hm
    rw [ih hr]
    simp

lemma insertArtifacts_eq_ok {audit : AuditCommand}
    (h : insertArtifacts aggregateType db audit ledger = .ok db') : db' = { db with
      audits := db.audits ++ [audit], ledger := db.ledger ++ ledger.map fun l => ⟨l,aggregateType⟩ } := by
  simp only [insertArtifacts,do_eq_ok,pure_eq_ok] at h
  obtain ⟨-,-,-,-,rows,hr,rfl⟩ := h
  rw [traverse_insertFinancialLedger hr]

/-- A page of requests in some statuses, in the order of `updated_at` and `id`. -/
def listAwaitingFinality (rows : List (Aggregate τ)) (tenantID : String) (limit : ℤ) :
    Except Refusal (List (Aggregate τ)) := do
  require (1 ≤ limit ∧ limit ≤ 200) ⟨.validation,""⟩
  let waiting := rows.filter fun r => r.tenantID = tenantID ∧
    r.status ∈ [.broadcast,.confirmed,.finalized]
  pure ((waiting.mergeSort fun a b =>
    decide (a.updatedAt < b.updatedAt ∨ (a.updatedAt = b.updatedAt ∧ a.id ≤ b.id))).take
      limit.toNat)

end Ocrypt.FinancialStore
