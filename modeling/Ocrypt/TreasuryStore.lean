import Ocrypt.FinancialStore

/-! The transactions of `TreasuryStore`: the creation of a sweep with the reservation of its
sources, and its updates. -/
namespace Ocrypt.TreasuryStore
open Fallible Table Custody Treasury FinancialStore

def reserveSource (r : SweepRequest) (rows : List SourceRow) (s : SourceReservation) :
    Except Refusal (List SourceRow) := do
  require (s.address.chain = r.chainID ∧ Requests.isBlank s.nonceRef = false) ⟨.validation,""⟩
  insertUnique (fun x : SourceRow => x.tenantID = r.tenantID ∧ x.sourceAddress = s.address.value ∧
      x.nonceRef = s.nonceRef ∧
      (x.sweepID = r.id ∨ (x.chainID = s.address.chain ∧ x.releasedAt = none)))
    ⟨r.tenantID,r.id,s.address.chain,s.address.value,s.nonceRef,none⟩ ⟨.stateConflict,""⟩ rows

/-- `Create`: the sweep of an earlier request with the same key, or a new one. -/
def createSweep (db : FinancialDatabase) (m : CreateMutation) :
    Except Refusal (FinancialDatabase × SweepRequest × Bool) := do
  let r := m.request
  require (r.tenantID ≠ "" ∧ r.id ≠ "" ∧ r.assetID ≠ "" ∧ r.version = 1 ∧ r.requestHash ≠ "" ∧
    m.audit.tenantID = r.tenantID) ⟨.validation,""⟩
  match db.sweeps.find? fun s => s.tenantID = r.tenantID ∧ s.idempotencyKey = r.idempotencyKey with
  | some existing => do
    require (existing.requestHash = r.requestHash) ⟨.idempotencyConflict,""⟩
    pure (db,existing,false)
  | none => do
    let usage ← (reserveFinancialUsage db.usage r.tenantID r.assetID "sweep" m.limits.windowStart
      m.limits.windowEnd r.terms.amount m.limits.maximum).mapError fun e => ⟨.policyLimit,e.detail⟩
    let sweeps ← insertUnique (fun s : SweepRequest => s.id = r.id ∨
        (s.tenantID = r.tenantID ∧ s.idempotencyKey = r.idempotencyKey)) r
      ⟨.stateConflict,""⟩ db.sweeps
    let sources ← traverse (reserveSource r) m.sources db.sources
    let db ← insertArtifacts "sweep" { db with usage, sweeps, sources } m.audit []
    pure (db,r,true)

structure Created (db : FinancialDatabase) (m : CreateMutation) (db' : FinancialDatabase) :
    Prop where
  fresh : ∀ s ∈ db.sweeps, s.id ≠ m.request.id
  written : db' = { db with
    usage := db'.usage
    sweeps := db.sweeps ++ [m.request]
    sources := db'.sources
    audits := db'.audits }

variable {db db' : FinancialDatabase} {r : SweepRequest}

/-- A sweep is replayed or stored as it was requested. -/
theorem createSweep_eq_ok {m : CreateMutation}
    {created : Bool} (h : createSweep db m = .ok (db',r,created)) :
    (created = false ∧ db' = db) ∨ (created = true ∧ r = m.request ∧ Created db m db') := by
  simp only [createSweep,do_eq_ok] at h
  obtain ⟨-,-,h⟩ := h
  split at h
  · simp only [do_ok] at h
    obtain ⟨-,-,rfl,-,rfl⟩ := h
    exact .inl ⟨rfl,rfl⟩
  · simp only [do_ok,insertUnique_eq_ok] at h
    obtain ⟨usage,-,sweeps,⟨hf,rfl⟩,sources,-,mid,har,rfl,rfl,rfl⟩ := h
    obtain rfl := insertArtifacts_eq_ok har
    refine .inr ⟨rfl,rfl,fun s hs hid => hf s hs (.inl hid),?_⟩
    simp

def releaseSource (r : SweepRequest) (rows : List SourceRow) (s : SourceReservation) :
    Except Refusal (List SourceRow) :=
  updateOne (fun x : SourceRow => x.tenantID = r.tenantID ∧ x.sweepID = r.id ∧
      x.chainID = s.address.chain ∧ x.sourceAddress = s.address.value ∧ x.nonceRef = s.nonceRef ∧
      x.releasedAt = none)
    (fun x => { x with releasedAt := some r.updatedAt }) ⟨.stateConflict,""⟩ rows

def updateSweep (db : FinancialDatabase) (clock : ℤ) (fence : Option FinancialFence)
    (m : UpdateMutation SweepTerms (List SourceReservation)) :
    Except Refusal (FinancialDatabase × SweepRequest) := do
  require (UpdateMutation.WellFormed m) ⟨.validation,""⟩
  match ← replayMutation db.sweepDecisions m with
  | some response => pure (db,response)
  | none => do
    checkFinancialFence db.leases fence m.tenantID "sweep" m.aggregateID clock
    let _ ← lockCurrent db.sweeps m
    let sweeps ← writeNext db.sweeps m
    let sources ← traverse (releaseSource m.next) m.release db.sources
    let db ← insertArtifacts "sweep" { db with sweeps, sources } m.audit m.ledger
    pure ({ db with sweepDecisions := storeFinancialDecision db.sweepDecisions m },m.next)

structure Updated (db : FinancialDatabase) (m : UpdateMutation SweepTerms (List SourceReservation))
    (current : SweepRequest) (db' : FinancialDatabase) : Prop where
  wellFormed : UpdateMutation.WellFormed m
  stored : current ∈ db.sweeps
  atVersion : AtVersion m current
  written : db' = { db with
    sweeps := Table.update (AtVersion m) (fun _ => m.next) db.sweeps
    sources := db'.sources
    ledger := db.ledger ++ m.ledger.map fun l => ⟨l,"sweep"⟩
    audits := db'.audits
    sweepDecisions := db'.sweepDecisions }

/-- An update is a replayed decision, or it rewrites the version that it read. -/
theorem updateSweep_eq_ok {clock : ℤ}
    {fence : Option FinancialFence} {m : UpdateMutation SweepTerms (List SourceReservation)}
    (h : updateSweep db clock fence m = .ok (db',r)) :
    (db' = db ∧ m.decision ≠ none) ∨ ∃ current, Updated db m current db' := by
  simp only [updateSweep,do_ok] at h
  obtain ⟨hwe,replayed,hre,h⟩ := h
  cases replayed with
  | some response =>
    cases h
    refine .inl ⟨rfl,fun hn => ?_⟩
    simp [replayMutation,hn] at hre
  | none =>
    simp only [do_ok] at h
    obtain ⟨-,-,current,hlo,sweeps,hw,sources,-,mid,har,rfl,rfl⟩ := h
    obtain ⟨hst,hv⟩ := lockCurrent_eq_ok hlo
    obtain rfl := insertArtifacts_eq_ok har
    refine .inr ⟨current,hwe,hst,hv,?_⟩
    rw [writeNext_eq_ok hw]

end Ocrypt.TreasuryStore
