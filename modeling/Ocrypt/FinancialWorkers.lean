import Ocrypt.OrderedPages
import Ocrypt.RefundStore
import Ocrypt.TreasuryStore
import Ocrypt.Workers

/-! The financial operations as one system beside the payment core. A service call reads a row,
talks to its ports and updates the row later, so a call is applied to any version of the row that
was ever stored. The logs record that history and what went to and came from the ports; no
transaction reads them. -/
namespace Ocrypt.FinancialWorkers
open Money Fallible Store Workers Custody Refunds Treasury FinancialStore RefundStore TreasuryStore

variable {π τ σ ρ : Type}

/-- One kind of request: its workflow, its table and its update. -/
structure Shelf (τ σ ρ : Type) where
  profile : Profile τ σ ρ
  rows : FinancialDatabase → List (Aggregate τ)
  decisions : FinancialDatabase → List (StoredDecision τ)
  update : Database → FinancialDatabase → ℤ → Option FinancialFence → UpdateMutation τ ρ →
    Except Refusal (FinancialDatabase × Aggregate τ)

def refundShelf : Shelf RefundTerms String Amount where
  profile := Refunds.profile
  rows := FinancialDatabase.refunds
  decisions := FinancialDatabase.refundDecisions
  update := updateRefund

def sweepShelf : Shelf SweepTerms Unit (List SourceReservation) where
  profile := Treasury.profile
  rows := FinancialDatabase.sweeps
  decisions := FinancialDatabase.sweepDecisions
  update := fun _ => updateSweep

def Shelf.repository (shelf : Shelf τ σ ρ) (db : FinancialDatabase) : Repository τ where
  get := FinancialStore.get (shelf.rows db)
  replayDecision := financialDecisionReplay (shelf.decisions db)

/-- The reads of a call that read `current` earlier. A decision that was stored since then is
found again by the update. -/
def Shelf.snapshot (shelf : Shelf τ σ ρ) (db : FinancialDatabase) (current : Aggregate τ) :
    Repository τ where
  get := FinancialStore.get [current]
  replayDecision := financialDecisionReplay (shelf.decisions db)

/-- The transaction that a call hands to the signer before it writes anything. -/
def handed (p : Profile τ σ ρ) (repo : Repository τ) : Call σ → Option (UnsignedTransaction σ)
  | .sign now c _ => do
    let _ ← (c.auth.authorize (p.permission "sign") now p.wording.inactiveStepUp).toOption
    let current ← (p.load repo c .awaitingSignature).toOption
    pure (p.unsignedFor current)
  | .advance _ workload tenantID id expected _ => do
    let current ← repo.get tenantID id
    let _ ← (require (current.version = expected ∧ current.status = .awaitingSignature)
      (⟨.stateConflict,""⟩ : Refusal)).toOption
    let _ ← (workload.authorize (p.permission "sign")).toOption
    pure (p.unsignedFor current)
  | _ => none

/-- The history of one kind of request: every row that was ever stored, every created request
with the policy that was applied, every answer of the builder that was accepted and every
transaction that was handed to the signer. -/
structure Log (π τ σ : Type) where
  seen : List (Aggregate τ) := []
  requests : List (π × Aggregate τ) := []
  accepted : List (UnsignedTransaction σ) := []
  handed : List (UnsignedTransaction σ) := []

/-- One call from the row it read to its update. The signer has been called even when the
update is refused. -/
def Shelf.call [DecidableEq σ] (shelf : Shelf τ σ ρ) (core : Database) (db : FinancialDatabase)
    (clock : ℤ) (log : Log π τ σ) (call : Call σ) (current : Aggregate τ)
    (fence : Option FinancialFence) (ids : PostingIDs) : FinancialDatabase × Log π τ σ :=
  let repo := shelf.snapshot db current
  let log := { log with handed := log.handed ++ (handed shelf.profile repo call).toList }
  match shelf.profile.plan repo ids call with
  | .ok (.update m) =>
    match shelf.update core db clock fence m with
    | .ok (db',_) =>
      let built := if current.status = .approved then call.built.toList else []
      (db',{ log with
        seen := log.seen ++ shelf.rows db'
        accepted := log.accepted ++ built })
    | .error _ => (db,log)
  | _ => (db,log)

/-- What the system uses from outside: the payment core's externals, the creation times of
matches and the hashes of requests. -/
structure Environment where
  ext : Externals
  capability : String
  createdAt : String → ℤ
  refundHash : RequestFacts → String
  sweepHash : SweepFacts → String

structure System where
  core : World
  db : FinancialDatabase := {}
  refundLog : Log Refunds.Policy RefundTerms String := {}
  sweepLog : Log Treasury.Policy SweepTerms Unit := {}

inductive Action
  | core (action : Workers.Action)
  /-- Policies and verified destinations are written by operators outside this system. -/
  | setPolicies (refund : List RefundPolicyRow) (treasury : List (PolicyRow Treasury.Policy))
  | setDestinations (rows : List DestinationRow)
  | acquireLease (tenantID aggregateType aggregateID ownerID : String) (duration : ℤ)
  | syncSettlements (tenantID : String) (limit : ℤ)
  | requestRefund (evidence : Evidence) (now : ℤ) (identity : MutationIdentity)
      (command : RequestCommand) (ids : RequestIDs)
  | requestSweep (activePolicy : (tenantID assetID : String) → Option Treasury.Policy) (now : ℤ)
      (identity : MutationIdentity) (command : RequestSweepCommand) (id : String)
  | refund (call : Call String) (current : Refund) (fence : Option FinancialFence)
      (ids : PostingIDs)
  | sweep (call : Call Unit) (current : SweepRequest) (fence : Option FinancialFence)
      (ids : PostingIDs)

/-- A request was created: it is stored now and was requested under the policy. -/
def Log.created (log : Log π τ σ) (policy : π) (r : Aggregate τ) : Log π τ σ :=
  { log with seen := log.seen ++ [r], requests := log.requests ++ [(policy,r)] }

/-- The step that an action takes. The evidence of a request may be of any earlier time. -/
def exec (env : Environment) (s : System) : Action → Except Refusal System
  | .core action =>
    match Workers.exec env.ext env.capability s.core action with
    | .ok core => .ok { s with core }
    | .error e => .error (storeFailure e.detail)
  | .setPolicies refundPolicies treasuryPolicies =>
    .ok { s with db := { s.db with refundPolicies, treasuryPolicies } }
  | .setDestinations destinations => .ok { s with db := { s.db with destinations } }
  | .acquireLease tenantID aggregateType aggregateID ownerID duration =>
    (acquireFinancialLease s.db tenantID aggregateType aggregateID ownerID duration
      s.core.clock).map fun r => { s with db := r.1 }
  | .syncSettlements tenantID limit =>
    (syncSettlements env.createdAt s.core.db s.db tenantID limit s.core.clock).map fun r =>
      { s with db := r.1 }
  | .requestRefund evidence now identity command ids => do
    let (policy,m) ← Refunds.request env.refundHash evidence now identity command ids
    let (db,r,created) ← createRefund s.core.db s.db s.core.clock m
    pure { s with db, refundLog := if created then s.refundLog.created policy r else s.refundLog }
  | .requestSweep activePolicy now identity command id => do
    let (policy,m) ← Treasury.requestSweep env.sweepHash activePolicy now identity command id
    let (db,r,created) ← createSweep s.db m
    pure { s with db, sweepLog := if created then s.sweepLog.created policy r else s.sweepLog }
  | .refund call current fence ids => do
    require (current ∈ s.refundLog.seen) missing
    let (db,refundLog) := refundShelf.call s.core.db s.db s.core.clock s.refundLog call current
      fence ids
    pure { s with db, refundLog }
  | .sweep call current fence ids => do
    require (current ∈ s.sweepLog.seen) missing
    let (db,sweepLog) := sweepShelf.call s.core.db s.db s.core.clock s.sweepLog call current
      fence ids
    pure { s with db, sweepLog }

end Ocrypt.FinancialWorkers
