import Ocrypt.Authentication
import Ocrypt.OptimisticUpdates

/-! The custody workflow that packages refunds and treasury share. Both keep an aggregate that is
requested, approved by a second actor, built, signed and broadcast by isolated ports, and followed
on the chain. A profile holds what the two packages do differently. -/
namespace Ocrypt.Custody
open Money Fallible Requests Authentication Domain

/-- The error values of the two packages and of their stores. `port` is an error of a builder,
signer or broadcaster, `missing` the absence of a row. -/
inductive RefusalKind
  | validation
  | forbidden
  | stateConflict
  | versionConflict
  | idempotencyConflict
  | policyLimit
  | destination
  | insufficientRefundable
  | fenceLost
  | port
  | missing
  | database
  deriving DecidableEq, Repr

structure Refusal where
  kind : RefusalKind
  detail : String := ""
  deriving DecidableEq, Repr

inductive Status
  | approvalRequired
  | approved
  | building
  | awaitingSignature
  | signed
  | broadcast
  | confirmed
  | finalized
  | rejected
  | cancelled
  | failed
  | reorged
  deriving DecidableEq, Repr

def Status.text : Status → String
  | .approvalRequired => "approval_required"
  | .approved => "approved"
  | .building => "building"
  | .awaitingSignature => "awaiting_signature"
  | .signed => "signed"
  | .broadcast => "broadcast"
  | .confirmed => "confirmed"
  | .finalized => "finalized"
  | .rejected => "rejected"
  | .cancelled => "cancelled"
  | .failed => "failed"
  | .reorged => "reorged"

structure Address where
  (chain value : String)
  deriving DecidableEq, Repr

/-- `Address.Validate` of both packages, up to its message. -/
def Address.Valid (a : Address) : Prop :=
  isBlank a.chain = false ∧ isBlank a.value = false ∧ a.value = trimSpace a.value ∧
    a.value.utf8ByteSize ≤ 512

instance : DecidablePred Address.Valid := fun _ => inferInstanceAs (Decidable (_ ∧ _))

structure Approval where
  actorID : String
  at_ : ℤ
  reason : String
  deriving DecidableEq, Repr

def day : ℤ := 24*60*minute

/-- `startUTC` and `startOfUTCDate`: the zero time is the start of a day. -/
def startOfUTCDate (t : ℤ) : ℤ := t - t % day

variable (value : String) (τ : Type)

/-- What a request fixes for good. `terms` is what only one of the packages has. -/
structure Request where
  (id tenantID assetID chainID policyID : String)
  policyVersion : ℤ
  (creatorID idempotencyKey requestHash : String)
  destination : Address
  terms : τ
  createdAt : ℤ
  deriving DecidableEq

structure Aggregate extends Request τ where
  status : Status
  approvals : List Approval := []
  unsignedDigest : String := ""
  unsignedReference : String := ""
  signedDigest : String := ""
  signedReference : String := ""
  transactionHash : String := ""
  version : ℤ := 1
  updatedAt : ℤ
  deriving DecidableEq

structure UnsignedTransaction (σ : Type) where
  (requestID tenantID : String)
  scope : σ
  (assetID chainID : String)
  destination : Address
  (amount fee : Amount)
  (digest opaqueReference : String)
  deriving DecidableEq

structure SignedTransaction where
  (requestID unsignedDigest signedDigest opaqueReference : String)
  deriving DecidableEq

structure BroadcastReceipt where
  (signedDigest transactionHash : String)
  deriving DecidableEq

structure AuditCommand where
  (tenantID aggregateID actorID action reason : String)
  occurredAt : ℤ
  deriving DecidableEq

structure LedgerCommand where
  (id entryType aggregateID debitAccountID creditAccountID tenantID assetID : String)
  amount : Amount
  occurredAt : ℤ
  deriving DecidableEq

structure Fingerprint where
  bytes : Bytes
  length : bytes.length = 32
  deriving DecidableEq

def Fingerprint.zero : Fingerprint := ⟨List.replicate 32 0,by simp⟩

/-- The idempotency key and fingerprint that the request context carries; workers have none. -/
structure MutationIdentity where
  key : String := ""
  fingerprint : Fingerprint := .zero
  deriving DecidableEq

/-- The operator decision that an update answers, to be replayed later. -/
structure Decision where
  (actorID operation : String)
  identity : MutationIdentity
  deriving DecidableEq

/-- `ρ` is what a cancellation gives back: a refundable amount or reserved sources. -/
structure UpdateMutation (τ ρ : Type) where
  (tenantID aggregateID : String)
  expectedVersion : ℤ
  next : Aggregate τ
  audit : AuditCommand
  ledger : List LedgerCommand
  release : ρ
  decision : Option Decision

structure PostingIDs where
  (first networkFee : String)

structure AuthContext where
  actorID : String
  permissions : List String
  stepUpValidUntil : ℤ

structure WorkloadContext where
  actorID : String
  permissions : List String

structure Wording where
  (inactiveStepUp approvalIdentity ownApproval transitionIdentity unboundSignature
    unboundReceipt hashMismatch broadcastReason : String)

structure Profile (τ σ ρ : Type) where
  kind : String
  wording : Wording
  scope : τ → σ
  amount : τ → Amount
  /-- The most that a builder may charge. -/
  feeLimit : τ → Amount
  /-- The fee that is signed and posted. -/
  fee : τ → Amount
  /-- How the service checks an unsigned transaction. -/
  validateUnsigned : Aggregate τ → UnsignedTransaction σ → Except Refusal Unit
  /-- The ledger commands of a step to a status. -/
  postings : Aggregate τ → Status → PostingIDs → ℤ → List LedgerCommand
  release : Aggregate τ → Status → ρ

variable {τ σ ρ : Type}

def Profile.permission (p : Profile τ σ ρ) (operation : String) : String :=
  "treasury:" ++ p.kind ++ "s:" ++ operation

def AuthContext.authorize (a : AuthContext) (permission : String) (now : ℤ) (inactive : String) :
    Except Refusal Unit := do
  require (a.actorID ≠ "" ∧ permission ∈ a.permissions) ⟨.forbidden,""⟩
  require (now < a.stepUpValidUntil) ⟨.forbidden,inactive⟩

def WorkloadContext.authorize (w : WorkloadContext) (permission : String) : Except Refusal Unit :=
  require (w.actorID ≠ "" ∧ permission ∈ w.permissions) ⟨.forbidden,""⟩

structure Repository (τ : Type) where
  get : (tenantID id : String) → Option (Aggregate τ)
  replayDecision : (tenantID : String) → Decision → Except Refusal (Option (Aggregate τ))

/-- A call ends with a replayed response or with an update for the store. -/
inductive Plan (τ ρ : Type)
  | replay (response : Aggregate τ)
  | update (mutation : UpdateMutation τ ρ)

/-- `update` and `updateMutation`. -/
def Profile.update (p : Profile τ σ ρ) (current next : Aggregate τ) (actor action reason : String)
    (now : ℤ) (ids : PostingIDs) (decision : Option Decision) : UpdateMutation τ ρ where
  tenantID := current.tenantID
  aggregateID := current.id
  expectedVersion := current.version
  next := next
  audit := ⟨current.tenantID,current.id,actor,p.kind ++ "." ++ action,reason,now⟩
  ledger := p.postings current next.status ids now
  release := p.release current next.status
  decision := decision

def replayDecision (repo : Repository τ) (tenantID : String) (d : Decision) :
    Except Refusal (Option (Aggregate τ)) :=
  if d.identity.key = "" ∧ d.identity.fingerprint = .zero then .ok none
  else do
    require (8 ≤ d.identity.key.utf8ByteSize ∧ d.identity.key.utf8ByteSize ≤ 255 ∧
      d.identity.key = trimSpace d.identity.key ∧ d.identity.fingerprint ≠ .zero) ⟨.validation,""⟩
    repo.replayDecision tenantID d

structure ApproveCommand where
  (tenantID aggregateID : String)
  expectedVersion : ℤ
  reason : String
  auth : AuthContext

structure TransitionCommand where
  (tenantID aggregateID : String)
  expectedVersion : ℤ
  auth : AuthContext

structure ChainResultCommand where
  (tenantID aggregateID : String)
  expectedVersion : ℤ
  transactionHash : String
  status : Status
  evidenceDigest : String
  workload : WorkloadContext

/-- The step that each transition takes: its status, its fields and the next version. -/
def Aggregate.step (r : Aggregate τ) (status : Status) (now : ℤ) : Aggregate τ :=
  { r with status, version := r.version+1, updatedAt := now }

def Profile.approve (p : Profile τ σ ρ) (repo : Repository τ) (now : ℤ)
    (identity : MutationIdentity) (c : ApproveCommand) (ids : PostingIDs) :
    Except Refusal (Plan τ ρ) := do
  c.auth.authorize (p.permission "approve") now p.wording.inactiveStepUp
  require (c.tenantID ≠ "" ∧ c.aggregateID ≠ "" ∧ 1 ≤ c.expectedVersion ∧
    isBlank c.reason = false ∧ c.reason.utf8ByteSize ≤ 2048) ⟨.validation,p.wording.approvalIdentity⟩
  let decision : Decision := ⟨c.auth.actorID,p.kind ++ ".approve",identity⟩
  match ← replayDecision repo c.tenantID decision with
  | some response => pure (.replay response)
  | none => do
    let current ← orFail (repo.get c.tenantID c.aggregateID) ⟨.missing,""⟩
    require (current.version = c.expectedVersion) ⟨.versionConflict,""⟩
    require (current.status = .approvalRequired) ⟨.stateConflict,""⟩
    require (current.creatorID ≠ c.auth.actorID) ⟨.forbidden,p.wording.ownApproval⟩
    let next := { current.step .approved now with
      approvals := current.approvals ++ [⟨c.auth.actorID,now,trimSpace c.reason⟩] }
    pure (.update (p.update current next c.auth.actorID "approved" c.reason now ids (some decision)))

def Profile.cancel (p : Profile τ σ ρ) (repo : Repository τ) (now : ℤ)
    (identity : MutationIdentity) (c : TransitionCommand) (reason : String) (ids : PostingIDs) :
    Except Refusal (Plan τ ρ) := do
  c.auth.authorize (p.permission "cancel") now p.wording.inactiveStepUp
  require (isBlank reason = false ∧ reason.utf8ByteSize ≤ 2048) ⟨.validation,""⟩
  let decision : Decision := ⟨c.auth.actorID,p.kind ++ ".cancel",identity⟩
  match ← replayDecision repo c.tenantID decision with
  | some response => pure (.replay response)
  | none => do
    let current ← orFail (repo.get c.tenantID c.aggregateID) ⟨.missing,""⟩
    require (current.version = c.expectedVersion) ⟨.versionConflict,""⟩
    require (current.status ∈ [.approvalRequired,.approved,.awaitingSignature])
      ⟨.stateConflict,""⟩
    pure (.update (p.update current (current.step .cancelled now) c.auth.actorID "cancelled" reason
      now ids (some decision)))

/-- `load` and `loadForTransition`. -/
def Profile.load (p : Profile τ σ ρ) (repo : Repository τ) (c : TransitionCommand)
    (expected : Status) : Except Refusal (Aggregate τ) := do
  require (c.tenantID ≠ "" ∧ c.aggregateID ≠ "" ∧ 1 ≤ c.expectedVersion)
    ⟨.validation,p.wording.transitionIdentity⟩
  let current ← orFail (repo.get c.tenantID c.aggregateID) ⟨.missing,""⟩
  require (current.version = c.expectedVersion) ⟨.versionConflict,""⟩
  require (current.status = expected) ⟨.stateConflict,""⟩
  pure current

def Aggregate.prepared (r : Aggregate τ) (u : UnsignedTransaction σ) (now : ℤ) : Aggregate τ :=
  { r.step .awaitingSignature now with
    unsignedDigest := u.digest
    unsignedReference := u.opaqueReference }

def Aggregate.withSignature (r : Aggregate τ) (s : SignedTransaction) (now : ℤ) : Aggregate τ :=
  { r.step .signed now with
    signedDigest := s.signedDigest
    signedReference := s.opaqueReference }

def Aggregate.withReceipt (r : Aggregate τ) (receipt : BroadcastReceipt) (now : ℤ) : Aggregate τ :=
  { r.step .broadcast now with transactionHash := receipt.transactionHash }

/-- The transaction that is handed to the signer, rebuilt from the stored aggregate. -/
def Profile.unsignedFor (p : Profile τ σ ρ) (r : Aggregate τ) : UnsignedTransaction σ where
  requestID := r.id
  tenantID := r.tenantID
  scope := p.scope r.terms
  assetID := r.assetID
  chainID := r.chainID
  destination := r.destination
  amount := p.amount r.terms
  fee := p.fee r.terms
  digest := r.unsignedDigest
  opaqueReference := r.unsignedReference

/-- `response` is the answer of the builder for the aggregate, `none` when it fails. -/
def Profile.prepare (p : Profile τ σ ρ) (repo : Repository τ) (now : ℤ) (c : TransitionCommand)
    (response : Option (UnsignedTransaction σ)) (ids : PostingIDs) : Except Refusal (Plan τ ρ) := do
  c.auth.authorize (p.permission "execute") now p.wording.inactiveStepUp
  let current ← p.load repo c .approved
  let unsigned ← orFail response ⟨.port,"build unsigned " ++ p.kind⟩
  p.validateUnsigned current unsigned
  pure (.update (p.update current (current.prepared unsigned now) c.auth.actorID
    "awaiting_signature" "unsigned transaction verified" now ids none))

/-- `response` is the answer of the signer to `unsignedFor` the aggregate. -/
def Profile.sign (p : Profile τ σ ρ) (repo : Repository τ) (now : ℤ) (c : TransitionCommand)
    (response : Option SignedTransaction) (ids : PostingIDs) : Except Refusal (Plan τ ρ) := do
  c.auth.authorize (p.permission "sign") now p.wording.inactiveStepUp
  let current ← p.load repo c .awaitingSignature
  let signed ← orFail response ⟨.port,"sign " ++ p.kind⟩
  require (signed.requestID = current.id ∧ signed.unsignedDigest = current.unsignedDigest ∧
      isBlank signed.signedDigest = false ∧ isBlank signed.opaqueReference = false)
    ⟨.validation,p.wording.unboundSignature⟩
  pure (.update (p.update current (current.withSignature signed now) c.auth.actorID "signed"
    "isolated signer response verified" now ids none))

def Profile.broadcast (p : Profile τ σ ρ) (repo : Repository τ) (now : ℤ) (c : TransitionCommand)
    (response : Option BroadcastReceipt) (ids : PostingIDs) : Except Refusal (Plan τ ρ) := do
  c.auth.authorize (p.permission "broadcast") now p.wording.inactiveStepUp
  let current ← p.load repo c .signed
  let receipt ← orFail response ⟨.port,"broadcast " ++ p.kind⟩
  require (receipt.signedDigest = current.signedDigest ∧ isBlank receipt.transactionHash = false)
    ⟨.validation,p.wording.unboundReceipt⟩
  pure (.update (p.update current (current.withReceipt receipt now) c.auth.actorID "broadcast"
    p.wording.broadcastReason now ids none))

def chainResultAllowed (status current : Status) : Bool :=
  match status with
  | .confirmed => current = .broadcast
  | .finalized => current = .confirmed
  | .reorged => current = .broadcast || current = .confirmed || current = .finalized
  | .failed => current = .broadcast
  | _ => false

def Profile.recordChainResult (p : Profile τ σ ρ) (repo : Repository τ) (now : ℤ)
    (c : ChainResultCommand) (ids : PostingIDs) : Except Refusal (Plan τ ρ) := do
  c.workload.authorize (p.permission "observe")
  require (isBlank c.transactionHash = false ∧ isBlank c.evidenceDigest = false) ⟨.validation,""⟩
  let current ← orFail (repo.get c.tenantID c.aggregateID) ⟨.missing,""⟩
  require (current.version = c.expectedVersion) ⟨.versionConflict,""⟩
  require (current.transactionHash = c.transactionHash) ⟨.validation,p.wording.hashMismatch⟩
  require (chainResultAllowed c.status current.status) ⟨.stateConflict,""⟩
  pure (.update (p.update current (current.step c.status now) c.workload.actorID c.status.text
    c.evidenceDigest now ids none))

def safeToken (least most : ℕ) : Bool :=
  least ≤ value.utf8ByteSize && value.utf8ByteSize ≤ most && value.toList.all fun c =>
    ('a' ≤ c && c ≤ 'z') || ('A' ≤ c && c ≤ 'Z') || ('0' ≤ c && c ≤ '9') ||
      c = '_' || c = '-' || c = ':' || c = '.'

def safeDigest : Bool := safeToken value 16 512

def safeTransactionHash : Bool := safeToken value 8 512

def safeOpaqueReference : Bool :=
  1 ≤ value.utf8ByteSize && value.utf8ByteSize ≤ 4096 && value = trimSpace value &&
    value.toList.all fun c => !(c.toNat < 0x20 || c.toNat = 0x7f)

/-- The unsigned transaction is for this aggregate: all fields but the fee and the references. -/
def Profile.Agrees (p : Profile τ σ ρ) (current : Aggregate τ) (u : UnsignedTransaction σ) : Prop :=
  u.requestID = current.id ∧ u.tenantID = current.tenantID ∧ u.scope = p.scope current.terms ∧
    u.assetID = current.assetID ∧ u.chainID = current.chainID ∧
    u.destination = current.destination ∧ u.amount = p.amount current.terms

instance [DecidableEq σ] (p : Profile τ σ ρ) (current : Aggregate τ) (u : UnsignedTransaction σ) :
    Decidable (p.Agrees current u) :=
  inferInstanceAs (Decidable (_ ∧ _))

structure PortResponses (σ : Type) where
  unsigned : Option (UnsignedTransaction σ) := none
  signed : Option SignedTransaction := none
  receipt : Option BroadcastReceipt := none

/-- `AdvanceRefund` and `AdvanceSweep` of the isolated execution worker. -/
def Profile.advance [DecidableEq σ] (p : Profile τ σ ρ) (repo : Repository τ) (now : ℤ)
    (workload : WorkloadContext) (tenantID id : String) (expected : ℤ)
    (responses : PortResponses σ) (ids : PostingIDs) : Except Refusal (Plan τ ρ) := do
  let current ← orFail (repo.get tenantID id) ⟨.missing,""⟩
  require (current.version = expected) ⟨.versionConflict,""⟩
  let finish (next : Aggregate τ) (action : String) : Plan τ ρ :=
    .update (p.update current next workload.actorID action "isolated workload transition" now ids none)
  match current.status with
  | .approved => do
    workload.authorize (p.permission "execute")
    let unsigned ← orFail responses.unsigned ⟨.port,""⟩
    require (p.Agrees current unsigned ∧ unsigned.fee.cmp (p.feeLimit current.terms) ≠ .gt ∧
      safeDigest unsigned.digest ∧ safeOpaqueReference unsigned.opaqueReference) ⟨.validation,""⟩
    pure (finish (current.prepared unsigned now) "awaiting_signature")
  | .awaitingSignature => do
    workload.authorize (p.permission "sign")
    let signed ← orFail responses.signed ⟨.port,""⟩
    require (signed.requestID = current.id ∧ signed.unsignedDigest = current.unsignedDigest ∧
      safeDigest signed.signedDigest ∧ safeOpaqueReference signed.opaqueReference) ⟨.validation,""⟩
    pure (finish (current.withSignature signed now) "signed")
  | .signed => do
    workload.authorize (p.permission "broadcast")
    let receipt ← orFail responses.receipt ⟨.port,""⟩
    require (receipt.signedDigest = current.signedDigest ∧
      safeTransactionHash receipt.transactionHash) ⟨.validation,""⟩
    pure (finish (current.withReceipt receipt now) "broadcast")
  | _ => .error ⟨.stateConflict,""⟩

end Ocrypt.Custody
