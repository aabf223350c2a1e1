import Ocrypt.CustodyMoves

/-! Package refunds: the evidence and policy behind a refund, the request that reserves a
refundable amount, and the profile of the custody workflow for refunds. -/
namespace Ocrypt.Refunds
open Money Fallible Requests Custody

inductive VerificationMethod
  | walletSignature
  | custodianInstruction
  | merchantEvidence
  | observedSender
  | other (text : String)
  deriving DecidableEq, Repr

structure VerifiedDestination where
  (id tenantID settlementID assetID : String)
  address : Address
  method : VerificationMethod
  evidenceDigest : String
  (verifiedAt expiresAt revokedAt : ℤ)
  deriving DecidableEq

def VerifiedDestination.IsUsable (d : VerifiedDestination) (now : ℤ) : Prop :=
  d.id ≠ "" ∧ d.tenantID ≠ "" ∧ d.settlementID ≠ "" ∧ d.assetID ≠ "" ∧ d.evidenceDigest ≠ "" ∧
    d.verifiedAt ≠ 0 ∧ d.verifiedAt ≤ now ∧ d.revokedAt = 0 ∧
    (d.expiresAt ≠ 0 → now < d.expiresAt) ∧ d.method ≠ .observedSender ∧ d.address.Valid

instance (d : VerifiedDestination) (now : ℤ) : Decidable (d.IsUsable now) :=
  inferInstanceAs (Decidable (_ ∧ _))

structure Settlement where
  (id tenantID assetID chainID intentID chainEventID : String)
  observedSender : Address
  (receivedAmount alreadyRefunded : Amount)
  (finalized riskHold : Bool)
  deriving DecidableEq

def insufficientRefundable : Refusal := ⟨.insufficientRefundable,""⟩

inductive FeeBearer
  | merchant
  | customer
  | other (text : String)
  deriving DecidableEq, Repr

structure Policy where
  id : String
  version : ℤ
  (tenantID assetID chainID : String)
  (enabled emergencyPaused refundToOriginOnly allowVerifiedAlternate requireApprovalAlways : Bool)
  (maximumRefundAmount dailyRefundLimit approvalThreshold maximumNetworkFee : Amount)
  feeBearer : FeeBearer
  allowedVerificationMethods : List VerificationMethod
  deriving DecidableEq

variable (p : Policy) (s : Settlement)

def Settlement.availableRefundable : Except Refusal Amount := do
  require (s.finalized ∧ ¬s.riskHold)
    ⟨.stateConflict,"settlement is not finalized or is on risk hold"⟩
  match s.receivedAmount.sub s.alreadyRefunded with
  | .ok remaining => pure remaining
  | .error _ => .error insufficientRefundable

def Policy.validate : Except Refusal Unit := do
  require (p.id ≠ "" ∧ 1 ≤ p.version ∧ p.tenantID ≠ "" ∧ p.assetID ≠ "" ∧ p.chainID ≠ "" ∧
      p.maximumRefundAmount.isZero = false ∧ p.dailyRefundLimit.isZero = false)
    ⟨.validation,"complete versioned refund policy is required"⟩
  require (p.maximumRefundAmount.cmp p.dailyRefundLimit ≠ .gt ∧
      p.approvalThreshold.cmp p.maximumRefundAmount ≠ .gt)
    ⟨.validation,"inconsistent refund limits"⟩
  require (p.feeBearer = .merchant ∨ p.feeBearer = .customer)
    ⟨.validation,"invalid network fee bearer"⟩
  require (p.allowedVerificationMethods ≠ [])
    ⟨.validation,"at least one destination verification method is required"⟩
  require (∀ m ∈ p.allowedVerificationMethods, m ≠ .observedSender ∧ m ≠ .other "")
    ⟨.validation,"observed sender cannot verify refund ownership"⟩

structure RefundTerms where
  (settlementID destinationVerificationID : String)
  (grossAmount refundAmount networkFee : Amount)
  feeBearer : FeeBearer
  deriving DecidableEq

abbrev Refund := Aggregate RefundTerms

structure RequestCommand where
  (tenantID settlementID destinationVerificationID : String)
  (refundAmount networkFee : Amount)
  idempotencyKey : String
  auth : AuthContext

structure RequestFacts where
  policyID : String
  policyVersion : ℤ
  (tenantID settlementID destinationVerificationID : String)
  destination : Address
  (amount fee gross : Amount)
  deriving DecidableEq

/-- The reads of a request: `EvidenceRepository` and `PolicyRepository`. -/
structure Evidence where
  settlement : (tenantID settlementID : String) → Option Settlement
  activePolicy : (tenantID assetID : String) → Option Policy
  verifiedDestination : (tenantID verificationID : String) → Option VerifiedDestination

structure CreateMutation where
  refund : Refund
  maximumRefundable : Amount
  (limitWindowStart limitWindowEnd : ℤ)
  dailyLimit : Amount
  audit : AuditCommand
  ledger : List LedgerCommand

def Policy.RequiresApproval (gross : Amount) : Prop :=
  p.requireApprovalAlways = true ∨ gross.cmp p.approvalThreshold = .gt

instance (p : Policy) (gross : Amount) : Decidable (p.RequiresApproval gross) :=
  inferInstanceAs (Decidable (_ ∨ _))

def Policy.Covers : Prop :=
  p.tenantID = s.tenantID ∧ p.assetID = s.assetID ∧ p.chainID = s.chainID ∧ p.enabled = true ∧
    p.emergencyPaused = false

instance (p : Policy) (s : Settlement) : Decidable (p.Covers s) :=
  inferInstanceAs (Decidable (_ ∧ _))

/-- The destination is verified for the settlement by a method the policy allows. -/
def VerifiedDestination.Serves (d : VerifiedDestination) (now : ℤ) (s : Settlement) (p : Policy) :
    Prop :=
  d.IsUsable now ∧ d.tenantID = s.tenantID ∧ d.settlementID = s.id ∧ d.assetID = s.assetID ∧
    d.address.chain = s.chainID ∧ d.method ∈ p.allowedVerificationMethods

instance (d : VerifiedDestination) (now : ℤ) (s : Settlement) (p : Policy) :
    Decidable (d.Serves now s p) :=
  inferInstanceAs (Decidable (_ ∧ _))

def grossAmount (available refundAmount networkFee : Amount) : Except Refusal Amount :=
  if p.feeBearer = .customer then
    match refundAmount.add networkFee with
    | .ok gross => do
      require (gross.cmp available ≠ .gt ∧ gross.cmp p.maximumRefundAmount ≠ .gt)
        insufficientRefundable
      pure gross
    | .error _ => .error insufficientRefundable
  else .ok refundAmount

structure RequestIDs where
  (refund posting : String)

/-- `Service.Request` up to the call of `Create`, with the policy that it applied. -/
def request (hash : RequestFacts → String) (evidence : Evidence) (now : ℤ)
    (identity : MutationIdentity) (c : RequestCommand) (ids : RequestIDs) :
    Except Refusal (Policy × CreateMutation) := do
  c.auth.authorize "treasury:refunds:create" now ""
  require (c.tenantID ≠ "" ∧ c.settlementID ≠ "" ∧ c.destinationVerificationID ≠ "" ∧
      8 ≤ c.idempotencyKey.utf8ByteSize ∧ c.idempotencyKey.utf8ByteSize ≤ 255 ∧
      c.refundAmount.isZero = false)
    ⟨.validation,"refund identity, positive amount, and idempotency key are required"⟩
  let settlement ← orFail (evidence.settlement c.tenantID c.settlementID) ⟨.missing,""⟩
  require (settlement.tenantID = c.tenantID ∧ settlement.id = c.settlementID)
    ⟨.validation,"settlement tenant mismatch"⟩
  let available ← settlement.availableRefundable
  let policy ← orFail (evidence.activePolicy c.tenantID settlement.assetID) ⟨.missing,""⟩
  policy.validate
  require (policy.Covers settlement)
    ⟨.policyLimit,"policy is unavailable, paused, or crosses settlement boundary"⟩
  let verified ← orFail (evidence.verifiedDestination c.tenantID c.destinationVerificationID)
    ⟨.missing,""⟩
  require (verified.Serves now settlement policy) ⟨.destination,""⟩
  let isOrigin := verified.address = settlement.observedSender
  require (¬(policy.refundToOriginOnly = true ∧ ¬isOrigin)) ⟨.destination,""⟩
  require (¬(¬isOrigin ∧ policy.allowVerifiedAlternate = false)) ⟨.destination,""⟩
  require (c.refundAmount.cmp available ≠ .gt ∧
    c.refundAmount.cmp policy.maximumRefundAmount ≠ .gt ∧
    c.networkFee.cmp policy.maximumNetworkFee ≠ .gt) ⟨.policyLimit,""⟩
  let gross ← grossAmount policy available c.refundAmount c.networkFee
  let facts : RequestFacts := ⟨policy.id,policy.version,policy.tenantID,settlement.id,verified.id,
    verified.address,c.refundAmount,c.networkFee,gross⟩
  let requestHash := if identity.fingerprint ≠ .zero then hexEncode identity.fingerprint.bytes
    else hash facts
  let refund : Refund := {
    id := ids.refund
    tenantID := c.tenantID
    assetID := settlement.assetID
    chainID := settlement.chainID
    policyID := policy.id
    policyVersion := policy.version
    creatorID := c.auth.actorID
    idempotencyKey := c.idempotencyKey
    requestHash := requestHash
    destination := verified.address
    terms := ⟨settlement.id,verified.id,gross,c.refundAmount,c.networkFee,policy.feeBearer⟩
    createdAt := now
    status := if policy.RequiresApproval gross then .approvalRequired else .approved
    updatedAt := now }
  pure (policy,{
    refund := refund
    maximumRefundable := available
    limitWindowStart := startOfUTCDate now
    limitWindowEnd := startOfUTCDate now+day
    dailyLimit := policy.dailyRefundLimit
    audit := ⟨c.tenantID,ids.refund,c.auth.actorID,"refund.requested",
      "verified destination and policy evaluated",now⟩
    ledger := [⟨ids.posting,"refund.reserve",ids.refund,"settlement_refundable:" ++ settlement.id,
      "refund_reserved:" ++ ids.refund,c.tenantID,settlement.assetID,gross,now⟩] })

/-- The postings of a step of a refund, which depend on the status before and after it. -/
def postings (r : Refund) (next : Status) (ids : PostingIDs) (now : ℤ) : List LedgerCommand :=
  let posting (id entryType debit credit : String) (amount : Amount) : LedgerCommand :=
    ⟨id,entryType,r.id,debit,credit,r.tenantID,r.assetID,amount,now⟩
  let reserved := "refund_reserved:" ++ r.id
  match next with
  | .broadcast =>
    posting ids.first "refund.broadcast" reserved "refund_in_transit" r.terms.refundAmount ::
      if r.terms.networkFee.isZero then [] else
        [posting ids.networkFee "refund.network_fee"
          (if r.terms.feeBearer = .customer then reserved else "network_fee_expense")
          "network_fee_spent" r.terms.networkFee]
  | .finalized =>
    [posting ids.first "refund.finalize" "refund_in_transit" "refund_completed"
      r.terms.refundAmount]
  | .reorged =>
    [posting ids.first "refund.reorg_reversal"
      (if r.status = .finalized then "refund_completed" else "refund_in_transit")
      "refund_reorg_review" r.terms.refundAmount]
  | .failed =>
    [posting ids.first "refund.failed_review" "refund_in_transit" "refund_failed_review"
      r.terms.refundAmount]
  | .cancelled =>
    [posting ids.first "refund.release_reserve" reserved
      ("settlement_refundable:" ++ r.terms.settlementID) r.terms.grossAmount]
  | _ => []

/-- The custody workflow of a refund; a cancellation releases the gross amount. -/
def profile : Profile RefundTerms String Amount where
  kind := "refund"
  wording := {
    inactiveStepUp := ""
    approvalIdentity := ""
    ownApproval := ""
    transitionIdentity := ""
    unboundSignature := "signer response is not bound to unsigned refund"
    unboundReceipt := "broadcaster response is not bound to signed refund"
    hashMismatch := ""
    broadcastReason := "signed refund broadcast" }
  scope := fun t => t.settlementID
  amount := fun t => t.refundAmount
  feeLimit := fun t => t.networkFee
  fee := fun t => t.networkFee
  validateUnsigned := fun r u =>
    require (u.requestID = r.id ∧ u.tenantID = r.tenantID ∧ u.scope = r.terms.settlementID ∧
        u.assetID = r.assetID ∧ u.chainID = r.chainID ∧ u.destination = r.destination ∧
        u.amount.cmp r.terms.refundAmount = .eq ∧ u.fee.cmp r.terms.networkFee ≠ .gt ∧
        isBlank u.digest = false ∧ isBlank u.opaqueReference = false)
      ⟨.validation,"builder changed approved refund or fee"⟩
  postings := postings
  release := fun r next => if next = .cancelled then r.terms.grossAmount else .zero

lemma profile_lawful : profile.Lawful where
  validateUnsigned := by
    intro r u h
    simp only [profile,require_eq_ok,Amount.cmp_eq_eq,ne_eq,Amount.cmp_eq_gt,not_lt] at h
    obtain ⟨hid,hte,hsc,has,hch,hd,ham,hf,-⟩ := h
    exact ⟨⟨hid,hte,hsc,has,hch,hd,ham⟩,hf⟩
  postings := by
    intro r status ids now
    cases status <;> simp [profile,postings]

/-- The checks of a request apart from what the settlement has left. -/
structure Admitted (evidence : Evidence) (now : ℤ) (c : RequestCommand) (s : Settlement)
    (p : Policy) (v : VerifiedDestination) : Prop where
  authorized : c.auth.authorize "treasury:refunds:create" now "" = .ok ()
  complete : c.tenantID ≠ "" ∧ c.settlementID ≠ "" ∧ c.destinationVerificationID ≠ "" ∧
    8 ≤ c.idempotencyKey.utf8ByteSize ∧ c.idempotencyKey.utf8ByteSize ≤ 255 ∧
    c.refundAmount.isZero = false
  settlement : evidence.settlement c.tenantID c.settlementID = some s
  owned : s.tenantID = c.tenantID ∧ s.id = c.settlementID
  policy : evidence.activePolicy c.tenantID s.assetID = some p
  valid : p.validate = .ok ()
  covers : p.Covers s
  verified : evidence.verifiedDestination c.tenantID c.destinationVerificationID = some v
  serves : v.Serves now s p
  origin : ¬(p.refundToOriginOnly = true ∧ ¬v.address = s.observedSender) ∧
    ¬(¬v.address = s.observedSender ∧ p.allowVerifiedAlternate = false)
  amount : c.refundAmount.n ≤ p.maximumRefundAmount.n
  fee : c.networkFee.n ≤ p.maximumNetworkFee.n

/-- The refund that a request asks `Create` for. -/
def requested (hash : RequestFacts → String) (now : ℤ) (identity : MutationIdentity)
    (c : RequestCommand) (id : String) (s : Settlement) (p : Policy) (v : VerifiedDestination)
    (gross : Amount) : Refund where
  id := id
  tenantID := c.tenantID
  assetID := s.assetID
  chainID := s.chainID
  policyID := p.id
  policyVersion := p.version
  creatorID := c.auth.actorID
  idempotencyKey := c.idempotencyKey
  requestHash := if identity.fingerprint ≠ .zero then hexEncode identity.fingerprint.bytes
    else hash ⟨p.id,p.version,p.tenantID,s.id,v.id,v.address,c.refundAmount,c.networkFee,gross⟩
  destination := v.address
  terms := ⟨s.id,v.id,gross,c.refundAmount,c.networkFee,p.feeBearer⟩
  createdAt := now
  status := if p.RequiresApproval gross then .approvalRequired else .approved
  updatedAt := now

/-- The mutation that a request hands to `Create`. -/
def creation (r : Refund) (p : Policy) (available : Amount) (actorID posting : String) (now : ℤ) :
    CreateMutation where
  refund := r
  maximumRefundable := available
  limitWindowStart := startOfUTCDate now
  limitWindowEnd := startOfUTCDate now+day
  dailyLimit := p.dailyRefundLimit
  audit := ⟨r.tenantID,r.id,actorID,"refund.requested",
    "verified destination and policy evaluated",now⟩
  ledger := [⟨posting,"refund.reserve",r.id,"settlement_refundable:" ++ r.terms.settlementID,
    "refund_reserved:" ++ r.id,r.tenantID,r.assetID,r.terms.grossAmount,now⟩]

variable {hash : RequestFacts → String} {identity : MutationIdentity} {evidence : Evidence}
  {c : RequestCommand} {m : CreateMutation} {ids : RequestIDs} {now : ℤ} {policy : Policy}

lemma request_eq_ok {p : Policy} : request hash evidence now identity c ids = .ok (p,m) ↔
      ∃ s v available gross, Admitted evidence now c s p v ∧ s.availableRefundable = .ok available ∧
        c.refundAmount.n ≤ available.n ∧
        grossAmount p available c.refundAmount c.networkFee = .ok gross ∧
        m = creation (requested hash now identity c ids.refund s p v gross) p available
          c.auth.actorID ids.posting now := by
  simp only [request,do_ok,Prod.mk.injEq,orFail_eq_ok,ne_eq,Amount.cmp_eq_gt,not_lt]
  constructor
  · rintro ⟨⟨⟩,hau,hco,s,hs,how,available,hav,p',hp,⟨⟩,hva,hcv,v,hv,
      hse,ho,hal,⟨ham,hma,hf⟩,gross,hg,rfl,rfl⟩
    exact ⟨s,v,available,gross,⟨hau,hco,hs,how,hp,hva,hcv,hv,hse, ⟨ho,hal⟩,hma,hf⟩,hav,ham,hg,rfl⟩
  · rintro ⟨s,v,available,gross,had,hav,ham,hg,rfl⟩
    exact ⟨⟨⟩,had.authorized,had.complete,s,had.settlement,had.owned,
      available,hav,p,had.policy,⟨⟩,had.valid,had.covers,v,
      had.verified,had.serves,had.origin.1,had.origin.2, ⟨ham,had.amount,had.fee⟩,gross,hg,rfl,rfl⟩

lemma request_status (h : request hash evidence now identity c ids = .ok (policy,m)) :
    m.refund.status = (if policy.RequiresApproval m.refund.terms.grossAmount then .approvalRequired
      else .approved) ∧ m.refund.version = 1 ∧ m.refund.id = ids.refund := by
  obtain ⟨s,v,available,gross,-,-,-,-,rfl⟩ := request_eq_ok.mp h
  exact ⟨rfl,rfl,rfl⟩

lemma request_ledger (h : request hash evidence now identity c ids = .ok (policy,m)) :
    ∀ l ∈ m.ledger, l.entryType = "refund.reserve" := by
  obtain ⟨s,v,available,gross,-,-,-,-,rfl⟩ := request_eq_ok.mp h
  simp [creation]

end Ocrypt.Refunds
