import Ocrypt.CustodyMoves

/-! Package treasury: the sweep policy, the batch that a sweep request collects, and the profile
of the custody workflow for sweeps. -/
namespace Ocrypt.Treasury
open Money Fallible Requests Custody

structure AllowlistEntry where
  (tenantID assetID : String)
  address : Address
  (validFrom validTo : ℤ)
  deriving DecidableEq

def AllowlistEntry.Allows (e : AllowlistEntry) (tenantID assetID : String) (address : Address)
    (at_ : ℤ) : Prop :=
  e.tenantID = tenantID ∧ e.assetID = assetID ∧ e.address = address ∧ e.validFrom ≤ at_ ∧
    (e.validTo ≠ 0 → at_ < e.validTo)

instance (e : AllowlistEntry) (tenantID assetID : String) (address : Address) (at_ : ℤ) :
    Decidable (e.Allows tenantID assetID address at_) :=
  inferInstanceAs (Decidable (_ ∧ _))

structure Policy where
  id : String
  version : ℤ
  (tenantID assetID chainID : String)
  (enabled emergencyPaused : Bool)
  (sweepThreshold reserveAmount maximumRequestAmount dailyAmountLimit approvalThreshold
    maximumNetworkFee : Amount)
  maximumBatchSize : ℤ
  requireApprovalAlways : Bool
  destinations : List AllowlistEntry
  deriving DecidableEq

variable (p : Policy)

def Policy.checkDestination (e : AllowlistEntry) : Except Refusal Unit := do
  require (e.tenantID = p.tenantID ∧ e.assetID = p.assetID ∧ e.address.chain = p.chainID)
    ⟨.validation,"destination crosses policy tenant, asset, or chain"⟩
  require (isBlank e.address.chain = false ∧ isBlank e.address.value = false ∧
    e.address.value.utf8ByteSize ≤ 512) ⟨.validation,"chain and canonical address are required"⟩
  require (e.address.value = trimSpace e.address.value)
    ⟨.validation,"address must be canonical"⟩
  require (e.validTo ≠ 0 → e.validFrom < e.validTo)
    ⟨.validation,"invalid allowlist validity interval"⟩

def Policy.validate : Except Refusal Unit := do
  require (p.id ≠ "" ∧ 1 ≤ p.version ∧ p.tenantID ≠ "" ∧ p.assetID ≠ "" ∧ p.chainID ≠ "")
    ⟨.validation,"policy identity and version are required"⟩
  require (1 ≤ p.maximumBatchSize ∧ p.maximumBatchSize ≤ 1000)
    ⟨.validation,"maximum batch size must be in [1,1000]"⟩
  require (p.sweepThreshold.isZero = false ∧ p.maximumRequestAmount.isZero = false ∧
      p.dailyAmountLimit.isZero = false)
    ⟨.validation,"positive threshold and limits are required"⟩
  require (p.reserveAmount.cmp p.sweepThreshold = .lt)
    ⟨.validation,"reserve must be below sweep threshold"⟩
  require (p.approvalThreshold.cmp p.maximumRequestAmount ≠ .gt)
    ⟨.validation,"approval threshold exceeds request limit"⟩
  require (p.maximumRequestAmount.cmp p.dailyAmountLimit ≠ .gt)
    ⟨.validation,"request limit exceeds daily limit"⟩
  traverse (fun _ e => p.checkDestination e) p.destinations ()

def Policy.AllowsDestination (destination : Address) (at_ : ℤ) : Prop :=
  ∃ e ∈ p.destinations, e.Allows p.tenantID p.assetID destination at_

instance (p : Policy) (destination : Address) (at_ : ℤ) :
    Decidable (p.AllowsDestination destination at_) :=
  inferInstanceAs (Decidable (∃ e ∈ p.destinations, _))

def Policy.RequiresApproval (total : Amount) : Prop :=
  p.requireApprovalAlways = true ∨ total.cmp p.approvalThreshold = .gt

instance (p : Policy) (total : Amount) : Decidable (p.RequiresApproval total) :=
  inferInstanceAs (Decidable (_ ∨ _))

structure Source where
  address : Address
  available : Amount
  nonceRef : String
  deriving DecidableEq

structure BatchItem where
  source : Address
  amount : Amount
  nonceRef : String
  deriving DecidableEq

structure SourceReservation where
  address : Address
  nonceRef : String
  deriving DecidableEq

def sourceReservations (items : List BatchItem) : List SourceReservation :=
  items.map fun i => ⟨i.source,i.nonceRef⟩

/-- The loop of `buildBatch` over the ordered sources. -/
def collectBatch (p : Policy) (seen : List Address) (items : List BatchItem) (total : Amount) :
    List Source → Except Refusal (List BatchItem × Amount)
  | [] => .ok (items,total)
  | source::rest => do
    require (source.address.Valid ∧ source.address.chain = p.chainID ∧
      isBlank source.nonceRef = false) ⟨.validation,"invalid source"⟩
    require (source.address ∉ seen) ⟨.validation,"duplicate source address"⟩
    let seen := source.address::seen
    if source.available.cmp p.sweepThreshold = .lt then collectBatch p seen items total rest
    else
      match source.available.sub p.reserveAmount with
      | .error _ => collectBatch p seen items total rest
      | .ok amount =>
        if amount.isZero then collectBatch p seen items total rest
        else
          match total.add amount with
          | .error _ => .error ⟨.policyLimit,"batch amount overflow"⟩
          | .ok next =>
            if next.cmp p.maximumRequestAmount = .gt then collectBatch p seen items total rest
            else
              let items := items ++ [⟨source.address,amount,source.nonceRef⟩]
              -- a full batch ends the loop before the remaining sources are looked at
              if (items.length : ℤ) = p.maximumBatchSize then .ok (items,next)
              else collectBatch p seen items next rest

/-- Sources are taken in the order of their addresses; sources of one address, which the
library sort leaves in any order, are taken as they were given. -/
def buildBatch (sources : List Source) : Except Refusal (List BatchItem × Amount) := do
  require (sources ≠ []) ⟨.validation,"at least one source is required"⟩
  let ordered := sources.mergeSort fun a b => decide (a.address.value ≤ b.address.value)
  let (items,total) ← collectBatch p [] [] .zero ordered
  require (items ≠ [] ∧ total.isZero = false) ⟨.policyLimit,"no source meets sweep policy"⟩
  pure (items,total)

structure SweepTerms where
  items : List BatchItem
  (amount feeCap quotedFee : Amount)
  deriving DecidableEq

abbrev SweepRequest := Aggregate SweepTerms

structure RequestSweepCommand where
  (tenantID assetID idempotencyKey : String)
  destination : Address
  sources : List Source
  feeQuote : Amount
  auth : AuthContext

structure SweepFacts where
  policyID : String
  policyVersion : ℤ
  (tenantID assetID : String)
  destination : Address
  items : List BatchItem
  (amount fee : Amount)
  deriving DecidableEq

structure Limits where
  (windowStart windowEnd : ℤ)
  maximum : Amount

structure CreateMutation where
  request : SweepRequest
  limits : Limits
  sources : List SourceReservation
  audit : AuditCommand

/-- `Service.RequestSweep` up to the call of `Create`, with the policy that it applied. -/
def requestSweep (hash : SweepFacts → String)
    (activePolicy : (tenantID assetID : String) → Option Policy) (now : ℤ)
    (identity : MutationIdentity) (c : RequestSweepCommand) (id : String) :
    Except Refusal (Policy × CreateMutation) := do
  c.auth.authorize "treasury:sweeps:create" now "active step-up authentication is required"
  require (c.tenantID ≠ "" ∧ c.assetID ≠ "" ∧ 8 ≤ c.idempotencyKey.utf8ByteSize ∧
      c.idempotencyKey.utf8ByteSize ≤ 255)
    ⟨.validation,"tenant, asset, and idempotency key are required"⟩
  let policy ← orFail (activePolicy c.tenantID c.assetID) ⟨.missing,""⟩
  policy.validate
  require (policy.tenantID = c.tenantID ∧ policy.assetID = c.assetID)
    ⟨.validation,"policy tenant or asset mismatch"⟩
  require (policy.enabled = true ∧ policy.emergencyPaused = false)
    ⟨.policyLimit,"treasury is disabled or paused"⟩
  require (c.destination.Valid ∧ c.destination.chain = policy.chainID)
    ⟨.validation,"invalid destination chain"⟩
  require (policy.AllowsDestination c.destination now) ⟨.destination,""⟩
  require (c.feeQuote.cmp policy.maximumNetworkFee ≠ .gt)
    ⟨.policyLimit,"network fee exceeds cap"⟩
  let (items,total) ← buildBatch policy c.sources
  let facts : SweepFacts := ⟨policy.id,policy.version,policy.tenantID,policy.assetID,
    c.destination,items,total,c.feeQuote⟩
  let requestHash := if identity.fingerprint ≠ .zero then hexEncode identity.fingerprint.bytes
    else hash facts
  let request : SweepRequest := {
    id := id
    tenantID := c.tenantID
    assetID := c.assetID
    chainID := policy.chainID
    policyID := policy.id
    policyVersion := policy.version
    creatorID := c.auth.actorID
    idempotencyKey := c.idempotencyKey
    requestHash := requestHash
    destination := c.destination
    terms := ⟨items,total,policy.maximumNetworkFee,c.feeQuote⟩
    createdAt := now
    status := if policy.RequiresApproval total then .approvalRequired else .approved
    updatedAt := now }
  pure (policy,{
    request := request
    limits := ⟨startOfUTCDate now,startOfUTCDate now+day,policy.dailyAmountLimit⟩
    sources := sourceReservations items
    audit := ⟨c.tenantID,id,c.auth.actorID,"sweep.requested","policy evaluated",now⟩ })

def validateUnsigned (r : SweepRequest) (u : UnsignedTransaction Unit) : Except Refusal Unit := do
  require (u.requestID = r.id ∧ u.tenantID = r.tenantID ∧ u.assetID = r.assetID ∧
      u.chainID = r.chainID ∧ u.destination = r.destination ∧ u.amount.cmp r.terms.amount = .eq)
    ⟨.validation,"builder changed approved sweep fields"⟩
  require (u.fee.cmp r.terms.feeCap ≠ .gt ∧ isBlank u.digest = false ∧
      isBlank u.opaqueReference = false)
    ⟨.policyLimit,"invalid unsigned transaction or fee cap exceeded"⟩

def postings (r : SweepRequest) (next : Status) (ids : PostingIDs) (now : ℤ) : List LedgerCommand :=
  if next = .broadcast ∧ r.terms.quotedFee.isZero = false then
    [⟨ids.first,"sweep.network_fee",r.id,"network_fee_expense","custody_asset",r.tenantID,
      r.assetID,r.terms.quotedFee,now⟩]
  else []

/-- The custody workflow of a sweep; a cancellation releases the reserved sources. -/
def profile : Profile SweepTerms Unit (List SourceReservation) where
  kind := "sweep"
  wording := {
    inactiveStepUp := "active step-up authentication is required"
    approvalIdentity := "approval identity, version, and reason are required"
    ownApproval := "creator cannot approve own sweep"
    transitionIdentity := "transition identity and version are required"
    unboundSignature := "signer response does not bind the approved unsigned digest"
    unboundReceipt := "broadcaster receipt does not bind signed digest"
    hashMismatch := "transaction hash mismatch"
    broadcastReason := "signed transaction broadcast" }
  scope := fun _ => ()
  amount := fun t => t.amount
  feeLimit := fun t => t.feeCap
  fee := fun t => t.quotedFee
  validateUnsigned := validateUnsigned
  postings := postings
  release := fun r next => if next = .cancelled then sourceReservations r.terms.items else []

lemma profile_lawful : profile.Lawful where
  validateUnsigned := by
    intro r u h
    simp only [profile,validateUnsigned,do_ok,require_eq_ok,exists_const,Amount.cmp_eq_eq,ne_eq,
      Amount.cmp_eq_gt,not_lt] at h
    obtain ⟨⟨hid,hte,has,hch,hd,ham⟩,hf,-⟩ := h
    exact ⟨⟨hid,hte,rfl,has,hch,hd,ham⟩,hf⟩
  postings := by
    intro r status ids now
    simp only [profile,postings]
    split_ifs <;> simp

lemma requestSweep_status {hash : SweepFacts → String}
    {activePolicy : (tenantID assetID : String) → Option Policy} {now : ℤ}
    {identity : MutationIdentity} {c : RequestSweepCommand} {id : String} {policy : Policy}
    {m : CreateMutation} (h : requestSweep hash activePolicy now identity c id = .ok (policy,m)) :
    m.request.status = (if policy.RequiresApproval m.request.terms.amount then .approvalRequired
      else .approved) ∧ m.request.version = 1 ∧ m.request.id = id := by
  simp only [requestSweep,do_ok] at h
  obtain ⟨-,-,-,-,p,-,-,-,-,-,-,-,-,-,-,-,-,-,⟨items,total⟩,-,rfl,rfl⟩ := h
  exact ⟨rfl,rfl,rfl⟩

end Ocrypt.Treasury
