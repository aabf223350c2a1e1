import Mathlib.Data.List.Sort
import Ocrypt.Domain
import Ocrypt.Requests

/-! The deterministic reducer `EvaluateAutomatedMatch`: it groups the finalized transfers of
one route, pairs gas-free payments with their fee siblings and decides whether the total
settles the route, keeps collecting, or goes to manual review. -/
namespace Ocrypt.Matching
open Money Domain Fallible
open Requests (trimSpace)

inductive OverpaymentMode
  | manual
  | creditAll
  | creditExpected
  | other (value : String)
  deriving DecidableEq, Repr

structure AutomatedMatchingPolicy where
  id : String
  version : ℤ
  accumulatePartials : Bool
  underpaymentToleranceBPS : UInt32
  overpaymentMode : OverpaymentMode
  (acceptLateWithinGrace requireSameSender gasFreeEnabled : Bool)
  gasFreeFeeCollectors : List String
  deriving DecidableEq, Repr

def automaticLatePaymentGrace : ℤ := 30*minute

def automaticLatePaymentDeadline (route : PaymentRoute) : ℤ :=
  let deadline := route.expiresAt+automaticLatePaymentGrace
  if route.graceEndsAt < deadline then route.graceEndsAt else deadline

lemma automaticLatePaymentDeadline_eq_min (route : PaymentRoute) :
    automaticLatePaymentDeadline route =
      min (route.expiresAt+automaticLatePaymentGrace) route.graceEndsAt := by
  simp only [automaticLatePaymentDeadline]
  split_ifs <;> omega

def hasPrefix (s start : String) : Bool := start.toList.isPrefixOf s.toList

def trimPrefix (s start : String) : String :=
  if hasPrefix s start then String.ofList (s.toList.drop start.toList.length) else s

def validateCollector (seen : List String) (collector : String) : Except Failure (List String) :=
  if trimSpace collector ≠ collector ∨ collector = "" ∨ collector ∈ seen then
    .error (validationFailure "gasfree collectors must be unique canonical addresses")
  else .ok (collector::seen)

def AutomatedMatchingPolicy.validate (p : AutomatedMatchingPolicy) : Except Failure Unit := do
  require (p.id ≠ "" ∧ 1 ≤ p.version ∧ p.underpaymentToleranceBPS ≤ 10000)
    (validationFailure "invalid automated matching policy identity or tolerance")
  require (p.overpaymentMode = .manual ∨ p.overpaymentMode = .creditAll ∨
      p.overpaymentMode = .creditExpected)
    (validationFailure "invalid overpayment mode")
  let seen ← traverse validateCollector p.gasFreeFeeCollectors []
  require (¬(p.gasFreeEnabled ∧ seen.length = 0))
    (validationFailure "gasfree requires at least one trusted fee collector")

inductive AutomatedMatchOutcome
  | collect
  | settle
  | review
  deriving DecidableEq, Repr

inductive ExceptionClass
  | exact
  | partialPayment
  | underpaid
  | overpaid
  | late
  | wrongAsset
  | ambiguous
  | unmatched
  deriving DecidableEq, Repr

def ExceptionClass.text : ExceptionClass → String
  | .exact => "exact"
  | .partialPayment => "partial"
  | .underpaid => "underpaid"
  | .overpaid => "overpaid"
  | .late => "late"
  | .wrongAsset => "wrong_asset"
  | .ambiguous => "ambiguous"
  | .unmatched => "unmatched"

inductive AllocationRole
  | payment
  | gasfreeFee
  deriving DecidableEq, Repr

inductive AllocationKind
  | partialPayment
  | gasfreePolicy
  deriving DecidableEq, Repr

structure MatchAllocation where
  eventID : String
  role : AllocationRole
  matchKind : AllocationKind
  (received effective credited : Amount)
  (transactionID eventIndex sender : String)
  onChainTime : ℤ
  blockHeight : ℕ
  (blockHash parserVersion evidenceHash gasFreePaymentID : String)
  deriving DecidableEq, Repr

structure AutomatedMatchDecision where
  outcome : AutomatedMatchOutcome
  exceptionClass : ExceptionClass
  policyID : String
  policyVersion : ℤ
  (expected received credited treasuryReceived gasFreeFees : Amount)
  reasonCodes : List String
  allocations : List MatchAllocation
  evidenceHash : String
  deriving DecidableEq, Repr

/-- The part of a decision whose JSON text is hashed into its evidence. -/
structure DecisionEvidence where
  outcome : AutomatedMatchOutcome
  exceptionClass : ExceptionClass
  policyID : String
  policyVersion : ℤ
  (expected received credited : Amount)
  reasons : List String
  allocations : List MatchAllocation

/-- The two library functions that turn facts into digests: the lowercase hex SHA-256 of a
text, and the JSON text of a decision's evidence. -/
structure Hashing where
  sha256Hex : String → String
  marshal : DecisionEvidence → String

structure Tally where
  received : Amount := .zero
  treasuryReceived : Amount := .zero
  gasFreeFees : Amount := .zero
  allocations : List MatchAllocation := []
  used : List String := []
  sender : String := ""
  anyLate : Bool := false
  lateOutsideAutomaticGrace : Bool := false
  deriving DecidableEq, Repr

variable (h : Hashing) (route : PaymentRoute) (policy : AutomatedMatchingPolicy) (t : Tally)
    (event : TransferEvent)

def sealAutomatedDecision (d : AutomatedMatchDecision) : AutomatedMatchDecision :=
  { d with
    evidenceHash := h.sha256Hex (h.marshal ⟨d.outcome,d.exceptionClass,d.policyID,d.policyVersion,
      d.expected,d.received,d.credited,d.reasonCodes,d.allocations⟩) }

def sameCanonicalTransfer (left right : TransferEvent) : Bool :=
  left.kind = right.kind ∧ left.fromAddress = right.fromAddress ∧
    left.amount.cmp right.amount = .eq ∧ left.assetDecimals = right.assetDecimals ∧
    left.blockHeight = right.blockHeight ∧ left.blockHash = right.blockHash ∧
    left.onChainTime = right.onChainTime ∧ left.confirmations = right.confirmations ∧
    left.status = right.status ∧ left.parserVersion = right.parserVersion ∧
    left.evidenceHash = right.evidenceHash

def eventLE (a b : TransferEvent) : Prop :=
  a.onChainTime < b.onChainTime ∨ a.onChainTime = b.onChainTime ∧ a.id ≤ b.id

instance : DecidableRel eventLE := fun a b =>
  inferInstanceAs (Decidable (a.onChainTime < b.onChainTime ∨
    a.onChainTime = b.onChainTime ∧ a.id ≤ b.id))

def sortEvents (events : List TransferEvent) : List TransferEvent := events.insertionSort eventLE

/-- One round of the de-duplication loop. The map from identity keys to events is an
association list in insertion order, so its values are the canonical events in order. -/
def admitIdentity (sha256Hex : String → String) (identities : List (String × TransferEvent))
    (event : TransferEvent) : Except Failure (List (String × TransferEvent)) :=
  match event.identity.key sha256Hex with
  | .error _ => .error (validationFailure "invalid transfer identity")
  | .ok key =>
    match identities.lookup key with
    | some existing =>
      if sameCanonicalTransfer existing event then .ok identities
      else .error (invariantFailure "duplicate transfer identity has conflicting facts")
    | none => .ok (identities ++ [(key,event)])

def canonicalEvents (sha256Hex : String → String) (events : List TransferEvent) :
    Except Failure (List TransferEvent) :=
  (traverse (admitIdentity sha256Hex) (sortEvents events) []).map (·.map Prod.snd)

/-- What a fee sibling of `payment` must look like to be trusted. -/
def trustedFee (payment fee : TransferEvent) : Bool :=
  let wantIndex := "gasfree-fee:" ++ trimPrefix payment.identity.eventIndex "transfer:"
  fee.kind = "gasfree_fee" ∧ fee.status = .finalized ∧
    route.requiredFinality ≤ fee.confirmations ∧ fee.parserVersion = payment.parserVersion ∧
    fee.identity.eventIndex = wantIndex ∧ fee.identity.chainID = payment.identity.chainID ∧
    fee.identity.assetID = payment.identity.assetID ∧ fee.fromAddress = payment.fromAddress ∧
    fee.blockHash = payment.blockHash ∧ fee.onChainTime = payment.onChainTime ∧
    fee.identity.toAddress ∈ policy.gasFreeFeeCollectors ∧
    fee.evidenceHash = payment.evidenceHash

def gasFreePayable (payment : TransferEvent) : Bool :=
  policy.gasFreeEnabled && hasPrefix route.chainID "tron:" &&
    payment.parserVersion == "tron-v1" && hasPrefix payment.identity.eventIndex "transfer:"

/-- The one trusted fee sibling of `payment`; none when it is missing or not unique. -/
def correlateGasFreeFee (payment : TransferEvent) (siblings : List TransferEvent)
    (route : PaymentRoute) (policy : AutomatedMatchingPolicy) : Option TransferEvent :=
  if gasFreePayable route policy payment then
    match siblings.filter (trustedFee route policy payment) with
    | [fee] => some fee
    | _ => none
  else none

def amountWithinUnderpaymentTolerance (received expected : Amount) (bps : UInt32) : Bool :=
  if bps = 0 ∨ received.cmp expected ≠ .lt then false
  else
    match expected.sub received with
    | .error _ => false
    | .ok shortfall =>
      match expected.mulDivFloor ⟨bps.toNat,Amount.uint32_fits bps⟩ ⟨10000,Amount.basis_fits⟩ with
      | .error _ => false
      | .ok maximum => shortfall.cmp maximum ≠ .gt

/-- How the loop can stop early: with an error, or with a decision for manual review that
carries the totals reached so far. -/
inductive LoopExit
  | failed (failure : Failure)
  | review (reason : String) (tally : Tally)

/-- The transfers the loop considers: final on the route's chain, asset, address and window. -/
def eligible : Bool :=
  event.status = .finalized ∧ route.requiredFinality ≤ event.confirmations ∧
    event.identity.chainID = route.chainID ∧ event.identity.assetID = route.assetID ∧
    event.identity.toAddress = route.address ∧ route.startsAt ≤ event.onChainTime ∧
    event.onChainTime ≤ route.graceEndsAt

def paymentAllocation (kind : AllocationKind) : MatchAllocation where
  eventID := event.id
  role := .payment
  matchKind := kind
  received := event.amount
  effective := event.amount
  credited := event.amount
  transactionID := event.identity.transactionID
  eventIndex := event.identity.eventIndex
  sender := event.fromAddress
  onChainTime := event.onChainTime
  blockHeight := event.blockHeight
  blockHash := event.blockHash
  parserVersion := event.parserVersion
  evidenceHash := event.evidenceHash
  gasFreePaymentID := ""

def feeAllocation (event fee : TransferEvent) : MatchAllocation where
  eventID := fee.id
  role := .gasfreeFee
  matchKind := .gasfreePolicy
  received := fee.amount
  effective := .zero
  credited := .zero
  transactionID := fee.identity.transactionID
  eventIndex := fee.identity.eventIndex
  sender := fee.fromAddress
  onChainTime := fee.onChainTime
  blockHeight := fee.blockHeight
  blockHash := fee.blockHash
  parserVersion := fee.parserVersion
  evidenceHash := fee.evidenceHash
  gasFreePaymentID := event.id

def Tally.note : Tally :=
  let late : Bool := route.expiresAt < event.onChainTime
  { t with
    sender := if t.sender = "" then event.fromAddress else t.sender
    anyLate := t.anyLate || late
    lateOutsideAutomaticGrace := t.lateOutsideAutomaticGrace ||
      (late && automaticLatePaymentDeadline route < event.onChainTime) }

/-- Add the amount of an event that counts, and the fee of a gas-free payment. -/
def Tally.add (canonical : List TransferEvent) (t : Tally) (event : TransferEvent) : Except LoopExit Tally :=
  match t.received.add event.amount, t.treasuryReceived.add event.amount with
  | .error _, _ => .error (.failed (invariantFailure "payment aggregate overflow"))
  | .ok _, .error _ => .error (.failed (invariantFailure "treasury aggregate overflow"))
  | .ok received, .ok treasuryReceived =>
    let t := { t with received := received, treasuryReceived := treasuryReceived }
    if event.kind = "gasfree_permit_transfer" then
      let siblings := canonical.filter (·.identity.transactionID = event.identity.transactionID)
      match correlateGasFreeFee event siblings route policy with
      | none => .error (.review "gasfree_sibling_missing_or_untrusted" t)
      | some fee =>
        match t.gasFreeFees.add fee.amount with
        | .error _ => .error (.failed (invariantFailure "gas-free fee aggregate overflow"))
        | .ok gasFreeFees => .ok { t with
            used := fee.id::t.used
            gasFreeFees := gasFreeFees
            allocations := t.allocations ++
              [paymentAllocation event .gasfreePolicy,feeAllocation event fee] }
    else .ok { t with
      allocations := t.allocations ++ [paymentAllocation event .partialPayment] }

/-- One round of the aggregation loop; `canonical` is the whole list the loop runs over. -/
def collectEvent (canonical : List TransferEvent) (t : Tally) (event : TransferEvent) : Except LoopExit Tally :=
  if event.kind = "gasfree_fee" ∨ event.id ∈ t.used then .ok t
  else if ¬eligible route event then .ok t
  else if policy.requireSameSender ∧ t.sender ≠ "" ∧ t.sender ≠ event.fromAddress then
    .error (.review "multiple_senders_require_manual_review" t)
  else (t.note route event).add route policy canonical event

/-- Spread the credited amount over the allocations, first come first served. -/
def allocateCredit : Amount → List MatchAllocation → List MatchAllocation
  | _, [] => []
  | remaining, a::rest =>
    if remaining.isZero then
      { a with credited := .zero } :: allocateCredit remaining rest
    else if a.effective.cmp remaining ≠ .gt then
      { a with credited := a.effective } ::
        allocateCredit ((remaining.sub a.effective).toOption.getD .zero) rest
    else { a with credited := remaining } :: allocateCredit .zero rest

/-- The decision before any total is judged: manual review with the totals so far. -/
def openDecision : AutomatedMatchDecision where
  outcome := .review
  exceptionClass := .unmatched
  policyID := policy.id
  policyVersion := policy.version
  expected := route.expectedAmount
  received := t.received
  credited := .zero
  treasuryReceived := t.treasuryReceived
  gasFreeFees := t.gasFreeFees
  reasonCodes := []
  allocations := t.allocations
  evidenceHash := ""

def settleDecision (d : AutomatedMatchDecision) : AutomatedMatchDecision :=
  let d := { d with
    outcome := AutomatedMatchOutcome.settle
    allocations := allocateCredit d.credited d.allocations }
  sealAutomatedDecision h
    (if t.anyLate then { d with
        exceptionClass := .late
        reasonCodes := d.reasonCodes ++ ["late_within_automatic_30_minute_grace"] } else d)

def judgeTotals (now : ℤ) (policy : AutomatedMatchingPolicy) (t : Tally) : AutomatedMatchDecision :=
  let d := openDecision route policy t
  if t.allocations.length = 0 then
    sealAutomatedDecision h { d with reasonCodes := ["no_eligible_finalized_transfers"] }
  else if t.anyLate ∧ t.lateOutsideAutomaticGrace then
    sealAutomatedDecision h { d with
      exceptionClass := .late
      reasonCodes := ["late_payment_outside_automatic_30_minute_grace"] }
  else
    match t.received.cmp route.expectedAmount with
    | .lt =>
      if amountWithinUnderpaymentTolerance t.received route.expectedAmount
          policy.underpaymentToleranceBPS then
        settleDecision h t { d with
          exceptionClass := .underpaid
          credited := t.received
          reasonCodes := ["underpayment_within_versioned_tolerance"] }
      else if policy.accumulatePartials ∧ now < automaticLatePaymentDeadline route then
        sealAutomatedDecision h { d with
          outcome := .collect
          exceptionClass := .partialPayment
          credited := t.received
          reasonCodes := ["canonical_partial_total", "collection_window_open"] }
      else
        sealAutomatedDecision h { d with
          exceptionClass := .underpaid
          reasonCodes := ["underpayment_outside_policy_tolerance"] }
    | .eq =>
      settleDecision h t { d with
        exceptionClass := .exact
        credited := route.expectedAmount
        reasonCodes := ["aggregate_exact_amount"] }
    | .gt =>
      match policy.overpaymentMode with
      | .creditAll =>
        settleDecision h t { d with
          exceptionClass := .overpaid
          credited := t.received
          reasonCodes := ["overpayment_credit_all_policy"] }
      | .creditExpected =>
        settleDecision h t { d with
          exceptionClass := .overpaid
          credited := route.expectedAmount
          reasonCodes := ["overpayment_credit_expected_hold_excess"] }
      | _ =>
        sealAutomatedDecision h { d with
          exceptionClass := .overpaid
          reasonCodes := ["overpayment_requires_manual_review"] }

def validMatchingRoute : Bool :=
  route.id ≠ "" ∧ route.intentID ≠ "" ∧ !route.expectedAmount.isZero ∧ route.startsAt ≠ 0 ∧
    route.expiresAt ≠ 0 ∧ route.expiresAt ≤ route.graceEndsAt

def evaluateAutomatedMatch (events : List TransferEvent) (now : ℤ)
    (policy : AutomatedMatchingPolicy) : Except Failure AutomatedMatchDecision := do
  policy.validate
  require (validMatchingRoute route) (validationFailure "invalid matching route")
  let canonical ← canonicalEvents h.sha256Hex events
  match traverse (collectEvent route policy canonical) canonical {} with
  | .error (.failed failure) => .error failure
  | .error (.review reason t) =>
    pure (sealAutomatedDecision h { openDecision route policy t with reasonCodes := [reason] })
  | .ok t => pure (judgeTotals h route now policy t)

def sampleRoute : PaymentRoute where
  id := "route"
  tenantID := "tenant"
  merchantID := "merchant"
  intentID := "intent"
  chainID := "tron:mainnet"
  assetID := "usdt"
  provider := .onChain
  expectedAmount := 100
  assetDecimals := 6
  address := "TMerchant"
  requiredFinality := 19
  status := .active
  startsAt := 10
  expiresAt := 100
  graceEndsAt := 200
  createdAt := 5

def sampleTransfer (id transactionID eventIndex toAddress kind : String) (amount : Amount) :
    TransferEvent where
  id := id
  identity := ⟨"tron:mainnet",transactionID,eventIndex,"usdt",toAddress⟩
  kind := kind
  fromAddress := "TPayer"
  amount := amount
  assetDecimals := 6
  blockHeight := 7
  blockHash := "block"
  onChainTime := 50
  confirmations := 20
  status := .finalized
  parserVersion := "tron-v1"
  evidenceHash := "evidence"

end Ocrypt.Matching
