import Ocrypt.Money

/-! The domain types shared by the settlement transactions: errors, transfer
events and their identity, payment intents and payment routes. -/
namespace Ocrypt.Domain
open Money Fallible

-- Instants and durations are integers of nanoseconds; `0` is Go's zero time.

def minute : ℤ := 60*1000000000

/-- The sentinel an error wraps; `unwrapped` is an error without one, `database` an error
reported by PostgreSQL itself. -/
inductive ErrorKind
  | notFound
  | validation
  | idempotencyConflict
  | stateConflict
  | versionConflict
  | invariantViolation
  | dependency
  | unwrapped
  | database
  deriving DecidableEq, Repr

structure Failure where
  kind : ErrorKind
  detail : String := ""
  deriving DecidableEq, Repr

def validationFailure (detail : String) : Failure := ⟨.validation,detail⟩

def invariantFailure (detail : String) : Failure := ⟨.invariantViolation,detail⟩

inductive TransferStatus
  | observed
  | confirmed
  | finalized
  | reorged
  | invalidated
  deriving DecidableEq, Repr

def TransferStatus.text : TransferStatus → String
  | .observed => "observed"
  | .confirmed => "confirmed"
  | .finalized => "finalized"
  | .reorged => "reorged"
  | .invalidated => "invalidated"

@[ext]
structure EventIdentity where
  (chainID transactionID eventIndex assetID toAddress : String)
  deriving DecidableEq, Repr

namespace EventIdentity

variable (i : EventIdentity)

def validate : Except String Unit :=
  require (i.chainID ≠ "" ∧ i.transactionID ≠ "" ∧ i.eventIndex ≠ "" ∧ i.assetID ≠ "" ∧
    i.toAddress ≠ "") "all transfer identity fields are required"

def fields : List String :=
  [i.chainID,i.transactionID,i.eventIndex,i.assetID,i.toAddress]

def payload : String := String.intercalate "\x1f" i.fields

/-- The digest that identifies a transfer; `sha256Hex` is the lowercase hex SHA-256. -/
def key (sha256Hex : String → String) (i : EventIdentity) : Except String String := do
  i.validate
  pure (sha256Hex i.payload)

lemma key_eq_ok {sha256Hex : String → String} {i : EventIdentity} {k : String} :
    i.key sha256Hex = .ok k ↔ i.validate = .ok () ∧ sha256Hex i.payload = k := by
  simp [key]

lemma validate_eq_ok {i : EventIdentity} : i.validate = .ok () ↔
    i.chainID ≠ "" ∧ i.transactionID ≠ "" ∧ i.eventIndex ≠ "" ∧ i.assetID ≠ "" ∧
      i.toAddress ≠ "" := by
  simp [validate]

end EventIdentity

/-- A normalized transfer. `nativeEVMRawEvidence` is carried by queued events only; the
stored row of a transfer leaves it empty. -/
@[ext]
structure TransferEvent where
  id : String
  identity : EventIdentity
  (kind fromAddress : String)
  amount : Amount
  (assetDecimals blockHeight : ℕ)
  blockHash : String
  onChainTime : ℤ
  confirmations : ℕ
  status : TransferStatus
  (parserVersion evidenceHash : String)
  nativeEVMRawEvidence : List UInt8 := []
  deriving DecidableEq, Repr

def canTransitionTransfer (fromStatus toStatus : TransferStatus) : Bool :=
  match fromStatus with
  | .observed => toStatus != .observed
  | .confirmed => toStatus == .finalized || toStatus == .reorged || toStatus == .invalidated
  | .finalized => toStatus == .reorged
  | .reorged | .invalidated => false

inductive IntentStatus
  | created
  | awaitingRouteSelection
  | pending
  | observed
  | partiallyPaid
  | confirmed
  | settled
  | expired
  | needsReview
  | overpaid
  | reorgReview
  | reversed
  | cancelled
  deriving DecidableEq, Repr

inductive RouteStatus
  | active
  | expired
  | superseded
  | settled
  | cancelled
  deriving DecidableEq, Repr

/-- A route that matching still considers: active, or expired and not yet closed. -/
def RouteStatus.Matchable (s : RouteStatus) : Prop := s = .active ∨ s = .expired

instance (s : RouteStatus) : Decidable s.Matchable :=
  inferInstanceAs (Decidable (s = .active ∨ s = .expired))

inductive RouteProvider
  | onChain
  | hostedGateway
  deriving DecidableEq, Repr

/-- A payable way to pay an intent, with the columns of payment_routes that settlement reads. -/
structure PaymentRoute where
  (id tenantID merchantID intentID chainID assetID : String)
  provider : RouteProvider
  expectedAmount : Amount
  assetDecimals : ℕ
  address : String
  memo : String := ""
  requiredFinality : ℕ
  status : RouteStatus
  (startsAt expiresAt graceEndsAt createdAt : ℤ)
  deriving DecidableEq, Repr

end Ocrypt.Domain
