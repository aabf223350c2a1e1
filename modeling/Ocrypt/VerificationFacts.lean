import Ocrypt.Manifests

/-! The keys that a control plane trusts, and the facts that a quorum of verifiers signs: the key
file, the checks on one observation, and the loop that counts the key ids behind each digest. -/
namespace Ocrypt.VerificationFacts
open Fallible JsonText JsonObjects JsonRecords Manifests
open Requests (Bytes utf8 hexEncode isBlank)
open RangeChecks (validID)

/-- The file of the key ring: what `Lstat` says about it, and its content if it can be read. -/
structure KeyFile where
  regular : Bool
  (perm size : ℕ)
  content : Option RawDocument

def readEntry (rt : Runtime) (member : String × Json) : Except MigrationError (String × Bytes) := do
  let text ← orFail (storeString "" member.2) .signature
  let key ← orFail (rt.decodeBase64 text) .signature
  require (safeReference member.1 = true ∧ key.length = 32) .signature
  pure (member.1,key)

def readEntries (rt : Runtime) : List (String × Json) → Except MigrationError (List (String × Bytes))
  | [] => .ok []
  | member::rest => do
    let entry ← readEntry rt member
    let entries ← readEntries rt rest
    pure (entry::entries)

def mapMembers : Json → Option (List (String × Json))
  | .obj members => some members
  | .null => some []
  | _ => none

def ringOf (entries : List (String × Bytes)) : Except MigrationError PublicKeyRing :=
  if h : (entries.map Prod.fst).Nodup then .ok ⟨entries,h⟩ else .error .signature

def readPublicKeyRing (rt : Runtime) (file : KeyFile) : Except MigrationError PublicKeyRing := do
  require (file.regular = true ∧ file.perm &&& 0o022 = 0 ∧ 80 ≤ file.size ∧
    file.size ≤ 64*1024) .signature
  let raw ← orFail file.content .signature
  require (0 < raw.size ∧ raw.size ≤ 64*1024) .signature
  let value ← orFail raw.value .signature
  require (acceptable 0 value = true) .signature
  let members ← orFail (mapMembers value) .signature
  require (2 ≤ members.length ∧ members.length ≤ 32) .signature
  let entries ← readEntries rt members
  ringOf entries

def verificationDomain : String := "merchant-platform/migration-verification-fact/v1\n"

def sourceIDPattern : String → Bool := reference ['.','_',':','/','-'] 127

structure VerificationRequest where
  (migrationID sourceID : String)

structure VerificationFact where
  (schemaVersion eventIdentity transactionID chainID assetID receivingAddress amountAtomic : String)
  confirmations : ℤ
  blockHash : String
  observedAt : ℤ

def factFields : List String :=
  ["schema_version", "event_identity", "transaction_id", "chain_id", "asset_id",
    "receiving_address", "amount_atomic", "confirmations", "block_hash", "observed_at"]

def readFact (parseTime : String → Option ℤ) (members : List (String × Json))
    (old : VerificationFact) : Option VerificationFact := do
  let schemaVersion ← readField factFields storeString "schema_version" members old.schemaVersion
  let eventIdentity ← readField factFields storeString "event_identity" members old.eventIdentity
  let transactionID ← readField factFields storeString "transaction_id" members old.transactionID
  let chainID ← readField factFields storeString "chain_id" members old.chainID
  let assetID ← readField factFields storeString "asset_id" members old.assetID
  let receivingAddress ←
    readField factFields storeString "receiving_address" members old.receivingAddress
  let amountAtomic ← readField factFields storeString "amount_atomic" members old.amountAtomic
  let confirmations ← readField factFields storeInt "confirmations" members old.confirmations
  let blockHash ← readField factFields storeString "block_hash" members old.blockHash
  let observedAt ← readField factFields (storeTime parseTime) "observed_at" members old.observedAt
  pure ⟨schemaVersion,eventIdentity,transactionID,chainID,assetID,receivingAddress,
    amountAtomic,confirmations,blockHash,observedAt⟩

def decodeFact (parseTime : String → Option ℤ) (document : Json) : Option VerificationFact :=
  record factFields (readFact parseTime) ⟨"","","","","","","",0,"",0⟩ document

def validVerificationFact (now : ℤ) (value : VerificationFact) : Bool :=
  value.schemaVersion = "migration-verification-fact-v1" && sourceIDPattern value.eventIdentity &&
    sourceIDPattern value.transactionID && sourceIDPattern value.chainID &&
    sourceIDPattern value.assetID && !isBlank value.receivingAddress &&
    value.receivingAddress.utf8ByteSize ≤ 256 && 1 ≤ value.confirmations &&
    value.confirmations ≤ 1000000000 && value.observedAt ≠ 0 &&
    value.observedAt ≤ now+10*minute && now - 30*day ≤ value.observedAt &&
    1 ≤ value.amountAtomic.utf8ByteSize && value.amountAtomic.utf8ByteSize ≤ 78 &&
    value.amountAtomic.toList.all (fun c => '0' ≤ c && c ≤ '9') &&
    value.amountAtomic.toList.head? ≠ some '0' && 16 ≤ value.blockHash.utf8ByteSize &&
    value.blockHash.utf8ByteSize ≤ 256

structure ProviderObservation where
  fact : RawDocument
  (keyID signature : String)

structure VerifiedFact where
  fact : VerificationFact
  canonicalBody : String
  digest : Bytes
  verifierKeyIDs : List String
  verifierVersion : ℤ

/-- The answers of the providers, in their order; a provider that fails gives none. -/
structure QuorumVerifier where
  providers : List (Option ProviderObservation)
  keys : PublicKeyRing
  quorum : ℕ
  version : ℤ

def factMessage (canonical : String) : Bytes := utf8 verificationDomain ++ utf8 canonical

section
variable (rt : Runtime) (ring : PublicKeyRing) (now : ℤ)

def factOf (raw : RawDocument) : Option (VerificationFact × String) := do
  guard (0 < raw.size ∧ raw.size ≤ 64*1024)
  let value ← raw.value
  guard (acceptable 0 value = true ∧ hasForbiddenKey rt.lower (sorted value) = false)
  let fact ← decodeFact rt.parseTime value
  guard (validVerificationFact now fact = true)
  pure (fact,compact (sorted value))

def signedBy (message : Bytes) (id signature : String) : Bool :=
  match ring.lookup id, rt.decodeBase64 signature with
  | some key, some raw => raw.length = 64 && rt.verify key message raw
  | _, _ => false

def counted (answer : Option ProviderObservation) :
    Option (VerificationFact × String × String) := do
  let observation ← answer
  let (fact,canonical) ← factOf rt now observation.fact
  guard (signedBy rt ring (factMessage canonical) observation.keyID observation.signature = true)
  pure (fact,canonical,observation.keyID)

structure Agreement where
  fact : VerificationFact
  canonical : String
  keys : List String

def joined (old : Option Agreement) (fact : VerificationFact) (canonical id : String) : Agreement :=
  match old with
  | none => ⟨fact,canonical,[id]⟩
  | some item => if id ∈ item.keys then item else { item with keys := item.keys ++ [id] }

def agree (quorum : ℕ) (version : ℤ) : List (Option ProviderObservation) →
    (Bytes → Option Agreement) → Except MigrationError VerifiedFact
  | [], _ => .error .dependency
  | answer::rest, agreements =>
    match counted rt ring now answer with
    | none => agree quorum version rest agreements
    | some (fact,canonical,id) =>
      let digest := rt.sha256 (utf8 canonical)
      let item := joined (agreements digest) fact canonical id
      if quorum ≤ item.keys.length then
        .ok ⟨item.fact,item.canonical,digest,item.keys.insertionSort (· ≤ ·),version⟩
      else agree quorum version rest (Function.update agreements digest (some item))

end

/-- What `Verify` asks of the configuration. -/
def QuorumVerifier.Accepted (v : QuorumVerifier) : Prop :=
  2 ≤ v.quorum ∧ v.quorum ≤ v.providers.length ∧ 1 ≤ v.version ∧ v.quorum ≤ v.keys.entries.length

instance (v : QuorumVerifier) : Decidable v.Accepted :=
  inferInstanceAs (Decidable (_ ∧ _ ∧ _ ∧ _))

def QuorumVerifier.verify (rt : Runtime) (v : QuorumVerifier) (now : ℤ)
    (request : VerificationRequest) : Except MigrationError VerifiedFact := do
  require (validID request.migrationID = true ∧ sourceIDPattern request.sourceID = true ∧
    v.Accepted) .invalid
  agree rt v.keys now v.quorum v.version v.providers fun _ => none

end Ocrypt.VerificationFacts
