import Ocrypt.HostedSettlement

/-! `VerifyCallback` and `HandleCallback`: a signed delivery of a hosted provider is checked against
the configuration of the provider and turned into the verified payment that is ingested. -/
namespace Ocrypt.HostedCallbacks
open Money Domain Fallible Store HostedSettlement Requests

inductive ConfigStatus
  | active
  | paused
  | disabled
  deriving DecidableEq, Repr

structure HostedProviderConfig where
  (id tenantID merchantID adapterKind apiOrigin createPath : String)
  paymentURLOrigins : List String
  (credentialRef apiKeyID callbackSecretRef callbackKeyID callbackSignatureKind assetID
    currency : String)
  status : ConfigStatus
  configManifestID : String
  configVersion : ℤ

structure CallbackBody where
  (eventID providerReference status assetID amountAtomic : String)
  assetDecimals : ℕ
  occurredAt : ℤ

/-- What the adapter uses from outside: digests, URL parsing, the secret store and the strict
reading of JSON. -/
structure Environment where
  crypto : Crypto
  isHTTPSOrigin : String → Bool
  resolveSecret : String → Option Bytes
  decodeStrictJSON : Bytes → Except Failure CallbackBody

def maxCallbackBody : ℕ := 2^20

def invalid (detail : String) : Failure := ⟨.validation,detail⟩

variable (env : Environment) (cfg : HostedProviderConfig)

def parseHTTPSOrigin (value : String) : Except Failure Unit :=
  require (env.isHTTPSOrigin value) (invalid "provider origin must be an exact HTTPS origin")

def endpointURL (origin path : String) : Except Failure String := do
  parseHTTPSOrigin env origin
  require (path ≠ "" ∧ ['/'].isPrefixOf path.toList ∧ ¬['/','/'].isPrefixOf path.toList ∧
      '?' ∉ path.toList ∧ '#' ∉ path.toList)
    (invalid "provider endpoint path must be an absolute query-free path")
  pure (origin ++ path)

def simpleName (ref : String) : Bool :=
  ref.toList.all fun c => c ≠ '/' && c ≠ '\\' && c ≠ Char.ofNat 0

def validateConfig (callback : Bool) : Except Failure Unit := do
  require (cfg.id ≠ "" ∧ cfg.id.utf8ByteSize ≤ 128 ∧ cfg.adapterKind = "hmac_json_v1" ∧
      (cfg.status = .active ∨ callback ∧ cfg.status = .paused) ∧
      cfg.callbackSignatureKind = "hmac-sha256" ∧ cfg.apiKeyID ≠ "" ∧ cfg.callbackKeyID ≠ "" ∧
      cfg.assetID ≠ "" ∧ cfg.currency ≠ "" ∧
      ¬(callback ∧ (cfg.configManifestID = "" ∨ cfg.configVersion < 1)))
    (stateConflict "hosted provider is not admitted")
  let _ ← endpointURL env cfg.apiOrigin cfg.createPath
  require (cfg.paymentURLOrigins ≠ [])
    (invalid "hosted provider payment URL allowlist is empty")
  traverse (fun _ origin => parseHTTPSOrigin env origin) cfg.paymentURLOrigins ()
  require (cfg.credentialRef ≠ "" ∧ cfg.callbackSecretRef ≠ "" ∧
      simpleName (cfg.credentialRef ++ cfg.callbackSecretRef))
    (invalid "provider secret references must be simple names")

def validateCallbackConfig : Except Failure Unit :=
  validateConfig env cfg true

def exactHeader (headers : Header) (name : String) : Except Failure String :=
  match headers name with
  | [value] => do
    require (¬isBlank value ∧ ',' ∉ value.toList) (invalid (name ++ " must appear exactly once"))
    pure value
  | _ => .error (invalid (name ++ " must appear exactly once"))

def parseProviderStatus : String → Option ProviderStatus
  | "pending" => some .pending
  | "authorized" => some .authorized
  | "paid" => some .paid
  | "cancelled" => some .cancelled
  | "failed" => some .failed
  | "refunded" => some .refunded
  | _ => none

def signedCallback (timestampText : String) (body : Bytes) : Bytes :=
  utf8 ("hosted-callback-v1\n" ++ cfg.id ++ "\n" ++ timestampText ++ "\n") ++ body

def verifiedPayment (body provided : Bytes) (decoded : CallbackBody) (amount : Amount)
    (status : ProviderStatus) : VerifiedProviderPayment where
  tenantID := ""
  merchantID := ""
  providerID := cfg.id
  providerReference := decoded.providerReference
  providerEventID := decoded.eventID
  status := status
  assetID := decoded.assetID
  amount := amount
  assetDecimals := decoded.assetDecimals
  occurredAt := decoded.occurredAt
  rawDigest := hexEncode (env.crypto.sha256 body)
  signatureDigest := hexEncode (env.crypto.sha256 provided)
  configManifestID := cfg.configManifestID
  configVersion := cfg.configVersion
  providerPaused := false

def verifyCallback (headers : Header) (body : Bytes) (now : ℤ) : Except Failure VerifiedProviderPayment := do
  validateCallbackConfig env cfg
  require (body ≠ [] ∧ body.length ≤ maxCallbackBody)
    (invalid s!"provider callback body must be 1..{maxCallbackBody} bytes")
  let timestampText ← exactHeader headers "Hosted-Timestamp"
  let invalidKey := invalid "invalid provider callback key id"
  let keyID ← orFail (exactHeader headers "Hosted-Key-Id").toOption invalidKey
  require (keyID = cfg.callbackKeyID) invalidKey
  let signatureText ← exactHeader headers "Hosted-Signature"
  let seconds ← orFail (parseInt64 timestampText) (invalid "invalid provider callback timestamp")
  let timestamp := unixTime seconds
  require (now - 5*minute ≤ timestamp ∧ timestamp ≤ now+5*minute)
    (stateConflict "provider callback timestamp is outside the replay window")
  let invalidSignature := invalid "invalid provider callback signature encoding"
  let provided ← orFail (hexDecode signatureText) invalidSignature
  require (provided.length = 32 ∧ hexEncode provided = signatureText) invalidSignature
  let unavailable : Failure := ⟨.dependency,"provider callback secret unavailable"⟩
  let secret ← orFail (env.resolveSecret cfg.callbackSecretRef) unavailable
  require (32 ≤ secret.length) unavailable
  require (env.crypto.hmacSHA256 secret (signedCallback cfg timestampText body) = provided)
    (invalid "provider callback signature mismatch")
  let decoded ← env.decodeStrictJSON body
  let incomplete := invalid "incomplete provider callback"
  let amount ← orFail (Amount.parse decoded.amountAtomic).toOption incomplete
  let status ← orFail (parseProviderStatus decoded.status) incomplete
  require (¬amount.isZero ∧ decoded.eventID ≠ "" ∧ decoded.providerReference ≠ "" ∧
    decoded.assetID ≠ "" ∧ decoded.occurredAt ≠ 0) incomplete
  pure (verifiedPayment env cfg body provided decoded amount status)

/-- The verified payment under the tenant, merchant and manifest of the configuration. -/
def attributed (verified : VerifiedProviderPayment) : VerifiedProviderPayment :=
  { verified with
    tenantID := cfg.tenantID
    merchantID := cfg.merchantID
    providerPaused := cfg.status = .paused
    configManifestID := cfg.configManifestID
    configVersion := cfg.configVersion }

/-- The configuration is selected by the key id of the delivery before the body is read. -/
def handleCallback (ext : Externals)
    (getCallbackConfig : (providerID keyID : String) → Except Failure HostedProviderConfig)
    (db : Database) (providerID : String) (headers : Header) (body : Bytes) (now clock : ℤ)
    (ids : HostedIDs) : Except Failure (Database × HostedSettlementResult) := do
  let keyID ← exactHeader headers "Hosted-Key-Id"
  let cfg ← getCallbackConfig providerID keyID
  let verified ← verifyCallback env cfg headers body now
  ingestVerifiedProviderPayment ext db (attributed cfg verified) none clock ids

lemma exactHeader_eq_ok {headers : Header} {name value : String}
    (h : exactHeader headers name = .ok value) : headers name = [value] := by
  unfold exactHeader at h
  split at h
  · rename_i v hv
    simp only [do_ok] at h
    rw [hv,h.2]
  · cases h

/-- What an accepted callback has shown, and the payment that is read from it. -/
theorem verifyCallback_eq_ok {env : Environment} {cfg : HostedProviderConfig} {headers : Header}
    {body : Bytes} {now : ℤ} {p : VerifiedProviderPayment}
    (h : verifyCallback env cfg headers body now = .ok p) :
    ∃ timestampText secret decoded amount status, headers "Hosted-Timestamp" = [timestampText] ∧
      env.resolveSecret cfg.callbackSecretRef = some secret ∧
      env.decodeStrictJSON body = .ok decoded ∧
      (Amount.parse decoded.amountAtomic).toOption = some amount ∧
      parseProviderStatus decoded.status = some status ∧ p = verifiedPayment env cfg body
        (env.crypto.hmacSHA256 secret (signedCallback cfg timestampText body)) decoded amount
        status := by
  simp only [verifyCallback,do_ok,orFail_eq_ok] at h
  obtain ⟨-,-,-,timestampText,hti,-,-,-,-,-,-,-,-,provided,-,-,secret,hse,
    -,hm,decoded,hd,amount,ham,status,hst,-,rfl⟩ := h
  exact ⟨timestampText,secret,decoded,amount,status,exactHeader_eq_ok hti,hse,
    hd,ham,hst,by rw [hm]⟩

end Ocrypt.HostedCallbacks
