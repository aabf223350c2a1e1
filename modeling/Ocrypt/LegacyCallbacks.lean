import Ocrypt.LegacyAmounts

/-! Legacy orders: a signed request is bound to a payment intent, and the callback that tells the
merchant of its payment is frozen from what was recorded. -/
namespace Ocrypt.LegacyCallbacks
open Fallible Requests LegacyRequests LegacyAmounts List

structure IPNet where
  address : Bytes
  ones : ℕ
  deriving DecidableEq

def bits (address : Bytes) : List Bool :=
  address.flatMap fun b => (List.range 8).map fun i => b.toNat.testBit (7 - i)

def IPNet.contains (network : IPNet) (peer : Bytes) : Bool :=
  network.address.length = peer.length &&
    (bits network.address).take network.ones = (bits peer).take network.ones

def to4 (peer : Bytes) : Bytes :=
  if peer.length = 16 ∧ peer.take 12 = List.replicate 10 0 ++ [255,255] then peer.drop 12 else peer

def allowedPeer (peer : Option Bytes) (allowlist : List IPNet) : Bool :=
  match peer with
  | none => false
  | some peer => allowlist.any (·.contains (to4 peer))

/-- A version of a credential with its configuration: what does not change. -/
structure Credential where
  (configID credentialVersionID : String)
  protocol : Protocol
  pid : Bytes
  (legacySecretRef callbackKeyID : String)
  currency : Bytes
  currencyScale : ℕ
  (legacyToken legacyNetwork legacyPaymentType : Bytes)
  ipAllowlist : List IPNet
  deriving DecidableEq

structure Mapping where
  (configID credentialVersionID : String)
  protocol : Protocol
  tradeID : String
  orderID : Bytes
  (intentID routeID : String)
  (requestHash notifyURL returnURL name paymentType amount currency token network : Bytes)
  createdAt : ℤ
  deriving DecidableEq

def validateBinding (rt : Runtime) (request : CreateRequest) (credential : Credential) :
    Except LegacyError Unit := do
  let currency := if request.currency = [] then credential.currency else request.currency
  require (currency = credential.currency) (.invalid "currency")
  match request.protocol with
  | .jsonMD5 =>
    require (request.token = credential.legacyToken ∧ request.network = credential.legacyNetwork)
      (.invalid "asset route")
  | .formMD5 =>
    let paymentType :=
      if request.paymentType = [] then credential.legacyPaymentType else request.paymentType
    require (rt.equalFold paymentType credential.legacyPaymentType = true)
      (.invalid "form_md5 type")
    require ((request.token = [] ∨ request.token = credential.legacyToken) ∧
      (request.network = [] ∨ request.network = credential.legacyNetwork)) (.invalid "asset route")

def normalizeBinding (request : CreateRequest) (credential : Credential) : CreateRequest :=
  { request with
    currency := if request.currency = [] then credential.currency else request.currency
    token := if request.token = [] then credential.legacyToken else request.token
    network := if request.network = [] then credential.legacyNetwork else request.network
    paymentType :=
      if request.paymentType = [] then credential.legacyPaymentType else request.paymentType }

structure Service where
  (workerStaleAfter lastWorkerOK sunsetAt now : ℤ)

/-- What the others answer to a call of `Create`: which version of the credential is current and
whether it stands, its secret, the checks of addresses, and the identifiers of the intent, the route
and the trade. -/
structure Answers where
  currentVersion : String
  (approved enabled : Bool)
  sunsetAt : ℤ
  secret : Option Bytes
  endpointValid : Bytes → Bool
  (intentID routeID tradeID : Option String)

/-- The constraints of a row: addresses begin with `https`, texts are not too long. -/
def rowChecks (mapping : Mapping) : Prop :=
  utf8 "https://" <+: mapping.notifyURL ∧ mapping.notifyURL.length ≤ 2048 ∧
    (mapping.returnURL = [] ∨
      utf8 "https://" <+: mapping.returnURL ∧ mapping.returnURL.length ≤ 2048) ∧
    mapping.name.length ≤ 2048 ∧ mapping.paymentType.length ≤ 128 ∧
    (decimalParts mapping.amount).isSome = true ∧ mapping.amount.length ≤ 80

instance (mapping : Mapping) : Decidable (rowChecks mapping) :=
  inferInstanceAs (Decidable (_ ∧ _ ∧ _ ∧ _ ∧ _ ∧ _ ∧ _))

/-- The first mapping of an order stays; every other unique column must be free. -/
def recordMapping (mappings : List Mapping) (mapping : Mapping) :
    Except LegacyError (List Mapping × Mapping) := do
  require (rowChecks mapping) .database
  match mappings.find? fun m => m.configID = mapping.configID ∧ m.orderID = mapping.orderID with
  | some stored => .ok (mappings,stored)
  | none => do
    require (∀ m ∈ mappings, m.tradeID ≠ mapping.tradeID ∧ (m.configID = mapping.configID →
      m.intentID ≠ mapping.intentID ∧ m.routeID ≠ mapping.routeID)) .database
    .ok (mappings ++ [mapping],mapping)

section
variable (rt : Runtime) (rats : Rationals) (versions : List Credential)

/-- The current version, if it is of the protocol and the merchant that are asked for. -/
def lookupCredential (answers : Answers) (protocol : Protocol) (pid : Bytes) : Option Credential :=
  versions.find? fun c =>
    c.credentialVersionID = answers.currentVersion ∧ c.protocol = protocol ∧ c.pid = pid

def lookupCredentialVersion (id : String) : Option Credential :=
  versions.find? (·.credentialVersionID = id)

def create (service : Service) (answers : Answers) (mappings : List Mapping)
    (request : CreateRequest) (peer : Option Bytes) :
    Except LegacyError (List Mapping × Mapping) := do
  require (0 < service.workerStaleAfter ∧
    service.now - service.lastWorkerOK ≤ service.workerStaleAfter) .unavailable
  require (service.sunsetAt ≠ 0 ∧ service.now < service.sunsetAt) .unavailable
  let credential ←
    orFail (lookupCredential versions answers request.protocol request.pid) .unauthorized
  require (answers.approved = true ∧ answers.enabled = true ∧ answers.sunsetAt ≠ 0 ∧
    service.now < answers.sunsetAt ∧ answers.sunsetAt ≤ service.sunsetAt) .unauthorized
  require (allowedPeer peer credential.ipAllowlist = true) .unauthorized
  let secret ← orFail answers.secret .unauthorized
  require (verifyMD5 rt request.canonical request.signature secret = true) .unauthorized
  validateBinding rt request credential
  let request := normalizeBinding request credential
  require (answers.endpointValid request.notifyURL = true) (.invalid "notify URL")
  require (request.returnURL = [] ∨ answers.endpointValid request.returnURL = true)
    (.invalid "return URL")
  let _ ← decimalToMinor rats request.amount credential.currencyScale
  let intentID ← orFail answers.intentID .unavailable
  let routeID ← orFail answers.routeID .unavailable
  let tradeID ← orFail answers.tradeID .unavailable
  let mapping : Mapping := {
    configID := credential.configID
    credentialVersionID := credential.credentialVersionID
    protocol := request.protocol
    tradeID := tradeID
    orderID := request.orderID
    intentID := intentID
    routeID := routeID
    requestHash := request.canonicalHash
    notifyURL := request.notifyURL
    returnURL := request.returnURL
    name := request.name
    paymentType := request.paymentType
    amount := request.amount
    currency := credential.currency
    token := credential.legacyToken
    network := credential.legacyNetwork
    createdAt := service.now }
  let (mappings,stored) ← recordMapping mappings mapping
  -- only a row that was there before can differ
  require (stored.intentID = intentID ∧ stored.routeID = routeID ∧
    stored.requestHash = request.canonicalHash) .conflict
  pure (mappings,stored)

end

structure Payload where
  eventID : String
  sequence : ℕ
  (eventType intentID : String)
  /-- The transaction of the settlement, if there is one. -/
  settlement : Option String
  deriving DecidableEq

structure CoreRoute where
  id : String
  (displayAmount address : Bytes)
  deriving DecidableEq

structure FrozenCallback where
  (httpMethod contentType : String)
  targetURL : Bytes
  /-- The fields that the body is written from. -/
  body : List (String × Bytes)
  size : ℕ
  (credentialVersionID callbackKeyID : String)
  deriving DecidableEq

def fieldsOf (pairs : List (String × Bytes)) : Fields :=
  pairs.foldl (fun fields p => (fields.add (utf8 p.1) p.2).getD fields) Fields.empty

/-- The signature of the fields; a text that cannot be made canonical is signed as empty. -/
def signature (rt : Runtime) (protocol : Protocol) (pairs : List (String × Bytes)) (secret : Bytes) :
    Bytes :=
  utf8 (signMD5 rt ((canonical (fieldsOf pairs) protocol).toOption.getD []) secret)

def callbackShape : Protocol → String × String
  | .jsonMD5 => ("POST","application/json")
  | .formMD5 => ("GET","application/x-www-form-urlencoded")

section
variable (rt : Runtime) (rats : Rationals)

variable (mapping : Mapping)

def freezeForm (credential : Credential) (secret : Bytes) : Except LegacyError FrozenCallback := do
  let money ← fixedDecimal rats mapping.amount 4
  let values := [("pid",credential.pid),("trade_no",utf8 mapping.tradeID),
    ("out_trade_no",mapping.orderID),("type",mapping.paymentType),("name",mapping.name),
    ("money",money),("trade_status",utf8 "TRADE_SUCCESS")]
  let body := values ++ [("sign",signature rt .formMD5 values secret),("sign_type",utf8 "MD5")]
  pure {
    httpMethod := "GET"
    contentType := "application/x-www-form-urlencoded"
    targetURL := mapping.notifyURL
    body
    size := rt.bodySize .formMD5 body
    credentialVersionID := credential.credentialVersionID
    callbackKeyID := credential.callbackKeyID }

/-- The amounts are written into the body as raw JSON, which the encoder checks. -/
def freezeJSON (credential : Credential) (route : CoreRoute) (transactionHash : String)
    (secret : Bytes) : Except LegacyError FrozenCallback := do
  let amount ← normalizedDecimal rats mapping.amount
  let actual ← normalizedDecimal rats route.displayAmount
  let values := [("pid",credential.pid),("trade_id",utf8 mapping.tradeID),
    ("order_id",mapping.orderID),("amount",amount),("actual_amount",actual),
    ("receive_address",route.address),("token",credential.legacyToken),
    ("block_transaction_id",utf8 transactionHash),("status",utf8 "2")]
  require (jsonNumber amount = true ∧ jsonNumber actual = true) .encoding
  let body := values ++ [("signature",signature rt .jsonMD5 values secret)]
  pure {
    httpMethod := "POST"
    contentType := "application/json"
    targetURL := mapping.notifyURL
    body
    size := rt.bodySize .jsonMD5 body
    credentialVersionID := credential.credentialVersionID
    callbackKeyID := credential.callbackKeyID }

def freezeCallback (credential : Credential) (route : CoreRoute) (event : Payload)
    (secret : Bytes) : Except LegacyError FrozenCallback :=
  match event.settlement with
  | none => .error (.invalid "")
  | some transactionHash => do
    require ((event.eventType = "payment.settled" ∨ event.eventType = "payment.overpaid") ∧
      mapping.notifyURL ≠ []) (.invalid "")
    match mapping.protocol with
    | .formMD5 => freezeForm rt rats mapping credential secret
    | .jsonMD5 => freezeJSON rt rats mapping credential route transactionHash secret

end

def canonicalAmount (text : Bytes) : Prop :=
  (decimalParts text).isSome = true ∧ leadingZero text = false ∧ text.length ≤ 1000000

structure Recorded (rats : Rationals) (versions : List Credential) (mapping : Mapping) : Prop where
  addressed : mapping.notifyURL ≠ []
  short : mapping.amount.length ≤ 80
  accepted : ∃ credential ∈ versions, credential.credentialVersionID = mapping.credentialVersionID ∧
    credential.configID = mapping.configID ∧ credential.protocol = mapping.protocol ∧
    ∃ minor, decimalToMinor rats mapping.amount credential.currencyScale = .ok minor

section
variable {rt : Runtime} {rats : Rationals} {versions : List Credential} {service : Service}
  {answers : Answers} {mappings mappings' : List Mapping} {mapping stored : Mapping}
  {request : CreateRequest} {peer : Option Bytes}

lemma recordMapping_cases (h : recordMapping mappings mapping = .ok (mappings',stored)) :
    rowChecks mapping ∧ ((mappings' = mappings ∧ stored ∈ mappings) ∨
      (mappings' = mappings ++ [mapping] ∧ stored = mapping)) := by
  simp only [recordMapping,do_ok] at h
  obtain ⟨hr,h⟩ := h
  refine ⟨hr,?_⟩
  split at h
  · rename_i found hf
    cases h
    exact .inl ⟨rfl,mem_of_find?_eq_some hf⟩
  · simp only [do_ok] at h
    obtain ⟨-,h⟩ := h
    cases h
    exact .inr ⟨rfl,rfl⟩

lemma not_nil_of_https (h : utf8 "https://" <+: mapping.notifyURL) : mapping.notifyURL ≠ [] := by
  intro hn
  rw [hn] at h
  revert h
  decide +kernel

lemma create_cases
    (h : create rt rats versions service answers mappings request peer = .ok (mappings',stored)) :
    (mappings' = mappings ∧ stored ∈ mappings) ∨
      (mappings' = mappings ++ [stored] ∧ stored.amount = request.amount ∧
        stored.protocol = request.protocol ∧ Recorded rats versions stored) := by
  simp only [create,do_ok,orFail_eq_ok] at h
  obtain ⟨-,-,credential,hcr,-,-,_,-,-,-,-,-,-,minor,hm,intentID,-,
    routeID,-,tradeID,-,⟨next,row⟩,hr,-,hre⟩ := h
  cases hre
  obtain ⟨hme,hf⟩ := Table.mem_of_find? hcr
  obtain ⟨hro,hold | hn⟩ := recordMapping_cases hr
  · exact .inl hold
  · obtain ⟨rfl,rfl⟩ := hn
    refine .inr ⟨rfl,rfl,rfl,not_nil_of_https hro.1,hro.2.2.2.2.2.2,credential,hme,rfl,
      rfl,hf.2.1,minor,hm⟩

end

section
variable {rt : Runtime} {rats : Rationals} {versions : List Credential} {mapping : Mapping}
  {credential : Credential} {route : CoreRoute} {event : Payload} {secret text whole fraction : Bytes}
  {frozen : FrozenCallback} {transactionHash : String}

lemma leadingZero_decimalText (h : whole ≠ []) :
    leadingZero (decimalText whole fraction) = leadingZero whole := by
  obtain ⟨d,ws,rfl⟩ := exists_cons_of_ne_nil h
  unfold decimalText
  cases ws with
  | nil =>
    split_ifs
    · rfl
    · simp [leadingZero,not_digit_point]
  | cons w ws => rfl

variable (rats) in
lemma normalizedDecimal_number (h : (decimalParts text).isSome = true)
    (hl : text.length ≤ 1000000) : ∃ amount, normalizedDecimal rats text = .ok amount ∧
      jsonNumber amount = !leadingZero text := by
  obtain ⟨⟨whole,fraction⟩,hp⟩ := Option.isSome_iff_exists.mp h
  obtain ⟨hd,hte⟩ := decimalParts_eq_some hp
  have hsh : fraction.length ≤ 1000000 := by
    have hle : fraction.length ≤ text.length := by
      rw [hte]
      unfold decimalText
      split_ifs with he
      · simp [he]
      · simp only [length_append,length_cons]
        omega
    exact hle.trans hl
  refine ⟨_,normalizedDecimal_eq hp hsh,?_⟩
  rw [jsonNumber_decimalText hd.trimRight,leadingZero_decimalText hd.nonempty,hte,
    leadingZero_decimalText hd.nonempty]

lemma freezeJSON_iff (ham : (decimalParts mapping.amount).isSome = true)
    (hl : mapping.amount.length ≤ 1000000) (hr : canonicalAmount route.displayAmount) :
    (∃ frozen, freezeJSON rt rats mapping credential route transactionHash secret = .ok frozen) ↔
      leadingZero mapping.amount = false := by
  obtain ⟨amount,hn,hnu⟩ := normalizedDecimal_number rats ham hl
  obtain ⟨actual,hac,hd⟩ := normalizedDecimal_number rats hr.1 hr.2.2
  rw [hr.2.1] at hd
  simp only [freezeJSON,hn,hac,ok_bind,do_ok,hnu,hd,Bool.not_eq_true',Bool.not_false,and_true]
  constructor
  · rintro ⟨_,h⟩
    exact h.1
  · exact fun h => ⟨_,h,rfl⟩

/-- The callback of a recorded order can be frozen, except for a JSON amount with a leading zero. -/
lemma freezeCallback_iff (hr : Recorded rats versions mapping)
    (hsc : ∀ c ∈ versions, c.protocol = .formMD5 → c.currencyScale ≤ 4)
    (hse : event.settlement = some transactionHash)
    (hty : event.eventType = "payment.settled" ∨ event.eventType = "payment.overpaid")
    (hro : canonicalAmount route.displayAmount) :
    (∃ frozen, freezeCallback rt rats mapping credential route event secret = .ok frozen) ↔
      (mapping.protocol = .jsonMD5 → leadingZero mapping.amount = false) := by
  obtain ⟨current,hme,-,-,hp,minor,hm⟩ := hr.accepted
  have hch := And.intro hty hr.addressed
  simp only [freezeCallback,hse,require_pos hch,ok_bind]
  cases hf : mapping.protocol with
  | formMD5 =>
    have hpl := hsc current hme (hp.trans hf)
    obtain ⟨money,hmo⟩ := fixedDecimal_ok hm hpl
    simp only [reduceCtorEq,false_implies,iff_true]
    simp only [freezeForm,hmo]
    exact ⟨_,rfl⟩
  | jsonMD5 =>
    obtain ⟨_,_,_,hpa,-⟩ := decimalToMinor_eq_ok hm
    have ham : (decimalParts mapping.amount).isSome = true := by
      rw [hpa]
      rfl
    have hl : mapping.amount.length ≤ 1000000 := hr.short.trans (by decide)
    rw [freezeJSON_iff ham hl hro]
    simp

lemma freezeCallback_target
    (h : freezeCallback rt rats mapping credential route event secret = .ok frozen) :
    frozen.targetURL = mapping.notifyURL ∧
      frozen.credentialVersionID = credential.credentialVersionID ∧
      frozen.callbackKeyID = credential.callbackKeyID ∧
      (frozen.httpMethod,frozen.contentType) = callbackShape mapping.protocol ∧
      frozen.size = rt.bodySize mapping.protocol frozen.body := by
  unfold freezeCallback at h
  split at h
  · cases h
  · simp only [do_ok] at h
    obtain ⟨-,h⟩ := h
    cases hp : mapping.protocol with
    | formMD5 =>
      simp only [hp,freezeForm,do_ok] at h
      obtain ⟨_,-,rfl⟩ := h
      exact ⟨rfl,rfl,rfl,rfl,rfl⟩
    | jsonMD5 =>
      simp only [hp,freezeJSON,do_ok] at h
      obtain ⟨_,-,_,-,-,rfl⟩ := h
      exact ⟨rfl,rfl,rfl,rfl,rfl⟩

end

end Ocrypt.LegacyCallbacks
