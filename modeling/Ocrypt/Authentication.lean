import Ocrypt.Domain
import Ocrypt.Requests

/-! The two authenticators of signed requests, of merchants and of the operator gateway, and the
nonce stores that they consume from. -/
namespace Ocrypt.Authentication
open Domain Fallible Requests

/-- What the authenticators use from outside: digests, base64, query encoding and instants as
texts. -/
structure Environment where
  crypto : Crypto
  base64Std : Bytes → String
  base64RawURLDecode : String → Option Bytes
  encodeQuery : String → String
  parseRFC3339Nano : String → Option ℤ
  formatRFC3339Nano : ℤ → String

structure Request where
  (method escapedPath rawQuery : String)
  header : Header

/-- A row of auth_nonces or of financial_proxy_nonces; (key, nonce) is the primary key. -/
structure NonceRow where
  (keyID nonce : String)
  expiresAt : ℤ
  deriving DecidableEq, Repr

/-- `MemoryNonces`, a map from joined texts to expiry instants, or the table of a database. -/
inductive NonceStore
  | memory (values : List (String × ℤ))
  | database (rows : List NonceRow)
  deriving DecidableEq, Repr

def memoryKey (keyID nonce : String) : String := keyID ++ "\x1f" ++ nonce

/-- `MemoryNonces.Consume`: the purge comes first, and stays when the nonce is known. -/
def consumeMemory (values : List (String × ℤ)) (clock : ℤ) (keyID nonce : String) (until_ : ℤ) :
    Bool × List (String × ℤ) :=
  let values := values.filter fun v => ¬v.2 < clock
  let key := memoryKey keyID nonce
  if ∃ v ∈ values, v.1 = key then (false,values) else (true,values ++ [(key,until_)])

/-- `Database.Consume` and `FinancialProxyNonceStore.Consume`: an insert that does nothing on a
conflict. -/
def consumeRow (rows : List NonceRow) (keyID nonce : String) (expiresAt : ℤ) :
    Bool × List NonceRow :=
  if ∃ r ∈ rows, r.keyID = keyID ∧ r.nonce = nonce then (false,rows)
  else (true,rows ++ [⟨keyID,nonce,expiresAt⟩])

def NonceStore.consume (store : NonceStore) (clock : ℤ) (keyID nonce : String) (expiresAt : ℤ) :
    Bool × NonceStore :=
  match store with
  | .memory values => (consumeMemory values clock keyID nonce expiresAt).map id .memory
  | .database rows => (consumeRow rows keyID nonce expiresAt).map id .database

/-- `DeleteExpiredNonces`: the rows that expired first, at most `limit` of them. -/
def deleteExpiredNonces (rows : List NonceRow) (clock : ℤ) (limit : ℕ) :
    Except String (List NonceRow) := do
  require (0 < limit ∧ limit ≤ 100000) "nonce cleanup limit must be between 1 and 100000"
  let expired := ((rows.filter fun r => r.expiresAt < clock).mergeSort
    fun a b => a.expiresAt ≤ b.expiresAt).take limit
  pure (rows.filter fun r => ¬∃ e ∈ expired, r.keyID = e.keyID ∧ r.nonce = e.nonce)

structure Principal where
  (tenantID merchantID actorID keyID : String)
  scopes : List String

structure Credential where
  secret : Bytes
  principal : Principal
  validUntil : ℤ

structure Authenticator where
  findCredential : String → Option Credential
  tolerance : ℤ

def Authenticator.window (a : Authenticator) : ℤ :=
  if a.tolerance = 0 then 5*minute else a.tolerance

structure ProxyAuthenticator where
  secret : Bytes
  tolerance : ℤ
  keyID : String

variable (env : Environment) (a : ProxyAuthenticator) (r : Request)

def querySuffix : String :=
  if r.rawQuery = "" then "" else "?" ++ env.encodeQuery r.rawQuery

def canonicalQuery : String := querySuffix env r

def insideWindow (now seconds tolerance : ℤ) : Prop :=
  magnitude (durationBetween now (unixTime seconds)) ≤ tolerance

instance (now seconds tolerance : ℤ) : Decidable (insideWindow now seconds tolerance) :=
  inferInstanceAs (Decidable (_ ≤ _))

/-- The checks of `Authenticator.Authenticate` before the nonce is consumed. -/
def Authenticator.check (a : Authenticator) (now : ℤ) (r : Request) (body : Bytes) :
    Except String Credential := do
  let keyID := r.header.get "Merchant-Key-Id"
  let timestampText := r.header.get "Merchant-Timestamp"
  let nonce := r.header.get "Merchant-Nonce"
  let signature := r.header.get "Merchant-Signature"
  require (keyID ≠ "" ∧ timestampText ≠ "" ∧ nonce ≠ "" ∧ signature ≠ "")
    "missing merchant authentication headers"
  require (16 ≤ nonce.utf8ByteSize ∧ nonce.utf8ByteSize ≤ 128)
    "merchant nonce must be 16..128 characters"
  let unix ← orFail (parseInt64 timestampText) "invalid merchant timestamp"
  require (insideWindow now unix a.window) "merchant timestamp is outside the allowed window"
  let digest := env.crypto.sha256 body
  require (r.header.get "Content-Digest" = "sha-256=:" ++ env.base64Std digest ++ ":")
    "content digest mismatch"
  let credential ← orFail (a.findCredential keyID) "unknown or revoked merchant key"
  require (credential.validUntil = 0 ∨ now ≤ credential.validUntil) "merchant key has expired"
  let canonical := "\n".intercalate [r.method,r.escapedPath ++ querySuffix env r,timestampText,
    nonce,hexEncode digest]
  require (env.base64RawURLDecode signature =
      some (env.crypto.hmacSHA256 credential.secret (utf8 canonical)))
    "merchant signature mismatch"
  pure credential

/-- `Authenticator.Authenticate`. The call reads `now` when it begins; the store reads its own
clock when the nonce is consumed. -/
def Authenticator.authenticate (a : Authenticator) (now clock : ℤ) (r : Request) (body : Bytes)
    (nonces : NonceStore) : Except String Principal × NonceStore :=
  match a.check env now r body with
  | .error e => (.error e,nonces)
  | .ok credential =>
    let (consumed,nonces) := nonces.consume clock (r.header.get "Merchant-Key-Id")
      (r.header.get "Merchant-Nonce") (now+a.window)
    (if consumed then .ok credential.principal else .error "merchant nonce has already been used",
      nonces)

structure ProxyPrincipal where
  (tenantID actorID : String)
  permissions : List String
  stepUpValidUntil : ℤ

def ProxyAuthenticator.window : ℤ :=
  if a.tolerance = 0 then 2*minute else a.tolerance

def ProxyAuthenticator.nonceKey : String :=
  if a.keyID = "" then "financial-operator-proxy" else a.keyID

/-- `strings.Split(text, ",")`. -/
def splitCommas (text : String) : List String :=
  (text.toList.splitOn ',').map String.ofList

def parsePermissions (text : String) : Except String (List String) := do
  let failure := "invalid financial permission assertion"
  let parts := splitCommas text
  require (parts ≠ [] ∧ parts.length ≤ 64) failure
  let permissions := parts.map trimSpace
  require ((∀ p ∈ permissions, p ≠ "" ∧ p.utf8ByteSize ≤ 128) ∧ permissions.Nodup) failure
  pure (permissions.mergeSort fun a b => decide (a ≤ b))

def assertionHeader (name : String) : Except String String :=
  match r.header name with
  | [value] => .ok value
  | _ => .error "financial assertion headers must occur exactly once"

/-- The checks of `ProxyAuthenticator.Authenticate` before the nonce is consumed. -/
def ProxyAuthenticator.check (now : ℤ) (r : Request) (body : Bytes) : Except String ProxyPrincipal := do
  require (32 ≤ a.secret.length) "financial operator authentication is not configured"
  let tenantID ← assertionHeader r "Financial-Tenant-Id"
  let actorID ← assertionHeader r "Financial-Actor-Id"
  let permissionText ← assertionHeader r "Financial-Permissions"
  let stepUpText ← assertionHeader r "Financial-Step-Up-Until"
  let timestampText ← assertionHeader r "Financial-Timestamp"
  let nonce ← assertionHeader r "Financial-Nonce"
  let signatureText ← assertionHeader r "Financial-Signature"
  require (tenantID ≠ "" ∧ actorID ≠ "" ∧ permissionText ≠ "" ∧ stepUpText ≠ "" ∧
      timestampText ≠ "" ∧ 16 ≤ nonce.utf8ByteSize ∧ nonce.utf8ByteSize ≤ 128 ∧ signatureText ≠ "")
    "incomplete financial operator assertion"
  let timestamp ← orFail (parseInt64 timestampText) "invalid financial assertion timestamp"
  require (insideWindow now timestamp a.window)
    "financial assertion timestamp is outside the allowed window"
  let inactive := "active bounded step-up assertion is required"
  let stepUp ← orFail (env.parseRFC3339Nano stepUpText) inactive
  require (now < stepUp ∧ stepUp ≤ now+15*minute) inactive
  let permissions ← parsePermissions permissionText
  let canonical := "\n".intercalate [r.method,r.escapedPath ++ canonicalQuery env r,timestampText,
    nonce,tenantID,actorID, ",".intercalate permissions,env.formatRFC3339Nano stepUp,
    hexEncode (env.crypto.sha256 body)]
  require (env.base64RawURLDecode signatureText =
      some (env.crypto.hmacSHA256 a.secret (utf8 canonical)))
    "invalid financial operator assertion"
  pure ⟨tenantID,actorID,permissions,stepUp⟩

/-- `ProxyAuthenticator.Authenticate`. -/
def ProxyAuthenticator.authenticate (now clock : ℤ) (r : Request) (body : Bytes)
    (nonces : NonceStore) : Except String ProxyPrincipal × NonceStore :=
  match a.check env now r body with
  | .error e => (.error e,nonces)
  | .ok principal =>
    let (consumed,nonces) := nonces.consume clock a.nonceKey (r.header.get "Financial-Nonce")
      (now+a.window)
    (if consumed then .ok principal else .error "financial operator assertion replayed",nonces)

end Ocrypt.Authentication
