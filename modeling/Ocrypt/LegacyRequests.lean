import Ocrypt.FieldText
import Ocrypt.JsonText
import Ocrypt.Requests
import Ocrypt.Table

/-! The requests of the legacy protocols: fields read from a JSON object or from an urlencoded text,
and the canonical text that their MD5 signature covers. -/
namespace Ocrypt.LegacyRequests
open Fallible FieldText JsonText Requests List

-- A condition on the elements of a list is decided on the list, also where the type is finite.
attribute [local instance (high)] List.decidableBAll

inductive Protocol
  | jsonMD5
  | formMD5
  deriving DecidableEq, Repr

/-- `ErrInvalid`, with what is written after it, the other errors of the package, and those of the
JSON encoder and of the database. -/
inductive LegacyError
  | invalid (detail : String)
  | unauthorized
  | notFound
  | unavailable
  | conflict
  | encoding
  | database
  deriving DecidableEq, Repr

/-- What the package takes from elsewhere: the documents that the JSON decoder reads as a whole,
the text of a number as a float of 64 bits, the cases of letters and the digests. -/
structure Runtime where
  decode : Bytes → Option Json
  formatFloat : String → Option String
  (toUpper toLower : Bytes → Bytes)
  equalFold : Bytes → Bytes → Bool
  (sha256 md5 : Bytes → Bytes)
  /-- The length of the body that the fields of a callback are written into. -/
  bodySize : Protocol → List (String × Bytes) → ℕ

@[ext]
structure Fields where
  entries : List (Bytes × Bytes)
  nodup : (entries.map Prod.fst).Nodup
  deriving DecidableEq

namespace Fields

def empty : Fields := ⟨[],List.nodup_nil⟩

def get (fields : Fields) (key : Bytes) : Bytes := (fields.entries.lookup key).getD []

def named (fields : Fields) (name : String) : Bytes := fields.get (utf8 name)

def add (fields : Fields) (key value : Bytes) : Option Fields :=
  if h : key ∉ fields.entries.map Prod.fst then
    some ⟨fields.entries ++ [(key,value)],by
      rw [List.map_append,List.map_singleton]
      exact List.nodup_append.mpr ⟨fields.nodup,List.nodup_singleton _,by
        intro a ha b hb
        rw [List.mem_singleton] at hb
        rintro rfl
        rw [hb] at ha
        exact h ha⟩⟩
  else none

end Fields

def maxLegacyBodyBytes : ℕ := 64*1024

def jsonMD5Fields : List Bytes :=
  ["pid", "order_id", "currency", "token", "network", "amount", "notify_url", "redirect_url", "name",
    "payment_type", "signature"].map utf8

def formMD5Fields : List Bytes :=
  ["pid", "money", "out_trade_no", "notify_url", "return_url", "name", "type", "token", "network",
    "currency", "sign", "sign_type"].map utf8

variable (rt : Runtime) (raw : Bytes) (values : Fields) (protocol : Protocol) (b : UInt8)

def isContinuation : Bool := 0x80 ≤ b && b ≤ 0xBF

/-- `utf8.Valid`: no overlong form, no surrogate, nothing above U+10FFFF. -/
def validUTF8 : Bytes → Bool
  | [] => true
  | [a] => a < 0x80
  | a::b::rest =>
    if a < 0x80 then validUTF8 (b::rest)
    else if 0xC2 ≤ a && a ≤ 0xDF then isContinuation b && validUTF8 rest
    else match rest with
      | [] => false
      | c::rest =>
        if 0xE0 ≤ a && a ≤ 0xEF then
          isContinuation b && isContinuation c && (a ≠ 0xE0 || 0xA0 ≤ b) && (a ≠ 0xED || b ≤ 0x9F) &&
            validUTF8 rest
        else match rest with
          | [] => false
          | d::rest =>
            0xF0 ≤ a && a ≤ 0xF4 && isContinuation b && isContinuation c && isContinuation d &&
              (a ≠ 0xF0 || 0x90 ≤ b) && (a ≠ 0xF4 || b ≤ 0x8F) && validUTF8 rest

def byte (c : Char) : UInt8 := UInt8.ofNat c.toNat

def isUpperHex : Bool :=
  (byte '0' ≤ b && b ≤ byte '9') || (byte 'A' ≤ b && b ≤ byte 'F')

def isUnreserved : Bool :=
  (byte 'a' ≤ b && b ≤ byte 'z') || (byte 'A' ≤ b && b ≤ byte 'Z') ||
    (byte '0' ≤ b && b ≤ byte '9') || b ∈ [byte '-',byte '.',byte '_',byte '~']

def hexByte (a b : UInt8) : Option UInt8 := do
  let high ← hexValue (Char.ofNat a.toNat)
  let low ← hexValue (Char.ofNat b.toNat)
  pure (UInt8.ofNat (16*high+low))

/-- The scan over percent signs: two upper digits after each, and not of an unreserved byte. -/
def validatePercent : Bytes → Except LegacyError Unit
  | [] => .ok ()
  | c::rest =>
    if c = byte '%' then
      match rest with
      | a::b::rest =>
        if isUpperHex a && isUpperHex b then
          if (hexByte a b).any isUnreserved then .error (.invalid "overencoded unreserved byte")
          else validatePercent rest
        else .error (.invalid "malformed percent encoding")
      | _ => .error (.invalid "malformed percent encoding")
    else validatePercent rest

def validateEncoded : Except LegacyError Unit := do
  require (∀ b ∈ raw, b ∉ [0,13,10,byte '#']) (.invalid "")
  validatePercent raw

/-- `url.QueryUnescape`. -/
def queryUnescape : Bytes → Option Bytes
  | [] => some []
  | c::rest =>
    if c = byte '%' then
      match rest with
      | a::b::rest => do
        let decoded ← hexByte a b
        let tail ← queryUnescape rest
        pure (decoded::tail)
      | _ => none
    else do
      let tail ← queryUnescape rest
      pure ((if c = byte '+' then byte ' ' else c)::tail)

/-- `strings.Cut` at an equals sign. -/
def cutEquals (piece : Bytes) : Bytes × Bytes :=
  (piece.takeWhile (· ≠ byte '='),(piece.dropWhile (· ≠ byte '=')).drop 1)

def queryPair (piece : Bytes) : Option (Option (Bytes × Bytes)) :=
  if byte ';' ∈ piece then none
  else if piece = [] then some none
  else do
    let key ← queryUnescape (cutEquals piece).1
    let value ← queryUnescape (cutEquals piece).2
    pure (some (key,value))

/-- `url.ParseQuery`. -/
def parseQuery : Option (List (Bytes × Bytes)) := do
  let pieces ← (raw.splitOn (byte '&')).mapM queryPair
  pure (pieces.filterMap id)

def addOnce (fields : Fields) (pair : Bytes × Bytes) : Except LegacyError Fields := do
  require (pair.1 ≠ []) (.invalid "duplicate field")
  orFail (fields.add pair.1 pair.2) (.invalid "duplicate field")

def parseEncoded : Except LegacyError Fields := do
  require (raw.length ≤ maxLegacyBodyBytes ∧ validUTF8 raw = true) (.invalid "")
  if raw = [] then pure Fields.empty
  else
    validateEncoded raw
    let pairs ← orFail (parseQuery raw) (.invalid "")
    pairs.foldlM addOnce Fields.empty

/-- The text of a scalar: a string, or a number that is written as a float of 64 bits is. -/
def scalarText (formatFloat : String → Option String) : Json → Except LegacyError Bytes
  | .str text => .ok (utf8 text)
  | .num literal =>
    match formatFloat literal.text with
    | none => .error (.invalid "")
    | some canonical =>
      if literal.text ≠ canonical then .error (.invalid "noncanonical JSON number")
      else .ok (utf8 canonical)
  | _ => .error (.invalid "scalar strings/numbers only")

def addMember (formatFloat : String → Option String) (fields : Fields) (member : String × Json) :
    Except LegacyError Fields := do
  require (member.1 ≠ "") (.invalid "")
  require (utf8 member.1 ∉ fields.entries.map Prod.fst) (.invalid "duplicate field")
  let value ← scalarText formatFloat member.2
  orFail (fields.add (utf8 member.1) value) (.invalid "duplicate field")

def parseJSONObject : Except LegacyError Fields := do
  require (raw ≠ [] ∧ raw.length ≤ maxLegacyBodyBytes ∧ validUTF8 raw = true) (.invalid "")
  match rt.decode raw with
  | some (.obj members) => members.foldlM (addMember rt.formatFloat) Fields.empty
  | _ => .error (.invalid "")

def exactFields (allowed : List Bytes) : Except LegacyError Unit :=
  require (∀ f ∈ values.entries, f.1 ∈ allowed) (.invalid "unknown field")

structure CreateRequest where
  protocol : Protocol
  (pid orderID amount currency token network paymentType name notifyURL returnURL signature
    canonical canonicalHash : Bytes)
  deriving DecidableEq

def unsigned : Protocol → List Bytes
  | .jsonMD5 => ["signature"].map utf8
  | .formMD5 => ["sign", "sign_type"].map utf8

def signedEntries : List (Bytes × Bytes) :=
  (values.entries.filter fun f => f.2 ≠ [] ∧ f.1 ∉ unsigned protocol).insertionSort
    fun a b => a.1 ≤ b.1

def canonical : Except LegacyError Bytes := do
  let signed := signedEntries values protocol
  require (∀ f ∈ signed, ∀ b ∈ f.1 ++ f.2, b ∉ [0,13,10]) (.invalid "")
  pure (join (byte '&') (byte '=') signed)

def signatureKey : Protocol → String
  | .jsonMD5 => "signature"
  | .formMD5 => "sign"

def amountKey : Protocol → String
  | .jsonMD5 => "amount"
  | .formMD5 => "money"

def orderKey : Protocol → String
  | .jsonMD5 => "order_id"
  | .formMD5 => "out_trade_no"

def returnKey : Protocol → String
  | .jsonMD5 => "redirect_url"
  | .formMD5 => "return_url"

def requiredKeys : List String :=
  ["pid",orderKey protocol,amountKey protocol, "notify_url",signatureKey protocol]

def requireKeys : Except LegacyError Unit :=
  match (requiredKeys protocol).find? (values.named · = []) with
  | none => .ok ()
  | some key => .error (.invalid ("missing " ++ key))

def buildRequest (values : Fields) : Except LegacyError CreateRequest := do
  require (protocol = .formMD5 → values.named "sign_type" = [] ∨
    values.named "sign_type" = utf8 "MD5") (.invalid "sign_type")
  requireKeys values protocol
  require ((values.named (orderKey protocol)).length ≤ 128 ∧ (values.named "pid").length ≤ 128 ∧
    (values.named "name").length ≤ 2048) (.invalid "")
  let text ← canonical values protocol
  let request : CreateRequest := {
    protocol := protocol
    pid := values.named "pid"
    orderID := values.named (orderKey protocol)
    amount := values.named (amountKey protocol)
    currency := rt.toUpper (values.named "currency")
    token := rt.toUpper (values.named "token")
    network := rt.toLower (values.named "network")
    paymentType := values.named "type"
    name := values.named "name"
    notifyURL := values.named "notify_url"
    returnURL := values.named (returnKey protocol)
    signature := values.named (signatureKey protocol)
    canonical := text
    canonicalHash := rt.sha256 text }
  require (validUTF8 (request.orderID ++ request.name ++ request.notifyURL ++ request.returnURL) =
    true) (.invalid "")
  pure request

variable (contentType : String)

def mediaType : String :=
  trimSpace (String.ofList (contentType.toList.takeWhile (· ≠ ';')))

def readJSONBody (raw : Bytes) : Except LegacyError Fields :=
  if mediaType contentType = "application/json" then parseJSONObject rt raw
  else if mediaType contentType = "application/x-www-form-urlencoded" then parseEncoded raw
  else .error (.invalid "unsupported content type")

def readJSONMD5 (raw : Bytes) : Except LegacyError Fields := do
  let values ← readJSONBody rt contentType raw
  exactFields values jsonMD5Fields
  pure values

def parseJSONMD5 (raw : Bytes) : Except LegacyError CreateRequest := do
  let values ← readJSONMD5 rt contentType raw
  buildRequest rt .jsonMD5 values

def addBody (pair : Bytes × Bytes) : Except LegacyError Fields :=
  orFail (values.add pair.1 pair.2) (.invalid "query/body collision")

/-- The fields of the query together with those of the body, if there is one. -/
def mergeBody (queryValues : Fields) (contentType : String) (raw : Bytes) :
    Except LegacyError Fields :=
  if raw = [] then .ok queryValues
  else do
    require (mediaType contentType = "application/x-www-form-urlencoded")
      (.invalid "unsupported content type")
    let form ← parseEncoded raw
    form.entries.foldlM addBody queryValues

def readFormMD5 (query : Bytes) (contentType : String) (raw : Bytes) :
    Except LegacyError Fields := do
  let queryValues ← parseEncoded query
  let values ← mergeBody queryValues contentType raw
  exactFields values formMD5Fields
  pure values

def parseFormMD5 (query : Bytes) (contentType : String) (raw : Bytes) :
    Except LegacyError CreateRequest := do
  let values ← readFormMD5 query contentType raw
  buildRequest rt .formMD5 values

def signMD5 (canonical secret : Bytes) : String := hexEncode (rt.md5 (canonical ++ secret))

def verifyMD5 (canonical received secret : Bytes) : Bool :=
  received.length = 32 && received = utf8 (signMD5 rt canonical secret)

namespace Fields
variable {fields : Fields} {key value : Bytes}

lemma mem_iff_lookup (entries : List (Bytes × Bytes)) (h : (entries.map Prod.fst).Nodup) :
    (key,value) ∈ entries ↔ entries.lookup key = some value := by
  induction entries with
  | nil => simp
  | cons entry entries ih =>
    obtain ⟨k,v⟩ := entry
    rw [map_cons,nodup_cons] at h
    rw [mem_cons,lookup_cons,ih h.2]
    by_cases hke : key = k
    · subst hke
      have hno : entries.lookup key ≠ some value := by
        intro hl
        exact h.1 (mem_map.mpr ⟨(key,value),(ih h.2).mpr hl,rfl⟩)
      simp [hno,eq_comm]
    · simp [hke,beq_eq_false_iff_ne.mpr hke]

lemma get_of_mem (h : (key,value) ∈ fields.entries) : fields.get key = value := by
  unfold get
  rw [(mem_iff_lookup _ fields.nodup).mp h]
  rfl

lemma mem_of_get (h : fields.get key ≠ []) : (key,fields.get key) ∈ fields.entries := by
  rw [mem_iff_lookup _ fields.nodup]
  unfold get at h ⊢
  cases hl : fields.entries.lookup key with
  | none =>
    rw [hl] at h
    exact absurd rfl h
  | some value => rfl

end Fields

def allowedFields : Protocol → List Bytes
  | .jsonMD5 => jsonMD5Fields
  | .formMD5 => formMD5Fields

def signedFields : List Bytes :=
  (allowedFields protocol).filter (· ∉ unsigned protocol)

/-- A request that the parser of its protocol accepts, with the fields that it was read from. -/
inductive Accepted (rt : Runtime) : Protocol → Fields → CreateRequest → Prop
  | json {values : Fields} {request : CreateRequest} (contentType : String) (raw : Bytes)
      (hread : readJSONMD5 rt contentType raw = .ok values)
      (hbuild : buildRequest rt .jsonMD5 values = .ok request) : Accepted rt .jsonMD5 values request
  | form {values : Fields} {request : CreateRequest} (query : Bytes) (contentType : String)
      (raw : Bytes) (hread : readFormMD5 query contentType raw = .ok values)
      (hbuild : buildRequest rt .formMD5 values = .ok request) : Accepted rt .formMD5 values request

section
variable {rt : Runtime} {protocol : Protocol} {values values' : Fields}
  {request request' : CreateRequest} {field : Bytes × Bytes} {key : Bytes}

lemma mem_signedEntries : field ∈ signedEntries values protocol ↔
    field.2 ≠ [] ∧ field.1 ∉ unsigned protocol ∧ values.get field.1 = field.2 := by
  unfold signedEntries
  rw [mem_insertionSort,mem_filter,decide_eq_true_eq]
  constructor
  · rintro ⟨hm,hne,hsi⟩
    exact ⟨hne,hsi,Fields.get_of_mem hm⟩
  · rintro ⟨hne,hsi,hg⟩
    rw [← hg] at hne
    have hm := Fields.mem_of_get hne
    rw [hg] at hm hne
    exact ⟨hm,hne,hsi⟩

lemma signedEntries_nodup (values : Fields) (protocol : Protocol) :
    ((signedEntries values protocol).map Prod.fst).Nodup := by
  have hp := perm_insertionSort (fun a b : Bytes × Bytes => a.1 ≤ b.1)
    (values.entries.filter fun f => f.2 ≠ [] ∧ f.1 ∉ unsigned protocol)
  exact (hp.map _).nodup_iff.mpr ((filter_sublist.map _).nodup values.nodup)

instance : Std.Total fun a b : Bytes × Bytes => a.1 ≤ b.1 := ⟨fun a b => List.le_total a.1 b.1⟩

instance : IsTrans (Bytes × Bytes) fun a b => a.1 ≤ b.1 := ⟨fun _ _ _ h h' => List.le_trans h h'⟩

lemma signedEntries_sorted (values : Fields) (protocol : Protocol) :
    ((signedEntries values protocol).map Prod.fst).Pairwise (· ≤ ·) :=
  pairwise_map.mpr (pairwise_insertionSort (fun a b : Bytes × Bytes => a.1 ≤ b.1) _)

lemma signedEntries_keys
    (h : ∀ key, key ∉ unsigned protocol → (values.get key = [] ↔ values'.get key = [])) :
    (signedEntries values protocol).map Prod.fst = (signedEntries values' protocol).map Prod.fst := by
  have hm : ∀ v : Fields, ∀ key, key ∈ (signedEntries v protocol).map Prod.fst ↔
      key ∉ unsigned protocol ∧ v.get key ≠ [] := by
    intro v key
    rw [List.mem_map]
    constructor
    · rintro ⟨field,hf,rfl⟩
      obtain ⟨hne,hsi,hg⟩ := mem_signedEntries.mp hf
      exact ⟨hsi,by rwa [hg]⟩
    · rintro ⟨hsi,hne⟩
      exact ⟨(key,v.get key),mem_signedEntries.mpr ⟨hne,hsi,rfl⟩,rfl⟩
  have hp : ((signedEntries values protocol).map Prod.fst).Perm
      ((signedEntries values' protocol).map Prod.fst) := by
    rw [List.perm_ext_iff_of_nodup (signedEntries_nodup _ _) (signedEntries_nodup _ _)]
    intro key
    rw [hm,hm]
    exact and_congr_right fun hsi => not_congr (h key hsi)
  exact hp.eq_of_pairwise (fun a b _ _ hab hba => List.le_antisymm hab hba)
    (signedEntries_sorted _ _) (signedEntries_sorted _ _)

lemma map_value_signedEntries {β : Type} (g : Bytes → β) :
    (signedEntries values protocol).map (fun f => g f.2) =
      ((signedEntries values protocol).map Prod.fst).map fun key => g (values.get key) := by
  rw [map_map]
  apply map_congr_left
  intro field hfi
  rw [Function.comp_apply,(mem_signedEntries.mp hfi).2.2]

lemma get_eq_of_signedEntries (h : signedEntries values protocol = signedEntries values' protocol)
    (hk : key ∉ unsigned protocol) : values.get key = values'.get key := by
  by_cases hne : values.get key = []
  · by_contra ho
    have hne' : values'.get key ≠ [] := fun h' => ho (hne.trans h'.symm)
    have hm : (key,values'.get key) ∈ signedEntries values' protocol :=
      mem_signedEntries.mpr ⟨hne',hk,rfl⟩
    rw [← h] at hm
    exact ho (mem_signedEntries.mp hm).2.2
  · have hm : (key,values.get key) ∈ signedEntries values protocol :=
      mem_signedEntries.mpr ⟨hne,hk,rfl⟩
    rw [h] at hm
    exact (mem_signedEntries.mp hm).2.2.symm

lemma requireKeys_eq_ok {u : Unit} : requireKeys values protocol = .ok u ↔
    ∀ key ∈ requiredKeys protocol, values.named key ≠ [] := by
  unfold requireKeys
  split
  · rename_i hf
    simpa using hf
  · rename_i key hf
    obtain ⟨hk,he⟩ := Table.mem_of_find? hf
    exact iff_of_false nofun fun hal => hal key hk he

lemma buildRequest_spec (h : buildRequest rt protocol values = .ok request) :
    canonical values protocol = .ok request.canonical ∧
      ∀ key ∈ requiredKeys protocol, values.named key ≠ [] := by
  simp only [buildRequest,do_ok,requireKeys_eq_ok,require_eq_ok,exists_const] at h
  obtain ⟨-,hk,-,text,hte,-,rfl⟩ := h
  exact ⟨hte,hk⟩

lemma accepted_spec (h : Accepted rt protocol values request) :
    (∀ f ∈ values.entries, f.1 ∈ allowedFields protocol) ∧
      canonical values protocol = .ok request.canonical ∧
      ∀ key ∈ requiredKeys protocol, values.named key ≠ [] := by
  cases h with
  | json contentType raw hr hbu =>
    simp only [readJSONMD5,exactFields,do_ok] at hr
    obtain ⟨_,-,hk,rfl⟩ := hr
    exact ⟨hk,buildRequest_spec hbu⟩
  | form query contentType raw hr hbu =>
    simp only [readFormMD5,exactFields,do_ok] at hr
    obtain ⟨_,-,_,-,hk,rfl⟩ := hr
    exact ⟨hk,buildRequest_spec hbu⟩

lemma get_eq_nil (h : ∀ f ∈ values.entries, f.1 ∈ allowedFields protocol)
    (hk : key ∉ unsigned protocol) (hu : key ∉ signedFields protocol) : values.get key = [] := by
  by_contra hne
  have hal := h _ (Fields.mem_of_get hne)
  exact hu (mem_filter.mpr ⟨hal,by simpa using hk⟩)

lemma canonical_eq (h : canonical values protocol = .ok request.canonical) :
    request.canonical = join (byte '&') (byte '=') (signedEntries values protocol) := by
  simp only [canonical,do_ok] at h
  exact h.2.symm

lemma signedFields_plain : ∀ protocol, ∀ key ∈ signedFields protocol,
    byte '&' ∉ key ∧ byte '=' ∉ key := by
  intro protocol
  cases protocol <;> decide +kernel

lemma free_signedEntries (hk : ∀ f ∈ values.entries, f.1 ∈ allowedFields protocol)
    (hv : ∀ key ∈ signedFields protocol, byte '&' ∉ values.get key) :
    Free (byte '&') (byte '=') (signedEntries values protocol) := by
  intro field hfi
  obtain ⟨hne,hsi,hg⟩ := mem_signedEntries.mp hfi
  have hke : field.1 ∈ signedFields protocol := by
    by_contra hu
    exact hne (hg.symm.trans (get_eq_nil hk hsi hu))
  obtain ⟨ham,he⟩ := signedFields_plain protocol field.1 hke
  exact ⟨ham,hg ▸ hv field.1 hke,he⟩

lemma signedEntries_ne_nil (h : ∀ key ∈ requiredKeys protocol, values.named key ≠ []) :
    signedEntries values protocol ≠ [] := by
  have hsi : utf8 "pid" ∉ unsigned protocol := by
    cases protocol <;> decide +kernel
  have hm : (utf8 "pid",values.named "pid") ∈ signedEntries values protocol :=
    mem_signedEntries.mpr ⟨h "pid" mem_cons_self,hsi,rfl⟩
  exact ne_nil_of_mem hm

def SameFields (protocol : Protocol) (values values' : Fields) : Prop :=
  ∀ key ∈ signedFields protocol, values.get key = values'.get key

lemma sameFields_of_signedEntries
    (h : signedEntries values protocol = signedEntries values' protocol) :
    SameFields protocol values values' := by
  intro key hk
  obtain ⟨-,hsi⟩ := mem_filter.mp hk
  exact get_eq_of_signedEntries h (by simpa using hsi)

/-- Two accepted requests with one canonical text have the same signed fields exactly if the fields
have the same lengths. If no signed value of the one holds an ampersand, that is so exactly if none
of the other does. -/
theorem canonical_binds_iff (h : Accepted rt protocol values request)
    (h' : Accepted rt protocol values' request') (htext : request.canonical = request'.canonical) :
    (SameFields protocol values values' ↔ ∀ key ∈ signedFields protocol,
      (values.get key).length = (values'.get key).length) ∧
    ((∀ key ∈ signedFields protocol, byte '&' ∉ values.get key) →
      (SameFields protocol values values' ↔
        ∀ key ∈ signedFields protocol, byte '&' ∉ values'.get key)) := by
  obtain ⟨hk,hca,hke⟩ := accepted_spec h
  obtain ⟨hk',hca',hke'⟩ := accepted_spec h'
  rw [canonical_eq hca,canonical_eq hca'] at htext
  refine ⟨⟨fun hsame key hky => by rw [hsame key hky],fun hle => ?_⟩,fun hp =>
    ⟨fun hsame key hky => hsame key hky ▸ hp key hky,fun hp' => ?_⟩⟩
  · have hl : ∀ key, key ∉ unsigned protocol →
        (values.get key).length = (values'.get key).length := by
      intro key hky
      by_cases hsi : key ∈ signedFields protocol
      · exact hle key hsi
      · rw [get_eq_nil hk hky hsi,get_eq_nil hk' hky hsi]
    have he : ∀ key, key ∉ unsigned protocol → (values.get key = [] ↔ values'.get key = []) := by
      intro key hky
      rw [← length_eq_zero_iff,← length_eq_zero_iff,hl key hky]
    have hn := signedEntries_keys he
    apply sameFields_of_signedEntries
    apply join_inj_of_lengths hn _ htext
    rw [map_value_signedEntries,map_value_signedEntries,hn]
    apply map_congr_left
    intro key hky
    obtain ⟨field,hf,rfl⟩ := mem_map.mp hky
    exact hl _ (mem_signedEntries.mp hf).2.1
  · apply sameFields_of_signedEntries
    exact join_inj_of_free (by decide) (signedEntries_ne_nil hke) (signedEntries_ne_nil hke')
      (free_signedEntries hk hp) (free_signedEntries hk' hp') htext

end

def sampleRuntime : Runtime := ⟨fun _ => none,some,id,id,fun a b => a = b,id,id,fun _ _ => 1⟩

def encodedType : String := "application/x-www-form-urlencoded"

def sampleBody : String :=
  "pid=1&order_id=7&amount=10&notify_url=u&name=a&network=tron&signature=s"

def sampleSplitBody : String :=
  "pid=1&order_id=7&amount=10&notify_url=u&name=a%26network%3Dtron&signature=s"

def sampleQuery : String :=
  "pid=1&out_trade_no=7&money=10&notify_url=u&name=a&network=tron&sign=s"

def sampleSplitQuery : String :=
  "pid=1&out_trade_no=7&money=10&notify_url=u&name=a%26network%3Dtron&sign=s"

theorem canonical_binds_iff_sample : ∃ values request, Accepted sampleRuntime .jsonMD5 values request ∧
    request.canonical = utf8 "amount=10&name=a&network=tron&notify_url=u&order_id=7&pid=1" ∧
    ∀ values', Accepted sampleRuntime .jsonMD5 values' request →
      (∀ key ∈ signedFields .jsonMD5, byte '&' ∉ values'.get key) →
        SameFields .jsonMD5 values values' := by
  obtain ⟨values,hr,request,hbu,hte,hp⟩ : ∃ values,
      readJSONMD5 sampleRuntime encodedType (utf8 sampleBody) = .ok values ∧
      ∃ request, buildRequest sampleRuntime .jsonMD5 values = .ok request ∧
        request.canonical = utf8 "amount=10&name=a&network=tron&notify_url=u&order_id=7&pid=1" ∧
        ∀ key ∈ signedFields .jsonMD5, byte '&' ∉ values.get key := by
    decide +kernel
  have hac := Accepted.json encodedType _ hr hbu
  refine ⟨values,request,hac,hte,fun values' hac' hp' => ?_⟩
  exact ((canonical_binds_iff hac hac' rfl).2 hp).mpr hp'

/-- One canonical text for two names, one of which holds the network of the other request. -/
abbrev Splits (request request' : CreateRequest) : Prop :=
  request.canonical = request'.canonical ∧ request.name = utf8 "a" ∧
    request'.name = utf8 "a&network=tron" ∧ request.network = utf8 "tron" ∧ request'.network = []

abbrev SplitsUnder (protocol : Protocol) : Prop :=
  ∃ values values' request request', Accepted sampleRuntime protocol values request ∧
    Accepted sampleRuntime protocol values' request' ∧ Splits request request'

/-- In both protocols a name that holds an ampersand has the canonical text, and so the signature
and the digest, of a request with a network. -/
theorem name_splits_into_network : SplitsUnder .jsonMD5 ∧ SplitsUnder .formMD5 := by
  constructor
  · obtain ⟨values,hr,request,hbu,values',hr',request',hbu',hsame⟩ : ∃ values,
        readJSONMD5 sampleRuntime encodedType (utf8 sampleBody) = .ok values ∧
        ∃ request, buildRequest sampleRuntime .jsonMD5 values = .ok request ∧ ∃ values',
        readJSONMD5 sampleRuntime encodedType (utf8 sampleSplitBody) = .ok values' ∧
        ∃ request', buildRequest sampleRuntime .jsonMD5 values' = .ok request' ∧
          Splits request request' := by
      decide +kernel
    exact ⟨values,values',request,request',.json _ _ hr hbu,.json _ _ hr' hbu',hsame⟩
  · obtain ⟨values,hr,request,hbu,values',hr',request',hbu',hsame⟩ : ∃ values,
        readFormMD5 (utf8 sampleQuery) "" [] = .ok values ∧
        ∃ request, buildRequest sampleRuntime .formMD5 values = .ok request ∧ ∃ values',
        readFormMD5 (utf8 sampleSplitQuery) "" [] = .ok values' ∧
        ∃ request', buildRequest sampleRuntime .formMD5 values' = .ok request' ∧
          Splits request request' := by
      decide +kernel
    exact ⟨values,values',request,request',.form _ _ _ hr hbu,.form _ _ _ hr' hbu',hsame⟩

end Ocrypt.LegacyRequests
