import Ocrypt.JsonRecords
import Ocrypt.RangeChecks

/-! The manifests of a migration: a JSON document, the canonical text that two keys have signed, and
the manifest that is read from it. -/
namespace Ocrypt.Manifests
open Fallible JsonText JsonObjects JsonRecords
open Requests (Bytes utf8 hexEncode)
open RangeChecks (validID)

inductive MigrationError
  | invalid
  | signature
  | dependency
  deriving DecidableEq, Repr

def maxManifestBytes : ℕ := 512*1024

def maxInventoryItems : ℕ := 500000

def manifestDomain : String := "merchant-platform/migration-manifest/v1\n"

def isAlphanumeric (c : Char) : Bool :=
  ('A' ≤ c && c ≤ 'Z') || ('a' ≤ c && c ≤ 'z') || ('0' ≤ c && c ≤ '9')

def reference (punctuation : List Char) (more : ℕ) (text : String) : Bool :=
  match text.toList with
  | [] => false
  | first::rest =>
    isAlphanumeric first && rest.all (fun c => isAlphanumeric c || c ∈ punctuation) &&
      rest.length ≤ more

def safeReference : String → Bool := reference ['.','_',':','/','@','+','-'] 254

def hexDigest (text : String) : Bool :=
  text.toList.length = 64 && text.toList.all RangeChecks.isLowerHex

def forbiddenKeys : List String :=
  ["secret", "secrets", "password", "private_key", "private_key_pem", "token", "access_token",
    "refresh_token", "api_key", "api_secret", "credential", "credentials", "mnemonic", "seed"]

structure SourceDescriptor where
  (systemID buildID schemaVersion : String)
  (exportedAt windowStart windowEnd : ℤ)

structure InventoryItem where
  (sourceID digest : String)
  data : Option Json

inductive Group
  | merchants | configurations | assets | chains | rpcProviders | wallets | openOrders | paidOrders
  | expiredOrders | amountReservations | incomingTransfers | unmatchedTransfers | callbackBacklog
  | scannerCursors | providerOrders | onChainBalanceObservations
  deriving DecidableEq

def Group.name : Group → String
  | .merchants => "merchants"
  | .configurations => "configurations"
  | .assets => "assets"
  | .chains => "chains"
  | .rpcProviders => "rpc_providers"
  | .wallets => "wallets"
  | .openOrders => "open_orders"
  | .paidOrders => "paid_orders"
  | .expiredOrders => "expired_orders"
  | .amountReservations => "amount_reservations"
  | .incomingTransfers => "incoming_transfers"
  | .unmatchedTransfers => "unmatched_transfers"
  | .callbackBacklog => "callback_backlog"
  | .scannerCursors => "scanner_cursors"
  | .providerOrders => "provider_orders"
  | .onChainBalanceObservations => "on_chain_balance_observations"

def groups : List Group :=
  [.merchants,.configurations,.assets,.chains,.rpcProviders,.wallets,.openOrders,.paidOrders,
    .expiredOrders,.amountReservations,.incomingTransfers,.unmatchedTransfers,.callbackBacklog,
    .scannerCursors,.providerOrders,.onChainBalanceObservations]

abbrev Inventory := Group → Option (List InventoryItem)

structure CutoverEvidence where
  (balancesDigest openOrdersDigest paidOrdersDigest unmatchedDigest callbackBacklogDigest
    scannerCursorsDigest : String)
  rollbackDeadline : ℤ

structure DecommissionEvidence where
  backlogCount : ℤ
  (backlogExceptionRef archiveDigest restoreTestReference keyRevocationReference : String)

structure CanaryEvidence where
  percentage : ℤ
  (merchantIDs assetIDs : Option (List String))

structure Manifest where
  (schemaVersion manifestID migrationID tenantID kind profile : String)
  source : SourceDescriptor
  inventory : Option Inventory
  canary : Option CanaryEvidence
  cutover : Option CutoverEvidence
  decommission : Option DecommissionEvidence
  unexplainedDiffCount : ℤ
  warnings : Option (List String)

mutual

/-- What `decodeUnique` lets through: objects without an exact duplicate, of bounded depth, with
bounded keys, texts, numbers and lists. -/
def acceptable (depth : ℕ) : Json → Bool
  | .null => depth ≤ 64
  | .bool _ => depth ≤ 64
  | .num literal => depth ≤ 64 && literal.text.utf8ByteSize ≤ 128
  | .str text => depth ≤ 64 && text.utf8ByteSize ≤ 2^20 && Char.ofNat 0 ∉ text.toList
  | .arr items => depth ≤ 64 && items.length ≤ maxInventoryItems && acceptableItems (depth+1) items
  | .obj members =>
    depth ≤ 64 && decide ((members.map Prod.fst).Nodup) && acceptableMembers (depth+1) members

def acceptableItems (depth : ℕ) : List Json → Bool
  | [] => true
  | item::rest => acceptable depth item && acceptableItems depth rest

def acceptableMembers (depth : ℕ) : List (String × Json) → Bool
  | [] => true
  | (key,value)::rest =>
    key ≠ "" && key.utf8ByteSize ≤ 128 && acceptable depth value && acceptableMembers depth rest

end

/-- The canonical text and the value that it is written from: objects are maps, which are written
in the order of their keys. -/
def canonicalJSON (document : Json) : Except MigrationError (String × Json) := do
  require (acceptable 0 document = true) .invalid
  pure (compact (sorted document),sorted document)

section
variable (lower : Char → Char)

def forbiddenKey (key : String) : Bool :=
  let normalized := (key.toList.map fun c => if c = '-' then '_' else c).map lower
  (forbiddenKeys.any fun forbidden => forbidden.toList = normalized) ||
    ["_secret", "_token", "_private_key"].any fun ending => ending.toList <:+ normalized

mutual

def hasForbiddenKey : Json → Bool
  | .arr items => anyItemForbidden items
  | .obj members => anyMemberForbidden members
  | _ => false

def anyItemForbidden : List Json → Bool
  | [] => false
  | item::rest => hasForbiddenKey item || anyItemForbidden rest

def anyMemberForbidden : List (String × Json) → Bool
  | [] => false
  | (key,value)::rest =>
    forbiddenKey lower key || hasForbiddenKey value || anyMemberForbidden rest

end

end

section
variable (parseTime : String → Option ℤ)

def sourceFields : List String :=
  ["system_id", "build_id", "schema_version", "exported_at", "window_start", "window_end"]

variable (members : List (String × Json))

def readSource (old : SourceDescriptor) : Option SourceDescriptor := do
  let systemID ← readField sourceFields storeString "system_id" members old.systemID
  let buildID ← readField sourceFields storeString "build_id" members old.buildID
  let schemaVersion ← readField sourceFields storeString "schema_version" members old.schemaVersion
  let exportedAt ← readField sourceFields (storeTime parseTime) "exported_at" members old.exportedAt
  let windowStart ←
    readField sourceFields (storeTime parseTime) "window_start" members old.windowStart
  let windowEnd ← readField sourceFields (storeTime parseTime) "window_end" members old.windowEnd
  pure ⟨systemID,buildID,schemaVersion,exportedAt,windowStart,windowEnd⟩

def itemFields : List String := ["source_id", "digest", "data"]

def readItem (old : InventoryItem) : Option InventoryItem := do
  let sourceID ← readField itemFields storeString "source_id" members old.sourceID
  let digest ← readField itemFields storeString "digest" members old.digest
  let data ← readField itemFields storeRaw "data" members old.data
  pure ⟨sourceID,digest,data⟩

def storeItem : InventoryItem → Json → Option InventoryItem := record itemFields readItem

def zeroItem : InventoryItem := ⟨"","",none⟩

def inventoryFields : List String := groups.map Group.name

def readGroup (old : Inventory) (group : Group) : Option Inventory := do
  let items ← readField inventoryFields (storeList zeroItem storeItem) group.name members (old group)
  pure (Function.update old group items)

def readInventory (old : Inventory) : Option Inventory :=
  groups.foldlM (readGroup members) old

def cutoverFields : List String :=
  ["balances_digest", "open_orders_digest", "paid_orders_digest", "unmatched_digest",
    "callback_backlog_digest", "scanner_cursors_digest", "rollback_deadline"]

def readCutover (old : CutoverEvidence) : Option CutoverEvidence := do
  let balances ← readField cutoverFields storeString "balances_digest" members old.balancesDigest
  let openOrders ←
    readField cutoverFields storeString "open_orders_digest" members old.openOrdersDigest
  let paidOrders ←
    readField cutoverFields storeString "paid_orders_digest" members old.paidOrdersDigest
  let unmatched ←
    readField cutoverFields storeString "unmatched_digest" members old.unmatchedDigest
  let callbacks ←
    readField cutoverFields storeString "callback_backlog_digest" members old.callbackBacklogDigest
  let cursors ←
    readField cutoverFields storeString "scanner_cursors_digest" members old.scannerCursorsDigest
  let deadline ←
    readField cutoverFields (storeTime parseTime) "rollback_deadline" members old.rollbackDeadline
  pure ⟨balances,openOrders,paidOrders,unmatched,callbacks,cursors,deadline⟩

def decommissionFields : List String :=
  ["backlog_count", "backlog_exception_ref", "archive_digest", "restore_test_reference",
    "key_revocation_reference"]

def readDecommission (old : DecommissionEvidence) : Option DecommissionEvidence := do
  let backlog ← readField decommissionFields storeInt "backlog_count" members old.backlogCount
  let exceptionRef ←
    readField decommissionFields storeString "backlog_exception_ref" members old.backlogExceptionRef
  let archive ←
    readField decommissionFields storeString "archive_digest" members old.archiveDigest
  let restoreTest ← readField decommissionFields storeString "restore_test_reference" members
    old.restoreTestReference
  let revocation ← readField decommissionFields storeString "key_revocation_reference" members
    old.keyRevocationReference
  pure ⟨backlog,exceptionRef,archive,restoreTest,revocation⟩

def canaryFields : List String := ["percentage", "merchant_ids", "asset_ids"]

def readCanary (old : CanaryEvidence) : Option CanaryEvidence := do
  let percentage ← readField canaryFields storeInt "percentage" members old.percentage
  let merchantIDs ←
    readField canaryFields (storeList "" storeString) "merchant_ids" members old.merchantIDs
  let assetIDs ← readField canaryFields (storeList "" storeString) "asset_ids" members old.assetIDs
  pure ⟨percentage,merchantIDs,assetIDs⟩

def manifestFields : List String :=
  ["schema_version", "manifest_id", "migration_id", "tenant_id", "kind", "profile", "source",
    "inventory", "canary", "cutover", "decommission", "unexplained_diff_count", "warnings"]

def storeSource : SourceDescriptor → Json → Option SourceDescriptor :=
  record sourceFields (readSource parseTime)

def storeInventory : Option Inventory → Json → Option (Option Inventory) :=
  storePointer (fun _ => none) (record inventoryFields readInventory)

def storeCanary : Option CanaryEvidence → Json → Option (Option CanaryEvidence) :=
  storePointer ⟨0,none,none⟩ (record canaryFields readCanary)

def storeCutover : Option CutoverEvidence → Json → Option (Option CutoverEvidence) :=
  storePointer ⟨"","","","","","",0⟩ (record cutoverFields (readCutover parseTime))

def storeDecommission : Option DecommissionEvidence → Json → Option (Option DecommissionEvidence) :=
  storePointer ⟨0,"","","",""⟩ (record decommissionFields readDecommission)

def readManifest (old : Manifest) : Option Manifest := do
  let schemaVersion ←
    readField manifestFields storeString "schema_version" members old.schemaVersion
  let manifestID ← readField manifestFields storeString "manifest_id" members old.manifestID
  let migrationID ← readField manifestFields storeString "migration_id" members old.migrationID
  let tenantID ← readField manifestFields storeString "tenant_id" members old.tenantID
  let kind ← readField manifestFields storeString "kind" members old.kind
  let profile ← readField manifestFields storeString "profile" members old.profile
  let source ← readField manifestFields (storeSource parseTime) "source" members old.source
  let inventory ← readField manifestFields storeInventory "inventory" members old.inventory
  let canary ← readField manifestFields storeCanary "canary" members old.canary
  let cutover ← readField manifestFields (storeCutover parseTime) "cutover" members old.cutover
  let decommission ←
    readField manifestFields storeDecommission "decommission" members old.decommission
  let unexplainedDiffCount ←
    readField manifestFields storeInt "unexplained_diff_count" members old.unexplainedDiffCount
  let warnings ←
    readField manifestFields (storeList "" storeString) "warnings" members old.warnings
  pure ⟨schemaVersion,manifestID,migrationID,tenantID,kind,profile,source,inventory,canary,
    cutover,decommission,unexplainedDiffCount,warnings⟩

def zeroManifest : Manifest :=
  ⟨"","","","","","",⟨"","","",0,0,0⟩,none,none,none,none,0,none⟩

def decodeManifest (document : Json) : Option Manifest :=
  record manifestFields (readManifest parseTime) zeroManifest document

end

section
variable (lower : Char → Char)

def second : ℤ := 1000000000

def minute : ℤ := 60*second

def day : ℤ := 24*60*minute

def distinctAll (valid : String → Bool) (texts : List String) : Bool :=
  texts.all valid && decide texts.Nodup

def validCanary (value : CanaryEvidence) : Bool :=
  let merchantIDs := value.merchantIDs.getD []
  let assetIDs := value.assetIDs.getD []
  1 ≤ value.percentage && value.percentage ≤ 100 && 1 ≤ merchantIDs.length &&
    merchantIDs.length ≤ 10000 && 1 ≤ assetIDs.length && assetIDs.length ≤ 1000 &&
    distinctAll validID merchantIDs && distinctAll safeReference assetIDs

def inventoryComplete (value : Inventory) : Bool := groups.all fun group => (value group).isSome

def countInventory (value : Inventory) : ℕ :=
  (groups.map fun group => ((value group).getD []).length).sum

def validData : Json → Bool
  | .obj members => acceptable 0 (.obj members) && !hasForbiddenKey lower (sorted (.obj members))
  | _ => false

def validItem (item : InventoryItem) : Bool :=
  safeReference item.sourceID && hexDigest item.digest && item.data.all (validData lower)

def validateInventoryItems (inventory : Option Inventory) : Bool :=
  inventory.all fun value => groups.all fun group =>
    let items := (value group).getD []
    items.all (validItem lower) && decide ((items.map InventoryItem.sourceID).Nodup)

def validCutover (now : ℤ) (value : CutoverEvidence) : Bool :=
  hexDigest value.balancesDigest && hexDigest value.openOrdersDigest &&
    hexDigest value.paidOrdersDigest && hexDigest value.unmatchedDigest &&
    hexDigest value.callbackBacklogDigest && hexDigest value.scannerCursorsDigest &&
    now+30*minute < value.rollbackDeadline && value.rollbackDeadline < now+90*day

def validDecommission (value : DecommissionEvidence) : Bool :=
  value.backlogCount = 0 &&
    (value.backlogExceptionRef = "" || safeReference value.backlogExceptionRef) &&
    hexDigest value.archiveDigest && safeReference value.restoreTestReference &&
    safeReference value.keyRevocationReference

def validKind (now : ℤ) (m : Manifest) : Bool :=
  match m.kind with
  | "inventory" | "dry_run" =>
    m.inventory.any (fun value => inventoryComplete value && countInventory value ≤ maxInventoryItems) &&
      m.canary.isNone && m.cutover.isNone && m.decommission.isNone
  | "canary" =>
    m.inventory.isNone && m.canary.any validCanary && m.cutover.isNone && m.decommission.isNone
  | "cutover" =>
    m.inventory.isNone && m.canary.isNone && m.cutover.any (validCutover now) &&
      m.decommission.isNone
  | "decommission" =>
    m.inventory.isNone && m.canary.isNone && m.cutover.isNone &&
      m.decommission.any validDecommission
  | _ => false

def validSource (now : ℤ) (source : SourceDescriptor) : Bool :=
  safeReference source.systemID && safeReference source.buildID &&
    safeReference source.schemaVersion && source.exportedAt ≠ 0 && source.windowStart ≠ 0 &&
    source.windowEnd ≠ 0 && source.windowStart ≤ source.windowEnd &&
    source.windowEnd ≤ source.exportedAt && source.exportedAt ≤ now+10*minute

def profiles : List String := ["generic", "wallet_ledger", "json_md5", "form_md5"]

def validateManifest (now : ℤ) (m : Manifest) : Bool :=
  m.schemaVersion = "migration-manifest-v1" && validID m.manifestID && validID m.migrationID &&
    validID m.tenantID && validSource now m.source && 0 ≤ m.unexplainedDiffCount &&
    (m.warnings.getD []).length ≤ 1000 && m.profile ∈ profiles && validKind now m &&
    validateInventoryItems lower m.inventory

end

structure PublicKeyRing where
  entries : List (String × Bytes)
  distinct : (entries.map Prod.fst).Nodup

def PublicKeyRing.lookup (ring : PublicKeyRing) (id : String) : Option Bytes :=
  (ring.entries.find? fun entry => entry.1 = id).map Prod.snd

structure Signature where
  (keyID signature : String)

/-- Bytes of a request: their number, and the value if they are JSON. -/
structure RawDocument where
  size : ℕ
  value : Option Json

structure SignedManifest where
  manifest : RawDocument
  signatures : List Signature

structure Runtime where
  decodeBase64 : String → Option Bytes
  verify : Bytes → Bytes → Bytes → Bool
  sha256 : Bytes → Bytes
  parseTime : String → Option ℤ
  lower : Char → Char

section
variable (rt : Runtime) (ring : PublicKeyRing)

/-- The body of the loop over the signatures; the ids seen so far are the signers. -/
def checkSignature (message : Bytes) (signers : List String) (signature : Signature) :
    Except MigrationError (List String) := do
  require (signature.keyID ∉ signers ∧ safeReference signature.keyID = true) .signature
  let key ← orFail (ring.lookup signature.keyID) .signature
  let raw ← orFail (rt.decodeBase64 signature.signature) .signature
  require (raw.length = 64 ∧ rt.verify key message raw = true) .signature
  pure (signers ++ [signature.keyID])

def signedMessage (canonical : String) : Bytes := utf8 manifestDomain ++ utf8 canonical

structure Verified where
  manifest : Manifest
  (canonical digest : String)
  signers : List String

def parseAndVerify (now : ℤ) (document : SignedManifest) : Except MigrationError Verified := do
  require (0 < document.manifest.size ∧ document.manifest.size ≤ maxManifestBytes ∧
    2 ≤ ring.entries.length ∧ document.signatures.length = 2) .signature
  let value ← orFail document.manifest.value .invalid
  let (canonical,generic) ← canonicalJSON value
  require (hasForbiddenKey rt.lower generic = false) .invalid
  let manifest ← orFail (decodeManifest rt.parseTime value) .invalid
  require (validateManifest rt.lower now manifest = true) .invalid
  let signers ← traverse (checkSignature rt ring (signedMessage canonical)) document.signatures []
  pure ⟨manifest,canonical,hexEncode (rt.sha256 (utf8 canonical)),signers⟩

structure Body (now : ℤ) (raw : RawDocument) (value : Json) (m : Manifest) : Prop where
  size : 0 < raw.size ∧ raw.size ≤ maxManifestBytes
  holds : raw.value = some value
  unique : acceptable 0 value = true
  allowed : hasForbiddenKey rt.lower (sorted value) = false
  decoded : decodeManifest rt.parseTime value = some m
  valid : validateManifest rt.lower now m = true

variable {rt ring} {now : ℤ} {document : SignedManifest} {v : Verified}

lemma parseAndVerify_iff : parseAndVerify rt ring now document = .ok v ↔
    2 ≤ ring.entries.length ∧ document.signatures.length = 2 ∧
      ∃ value m signers, Body rt now document.manifest value m ∧
        traverse (checkSignature rt ring (signedMessage (compact (sorted value))))
          document.signatures [] = .ok signers ∧
        v = ⟨m,compact (sorted value),hexEncode (rt.sha256 (utf8 (compact (sorted value)))),
          signers⟩ := by
  simp only [parseAndVerify,canonicalJSON,do_ok,orFail_eq_ok]
  constructor
  · rintro ⟨⟨hp,hma,hk,hsi⟩,value,hva,_,⟨hac,rfl⟩,hal,m, hd,hvl,signers,hsg,rfl⟩
    exact ⟨hk,hsi,value,m,signers, ⟨⟨hp,hma⟩,hva,hac,hal,hd,hvl⟩,hsg,rfl⟩
  · rintro ⟨hk,hsi,value,m,signers,hbo,hsg,rfl⟩
    exact ⟨⟨hbo.size.1,hbo.size.2,hk,hsi⟩,value,hbo.holds,_,
      ⟨hbo.unique,rfl⟩,hbo.allowed,m,hbo.decoded,hbo.valid,signers,hsg,rfl⟩

end

end Ocrypt.Manifests
