import Ocrypt.Manifests

/-! What two keys have signed against what is executed. The signatures are over the canonical text of
a manifest, whose objects are sorted; the manifest is decoded from the raw text, where a later key
overwrites an earlier one that has the same letters. -/
namespace Ocrypt.SignedManifests
open Fallible JsonText JsonObjects JsonRecords Manifests
open Requests (Bytes)

def normalItem (item : InventoryItem) : InventoryItem :=
  { item with data := item.data.map sorted }

def normalInventory (inventory : Inventory) : Inventory :=
  fun group => (inventory group).map (List.map normalItem)

def normalManifest (m : Manifest) : Manifest :=
  { m with inventory := m.inventory.map normalInventory }

def isData (key : String) : Bool := fold key = fold "data"

lemma isData_fold (key key' : String) (h : fold key = fold key') : isData key = isData key' := by
  rw [isData,isData,h]

def Distinguished (raw : RawDocument) : Prop :=
  ∀ value ∈ raw.value, unambiguous isData value = true

section
variable {parseTime : String → Option ℤ} {members : List (String × Json)} {j : Json}

lemma nodup_of_unambiguous (h : unambiguous isData (.obj members) = true) :
    (members.map fun m => fold m.1).Nodup :=
  (unambiguous_obj_iff.mp h).1

section
variable (h : (members.map fun m => fold m.1).Nodup)
include h

lemma readSource_inOrder (old : SourceDescriptor) :
    readSource parseTime (inOrder members) old = readSource parseTime members old := by
  simp [readSource,readField_plain h fun j _ => storeString_plain j,
    readField_plain h fun j _ => storeTime_plain parseTime j]

lemma readCutover_inOrder (old : CutoverEvidence) :
    readCutover parseTime (inOrder members) old = readCutover parseTime members old := by
  simp [readCutover,readField_plain h fun j _ => storeString_plain j,
    readField_plain h fun j _ => storeTime_plain parseTime j]

lemma readDecommission_inOrder (old : DecommissionEvidence) :
    readDecommission (inOrder members) old = readDecommission members old := by
  simp [readDecommission,readField_plain h fun j _ => storeString_plain j,
    readField_plain h fun j _ => storeInt_plain j]

end

lemma storeStrings_plain (j : Json) : Plain (storeList "" storeString) j :=
  storeList_plain j storeString_plain

lemma readCanary_inOrder (h : (members.map fun m => fold m.1).Nodup) (old : CanaryEvidence) :
    readCanary (inOrder members) old = readCanary members old := by
  simp [readCanary,readField_plain h fun j _ => storeInt_plain j,
    readField_plain h fun j _ => storeStrings_plain j]

lemma readItem_inOrder (h : (members.map fun m => fold m.1).Nodup) (old : InventoryItem) :
    readItem (inOrder members) (normalItem old) = (readItem members old).map normalItem := by
  have hd : readField itemFields storeRaw "data" (inOrder members) (old.data.map sorted) =
      (readField itemFields storeRaw "data" members old.data).map (Option.map sorted) :=
    readField_respects h (fun j _ => storeRaw_respects j) old.data
  simp only [readItem,normalItem,readField_plain h fun j _ => storeString_plain j,hd]
  apply bind_same
  intro sourceID
  apply bind_same
  intro digest
  apply bind_normal
  intro data
  rfl

lemma storeItem_respects (h : unambiguous isData j = true) : Respects normalItem storeItem j := by
  apply record_respects
  intro members hj old
  subst hj
  exact readItem_inOrder (nodup_of_unambiguous h) old

lemma normalInventory_update (inventory : Inventory) (group : Group)
    (items : Option (List InventoryItem)) :
    normalInventory (Function.update inventory group items) =
      Function.update (normalInventory inventory) group (items.map (List.map normalItem)) := by
  funext g
  by_cases hg : g = group
  · subst hg
    simp [normalInventory]
  · simp [normalInventory,hg]

lemma isData_group (group : Group) : isData group.name = false := by
  cases group <;> decide +kernel

lemma readGroup_inOrder (h : unambiguous isData (.obj members) = true) (old : Inventory)
    (group : Group) : readGroup (inOrder members) (normalInventory old) group =
      (readGroup members old group).map normalInventory := by
  have hi : ∀ j ∈ valuesOf inventoryFields group.name members,
      Respects (Option.map (List.map normalItem)) (storeList zeroItem storeItem) j := by
    intro j hj
    have hv := unambiguous_of_mem_valuesOf isData_fold h (isData_group group) hj
    apply storeList_respects rfl
    intro items hj item hit
    subst hj
    exact storeItem_respects (unambiguous_arr_iff.mp hv item hit)
  have hr := readField_respects (nodup_of_unambiguous h) hi (old group)
  rw [readGroup,readGroup,normalInventory,hr]
  cases readField inventoryFields (storeList zeroItem storeItem) group.name members (old group) with
  | none => rfl
  | some items => exact congrArg some (normalInventory_update old group items).symm

lemma readInventory_inOrder (h : unambiguous isData (.obj members) = true) (old : Inventory) :
    readInventory (inOrder members) (normalInventory old) =
      (readInventory members old).map normalInventory := by
  unfold readInventory
  generalize groups = remaining
  induction remaining generalizing old with
  | nil => rfl
  | cons group rest ih =>
    rw [List.foldlM_cons,List.foldlM_cons,readGroup_inOrder h old group]
    cases readGroup members old group with
    | none => rfl
    | some next => exact ih next

lemma storeInventory_respects (h : unambiguous isData j = true) :
    Respects (Option.map normalInventory) storeInventory j := by
  apply storePointer_respects rfl
  apply record_respects
  intro members hj old
  subst hj
  exact readInventory_inOrder h old

lemma storePointer_plain {σ : Type} {zero : σ} {names : List String}
    {read : List (String × Json) → σ → Option σ}
    (hre : ∀ members, (members.map fun m => fold m.1).Nodup →
      ∀ old, read (inOrder members) old = read members old)
    (h : unambiguous isData j = true) : Plain (storePointer zero (record names read)) j := by
  have hr : Plain (record names read) j := by
    apply record_plain
    intro members hj old
    subst hj
    exact hre members (nodup_of_unambiguous h) old
  have hp : Respects (Option.map id) (storePointer zero (record names read)) j :=
    storePointer_respects rfl j (respects_id.mpr hr)
  rw [Option.map_id_fun] at hp
  exact respects_id.mp hp

lemma storeSource_plain (h : unambiguous isData j = true) : Plain (storeSource parseTime) j := by
  apply record_plain
  intro members hj old
  subst hj
  exact readSource_inOrder (nodup_of_unambiguous h) old

lemma readManifest_inOrder (h : unambiguous isData (.obj members) = true) (old : Manifest) :
    readManifest parseTime (inOrder members) (normalManifest old) =
      (readManifest parseTime members old).map normalManifest := by
  have hn := nodup_of_unambiguous h
  have ho : ∀ name, isData name = false → ∀ j ∈ valuesOf manifestFields name members,
      unambiguous isData j = true :=
    fun name hna j hj => unambiguous_of_mem_valuesOf isData_fold h hna hj
  have hp : ∀ {α : Type} (store : α → Json → Option α) (name : String), isData name = false →
      (∀ j, unambiguous isData j = true → Plain store j) → ∀ value,
      readField manifestFields store name (inOrder members) value =
        readField manifestFields store name members value :=
    fun _ name hna hst => readField_plain hn fun j hj => hst j (ho name hna j hj)
  have hso := hp (storeSource parseTime) "source" (by decide +kernel) fun _ => storeSource_plain
  have hi : readField manifestFields storeInventory "inventory" (inOrder members)
      (old.inventory.map normalInventory) =
      (readField manifestFields storeInventory "inventory" members old.inventory).map
        (Option.map normalInventory) :=
    readField_respects hn
      (fun j hj => storeInventory_respects (ho _ (by decide +kernel) j hj)) old.inventory
  have hca := hp storeCanary "canary" (by decide +kernel) fun _ =>
    storePointer_plain fun _ hm => readCanary_inOrder hm
  have hcu := hp (storeCutover parseTime) "cutover" (by decide +kernel) fun _ =>
    storePointer_plain fun _ hm => readCutover_inOrder hm
  have hd := hp storeDecommission "decommission" (by decide +kernel) fun _ =>
    storePointer_plain fun _ hm => readDecommission_inOrder hm
  simp only [readManifest,normalManifest,hso,hi,hca,hcu,hd,
    readField_plain hn fun j _ => storeString_plain j,
    readField_plain hn fun j _ => storeInt_plain j,
    readField_plain hn fun j _ => storeStrings_plain j]
  iterate 7
    apply bind_same
    intro _
  apply bind_normal
  intro inventory
  iterate 5
    apply bind_same
    intro _
  rfl

lemma decodeManifest_sorted (h : unambiguous isData j = true) :
    decodeManifest parseTime (sorted j) = (decodeManifest parseTime j).map normalManifest := by
  have hr : Respects normalManifest (record manifestFields (readManifest parseTime)) j := by
    apply record_respects
    intro members hj old
    subst hj
    exact readManifest_inOrder h old
  exact hr zeroManifest

end

/-- Two verified documents with one canonical text hold one manifest, if the keys of one of them
are told apart by their letters. -/
theorem signed_is_executed (rt : Runtime) (ring ring' : PublicKeyRing) (now now' : ℤ)
    (document document' : SignedManifest) (v v' : Verified)
    (h : parseAndVerify rt ring now document = .ok v)
    (h' : parseAndVerify rt ring' now' document' = .ok v')
    (hletters : Distinguished document.manifest) (hcanonical : v.canonical = v'.canonical) :
    normalManifest v.manifest = normalManifest v'.manifest := by
  obtain ⟨_,_,value,m,_,hbo,_,rfl⟩ := parseAndVerify_iff.mp h
  obtain ⟨_,_,value',m',_,hbo',_,rfl⟩ := parseAndVerify_iff.mp h'
  -- equal texts are texts of one sorted value, which has the ambiguities of both documents
  have hso := compact_injective hcanonical
  have hcl := hletters value hbo.holds
  have hcl' : unambiguous isData value' = true := by
    rw [← unambiguous_sorted,← hso,unambiguous_sorted]
    exact hcl
  have hr : decodeManifest rt.parseTime (sorted value) = _ := decodeManifest_sorted hcl
  have hr' : decodeManifest rt.parseTime (sorted value') = _ := decodeManifest_sorted hcl'
  rw [hbo.decoded] at hr
  rw [hbo'.decoded,← hso,hr] at hr'
  exact Option.some.inj hr'

def sampleRuntime : Runtime where
  decodeBase64 text := some (text.toList.map fun c => UInt8.ofNat c.toNat)
  verify key message raw := raw = key ++ List.replicate 32 (UInt8.ofNat message.length)
  sha256 bytes := List.replicate 32 (UInt8.ofNat bytes.length)
  parseTime text := if text = "2026-01-01T00:00:00Z" then some (63902822400*second) else none
  lower := Char.toLower

def sampleKey (c : Char) : Bytes := List.replicate 32 (UInt8.ofNat c.toNat)

def sampleRing : PublicKeyRing where
  entries := [("a",sampleKey 'a'),("b",sampleKey 'b')]
  distinct := by decide

def sampleNow : ℤ := 63902822400*second+minute

def sampleDigest : String := "0000000000000000000000000000000000000000000000000000000000000000"

def digit (c : Char) (h : numeralChar c = true) : Json :=
  .num ⟨String.singleton c,by simp,by simp [h]⟩

def sampleMembers : List (String × Json) :=
  [("schema_version",.str "migration-manifest-v1"),
    ("manifest_id",.str "00000000-0000-4000-8000-000000000001"),
    ("migration_id",.str "00000000-0000-4000-8000-000000000002"),
    ("tenant_id",.str "00000000-0000-4000-8000-000000000003"),("kind",.str "decommission"),
    ("profile",.str "generic"),("source",.obj [("system_id",.str "ledger"),("build_id",.str "1"),
      ("schema_version",.str "1"),("exported_at",.str "2026-01-01T00:00:00Z"),
      ("window_start",.str "2026-01-01T00:00:00Z"),("window_end",.str "2026-01-01T00:00:00Z")]),
    ("decommission",.obj [("archive_digest",.str sampleDigest),
      ("restore_test_reference",.str "restore-1"),("key_revocation_reference",.str "keys-1")])]

def sampleDocument (more : List (String × Json)) : Json := .obj (sampleMembers ++ more)

def sampleSign (key message : Bytes) : String :=
  String.ofList ((key ++ List.replicate 32 (UInt8.ofNat message.length)).map
    fun b => Char.ofNat b.toNat)

def sampleSignature (id : String) (key : Bytes) (value : Json) : Signature where
  keyID := id
  signature := sampleSign key (signedMessage (compact (sorted value)))

def sampleSigned (value : Json) : SignedManifest where
  manifest := ⟨800,some value⟩
  signatures := [sampleSignature "a" (sampleKey 'a') value,sampleSignature "b" (sampleKey 'b') value]

lemma byte_of_char (b : UInt8) : UInt8.ofNat (Char.ofNat b.toNat).toNat = b := by
  have hsm : b.toNat < 0xd800 := by
    have hbyte : b.toNat < 256 := b.toNat_lt
    omega
  have hchar : (Char.ofNat b.toNat).toNat = b.toNat := by
    rw [Char.ofNat,dif_pos (.inl hsm)]
    rfl
  rw [hchar]
  simp

lemma decode_sampleSign (key message : Bytes) :
    sampleRuntime.decodeBase64 (sampleSign key message) =
      some (key ++ List.replicate 32 (UInt8.ofNat message.length)) := by
  simp only [sampleRuntime,sampleSign,String.toList_ofList,List.map_map,Function.comp_def,
    byte_of_char,List.map_id']

variable {value : Json}

lemma checkSignature_sample {signers : List String} {id : String} {key : Bytes}
    (hid : id ∉ signers ∧ safeReference id = true) (hk : sampleRing.lookup id = some key)
    (hl : key.length = 32) :
    checkSignature sampleRuntime sampleRing (signedMessage (compact (sorted value))) signers
      (sampleSignature id key value) = .ok (signers ++ [id]) := by
  simp only [checkSignature,do_ok,orFail_eq_ok]
  exact ⟨hid,key,hk,_,decode_sampleSign key _,⟨by simp [hl],by simp [sampleRuntime]⟩,rfl⟩

def passes (count : ℤ) (value : Json) : Bool :=
  acceptable 0 value && !hasForbiddenKey Char.toLower (sorted value) &&
    (decodeManifest sampleRuntime.parseTime value).any fun m =>
      validateManifest Char.toLower sampleNow m && m.unexplainedDiffCount = count

lemma sample_verifies {count : ℤ} (h : passes count value = true) :
    ∃ v, parseAndVerify sampleRuntime sampleRing sampleNow (sampleSigned value) = .ok v ∧
      v.canonical = compact (sorted value) ∧ v.manifest.unexplainedDiffCount = count := by
  simp only [passes,Bool.and_eq_true,Bool.not_eq_true'] at h
  obtain ⟨⟨hva,hf⟩,hd⟩ := h
  have hsi : traverse (checkSignature sampleRuntime sampleRing
      (signedMessage (compact (sorted value)))) (sampleSigned value).signatures [] =
      .ok ["a", "b"] :=
    traverse_cons_eq_ok.mpr ⟨_,checkSignature_sample (by decide) (by decide) (by decide),
      traverse_cons_eq_ok.mpr ⟨_,checkSignature_sample (by decide) (by decide) (by decide),rfl⟩⟩
  cases hm : decodeManifest sampleRuntime.parseTime value with
  | none => simp [hm] at hd
  | some m =>
    rw [hm,Option.any_some,Bool.and_eq_true,decide_eq_true_eq] at hd
    have hbo : Body sampleRuntime sampleNow (sampleSigned value).manifest value m :=
      ⟨by simp [sampleSigned,maxManifestBytes],rfl,hva,hf,hm,hd.1⟩
    have hve := parseAndVerify_iff.mpr
      ⟨by decide,rfl,value,m,["a", "b"],hbo,hsi,rfl⟩
    exact ⟨_,hve,rfl,hd.2⟩

def zeroCount : String × Json := ("unexplained_diff_count",digit '0' (by decide))

def otherCount : String × Json := ("Unexplained_Diff_Count",digit '7' (by decide))

def noWarnings : String × Json := ("warnings",.arr [])

lemma sorted_swap {a b : String × Json} (h : ((sampleMembers ++ [a,b]).map Prod.fst).Nodup) :
    sorted (sampleDocument [a,b]) = sorted (sampleDocument [b,a]) :=
  sorted_obj_perm ((List.Perm.swap b a []).append_left sampleMembers) h

lemma samples_pass : (passes 0 (sampleDocument [zeroCount,noWarnings]) = true ∧
      passes 0 (sampleDocument [noWarnings,zeroCount]) = true) ∧
    passes 7 (sampleDocument [zeroCount,otherCount]) = true ∧
      passes 0 (sampleDocument [otherCount,zeroCount]) = true := by
  decide +kernel

theorem signed_is_executed_sample : ∃ v, parseAndVerify sampleRuntime sampleRing sampleNow
        (sampleSigned (sampleDocument [zeroCount,noWarnings])) = .ok v ∧
      ∃ v', parseAndVerify sampleRuntime sampleRing sampleNow
          (sampleSigned (sampleDocument [noWarnings,zeroCount])) = .ok v' ∧
        normalManifest v.manifest = normalManifest v'.manifest := by
  have hsw : sorted (sampleDocument [zeroCount,noWarnings]) =
      sorted (sampleDocument [noWarnings,zeroCount]) := sorted_swap (by decide +kernel)
  obtain ⟨v,hv,hca,_⟩ := sample_verifies samples_pass.1.1
  obtain ⟨v',hv',hca',_⟩ := sample_verifies samples_pass.1.2
  refine ⟨v,hv,v',hv',signed_is_executed _ _ _ _ _ _ _ v v' hv hv' ?_ ?_⟩
  · intro value hva
    rw [← Option.some.inj (Option.mem_def.mp hva)]
    decide +kernel
  · rw [hca,hca',hsw]

/-- Two documents with one canonical text and the same signatures: in one the count of unexplained
differences is the seven that is written last, in the other zero. -/
theorem count_depends_on_order :
    let signed := sampleSigned (sampleDocument [zeroCount,otherCount])
    let signed' := sampleSigned (sampleDocument [otherCount,zeroCount])
    ∃ v, parseAndVerify sampleRuntime sampleRing sampleNow signed = .ok v ∧
      ∃ v', parseAndVerify sampleRuntime sampleRing sampleNow signed' = .ok v' ∧
        v.canonical = v'.canonical ∧ signed.signatures = signed'.signatures ∧
        v.manifest.unexplainedDiffCount = 7 ∧ v'.manifest.unexplainedDiffCount = 0 := by
  intro signed signed'
  have hsw : sorted (sampleDocument [zeroCount,otherCount]) =
      sorted (sampleDocument [otherCount,zeroCount]) := sorted_swap (by decide +kernel)
  obtain ⟨v,hv,hca,hco⟩ := sample_verifies samples_pass.2.1
  obtain ⟨v',hv',hca',hco'⟩ := sample_verifies samples_pass.2.2
  have hsi : signed.signatures = signed'.signatures := by
    simp [signed,signed',sampleSigned,sampleSignature,hsw]
  exact ⟨v,hv,v',hv',by rw [hca,hca',hsw],hsi,hco,hco'⟩

end Ocrypt.SignedManifests
