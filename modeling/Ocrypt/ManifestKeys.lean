import Ocrypt.SignedManifests
import Ocrypt.VerificationFacts

/-! Control by several keys. A ring names its keys by ids, and what is counted are the ids: they
stand for as many keys exactly if the ring does not hold one key under two ids. -/
namespace Ocrypt.ManifestKeys
open Fallible Table JsonText JsonObjects Manifests SignedManifests VerificationFacts List
open Requests (Bytes utf8 NoCollision)
open RangeChecks (validID)

def KeysDistinct (ring : PublicKeyRing) : Prop := (ring.entries.map Prod.snd).Nodup

def Verifies (rt : Runtime) (message key : Bytes) (signature : String) : Prop :=
  ∃ raw, rt.decodeBase64 signature = some raw ∧ raw.length = 64 ∧ rt.verify key message raw = true

variable {ring : PublicKeyRing} {id : String}

section
variable {id' : String} {key : Bytes}

lemma mem_of_lookup (h : ring.lookup id = some key) : (id,key) ∈ ring.entries := by
  obtain ⟨entry,hf,rfl⟩ := Option.map_eq_some_iff.mp h
  obtain ⟨hm,rfl⟩ := mem_of_find? hf
  exact hm

lemma lookup_of_mem (h : (id,key) ∈ ring.entries) : ring.lookup id = some key :=
  congrArg (Option.map Prod.snd) (find?_key ring.distinct h)

lemma keysDistinct_iff : KeysDistinct ring ↔
    ∀ a ∈ ring.entries, ∀ b ∈ ring.entries, a.2 = b.2 → a = b :=
  nodup_map_iff_inj_on ring.distinct.of_map

lemma lookup_inj (hr : KeysDistinct ring) (h : ring.lookup id = some key)
    (h' : ring.lookup id' = some key) : id = id' := by
  have hsame := keysDistinct_iff.mp hr _ (mem_of_lookup h) _ (mem_of_lookup h') rfl
  exact congrArg Prod.fst hsame

end

variable {rt : Runtime} {message : Bytes} {now : ℤ} {raw : RawDocument} {a b : String × Bytes}

section
variable {signers signers' : List String} {signature : Signature}

lemma checkSignature_iff : checkSignature rt ring message signers signature = .ok signers' ↔
    signature.keyID ∉ signers ∧ safeReference signature.keyID = true ∧
      (∃ key, ring.lookup signature.keyID = some key ∧
        Verifies rt message key signature.signature) ∧ signers' = signers ++ [signature.keyID] := by
  simp only [checkSignature,do_ok,orFail_eq_ok]
  constructor
  · rintro ⟨⟨hn,hsa⟩,key,hk,raw,hr,⟨hl,hv⟩,rfl⟩
    exact ⟨hn,hsa,⟨key,hk,raw,hr,hl,hv⟩,rfl⟩
  · rintro ⟨hn,hsa,⟨key,hk,raw,hr,hl,hv⟩,rfl⟩
    exact ⟨⟨hn,hsa⟩,key,hk,raw,hr,⟨hl,hv⟩,rfl⟩

def ManifestKey (rt : Runtime) (ring : PublicKeyRing) (document : SignedManifest) (v : Verified)
    (key : Bytes) : Prop :=
  ∃ s ∈ document.signatures, ring.lookup s.keyID = some key ∧
    Verifies rt (signedMessage v.canonical) key s.signature

def TwoKeys (rt : Runtime) (ring : PublicKeyRing) (document : SignedManifest) (v : Verified) : Prop :=
  ∃ key key', key ≠ key' ∧ ManifestKey rt ring document v key ∧ ManifestKey rt ring document v key'

lemma two_keys_of_distinct {document : SignedManifest} {v : Verified}
    (hr : KeysDistinct ring) (h : parseAndVerify rt ring now document = .ok v) :
    TwoKeys rt ring document v := by
  obtain ⟨_,htw,value,m,_,_,hsi,rfl⟩ := parseAndVerify_iff.mp h
  obtain ⟨s,s',hp⟩ := length_eq_two.mp htw
  rw [hp] at hsi
  obtain ⟨_,hf,hre⟩ := traverse_cons_eq_ok.mp hsi
  obtain ⟨_,hse,_⟩ := traverse_cons_eq_ok.mp hre
  obtain ⟨_,_,⟨key,hk,hve⟩,rfl⟩ := checkSignature_iff.mp hf
  obtain ⟨hn,_,⟨key',hk',hve'⟩,_⟩ := checkSignature_iff.mp hse
  refine ⟨key,key',?_,⟨s,by simp [hp],hk,hve⟩,⟨s',by simp [hp],hk',hve'⟩⟩
  intro hsame
  subst hsame
  apply hn
  rw [lookup_inj hr hk' hk]
  simp

def CanSign (rt : Runtime) (ring : PublicKeyRing) : Prop :=
  ∀ entry ∈ ring.entries, ∀ message, ∃ signature, Verifies rt message entry.2 signature

lemma one_key_of_shared {value : Json} {m : Manifest} (ha : a ∈ ring.entries)
    (hb : b ∈ ring.entries) (hi : a.1 ≠ b.1) (hk : a.2 = b.2)
    (hsa : ∀ entry ∈ ring.entries, safeReference entry.1 = true)
    (hsg : CanSign rt ring) (hbo : Body rt now raw value m) :
    ∃ signatures v, parseAndVerify rt ring now ⟨raw,signatures⟩ = .ok v ∧
      ¬TwoKeys rt ring ⟨raw,signatures⟩ v := by
  have hl := lookup_of_mem ha
  have hl' : ring.lookup b.1 = some a.2 := by
    rw [hk]
    exact lookup_of_mem hb
  let message := signedMessage (compact (sorted value))
  obtain ⟨text,hte⟩ := hsg a ha message
  have htw : 2 ≤ ring.entries.length := by
    have hp : [a,b].Subperm ring.entries :=
      subperm_of_subset (by simpa using ne_of_apply_ne Prod.fst hi) (by simp [ha,hb])
    exact hp.length_le
  have hf : checkSignature rt ring message [] ⟨a.1,text⟩ = .ok [a.1] :=
    checkSignature_iff.mpr ⟨not_mem_nil,hsa a ha,⟨a.2,hl,hte⟩,rfl⟩
  have hse : checkSignature rt ring message [a.1] ⟨b.1,text⟩ = .ok [a.1,b.1] :=
    checkSignature_iff.mpr
      ⟨by simpa using Ne.symm hi,hsa b hb,⟨a.2,hl',hte⟩,rfl⟩
  have hsi : traverse (checkSignature rt ring message) [⟨a.1,text⟩,⟨b.1,text⟩] [] =
      .ok [a.1,b.1] :=
    traverse_cons_eq_ok.mpr ⟨_,hf,traverse_cons_eq_ok.mpr ⟨_,hse,rfl⟩⟩
  refine ⟨[⟨a.1,text⟩,⟨b.1,text⟩],_,parseAndVerify_iff.mpr ⟨htw,rfl,value,m,_,hbo,hsi,rfl⟩,?_⟩
  -- both ids lead to the one key
  have ho : ∀ v key, ManifestKey rt ring ⟨raw,[⟨a.1,text⟩,⟨b.1,text⟩]⟩ v key →
      key = a.2 := by
    rintro v key ⟨s,hs,hke,_⟩
    simp only [mem_cons,not_mem_nil,or_false] at hs
    rcases hs with rfl | rfl
    · exact Option.some.inj (hke.symm.trans hl)
    · exact Option.some.inj (hke.symm.trans hl')
  rintro ⟨key,key',hne,hke,hke'⟩
  exact hne ((ho _ key hke).trans (ho _ key' hke').symm)

end

variable {quorum : ℕ} {entries : List (String × Bytes)}

section
variable {fact : VerificationFact} {answer : Option ProviderObservation} {canonical : String}
  {version : ℤ} {r : VerifiedFact} {request : VerificationRequest}

lemma signedBy_iff {signature : String} : signedBy rt ring message id signature = true ↔
      ∃ key, ring.lookup id = some key ∧ Verifies rt message key signature := by
  unfold signedBy Verifies
  cases ring.lookup id <;> cases rt.decodeBase64 signature <;> simp

lemma counted_iff : counted rt ring now answer = some (fact,canonical,id) ↔
      ∃ observation, answer = some observation ∧ observation.keyID = id ∧
        factOf rt now observation.fact = some (fact,canonical) ∧ ∃ key, ring.lookup id = some key ∧
          Verifies rt (factMessage canonical) key observation.signature := by
  simp only [counted,Option.bind_eq_bind,Option.bind_eq_some_iff,Prod.exists,
    Option.guard_eq_some',Option.pure_def,Option.some.injEq,Prod.mk.injEq,signedBy_iff,
    exists_const]
  constructor
  · rintro ⟨observation,han,_,_,hf,hsi,rfl,rfl,rfl⟩
    exact ⟨observation,han,rfl,hf,hsi⟩
  · rintro ⟨observation,han,rfl,hf,hsi⟩
    exact ⟨observation,han,fact,canonical,hf,hsi,rfl,rfl,rfl⟩

def Backs (rt : Runtime) (ring : PublicKeyRing) (now : ℤ)
    (answers : List (Option ProviderObservation)) (digest : Bytes) (id : String) : Prop :=
  ∃ answer ∈ answers, ∃ fact canonical, counted rt ring now answer = some (fact,canonical,id) ∧
    rt.sha256 (utf8 canonical) = digest

/-- An agreement counts different ids, all of them behind the digest of its own text. -/
structure Backed (rt : Runtime) (ring : PublicKeyRing) (now : ℤ)
    (answers : List (Option ProviderObservation)) (digest : Bytes) (item : Agreement) : Prop where
  nodup : item.keys.Nodup
  backs : ∀ id ∈ item.keys, Backs rt ring now answers digest id
  body : ∃ answer ∈ answers, ∃ fact id,
    counted rt ring now answer = some (fact,item.canonical,id)
  digest : rt.sha256 (utf8 item.canonical) = digest

lemma backed_joined {answers : List (Option ProviderObservation)}
    {old : Option Agreement} (han : answer ∈ answers)
    (hco : counted rt ring now answer = some (fact,canonical,id)) (hold : ∀ item, old = some item →
      Backed rt ring now answers (rt.sha256 (utf8 canonical)) item) :
    Backed rt ring now answers (rt.sha256 (utf8 canonical)) (joined old fact canonical id) := by
  have hid : Backs rt ring now answers (rt.sha256 (utf8 canonical)) id :=
    ⟨answer,han,fact,canonical,hco,rfl⟩
  cases old with
  | none =>
    refine ⟨nodup_singleton id,?_,⟨answer,han,fact,id,hco⟩,rfl⟩
    intro other ho
    rw [mem_singleton.mp ho]
    exact hid
  | some item =>
    have hi := hold item rfl
    unfold joined
    dsimp only
    by_cases hk : id ∈ item.keys
    · rw [if_pos hk]
      exact hi
    · rw [if_neg hk]
      refine ⟨?_,?_,hi.body,hi.digest⟩
      · rw [nodup_append]
        refine ⟨hi.nodup,nodup_singleton id,?_⟩
        intro a ha b hb hab
        rw [mem_singleton.mp hb] at hab
        exact hk (hab ▸ ha)
      · exact forall_snoc hi.backs hid

lemma agree_backed {all : List (Option ProviderObservation)} (answers : List (Option ProviderObservation))
    (agreements : Bytes → Option Agreement) (hal : ∀ answer ∈ answers, answer ∈ all)
    (hba : ∀ digest item, agreements digest = some item → Backed rt ring now all digest item)
    (h : agree rt ring now quorum version answers agreements = .ok r) :
    ∃ item, Backed rt ring now all r.digest item ∧ quorum ≤ item.keys.length ∧
      r.canonicalBody = item.canonical := by
  induction answers generalizing agreements with
  | nil => cases h
  | cons answer rest ih =>
    have hre := fun other ho => hal other (mem_cons_of_mem answer ho)
    rw [agree] at h
    cases hco : counted rt ring now answer with
    | none =>
      rw [hco] at h
      exact ih agreements hre hba h
    | some passed =>
      obtain ⟨fact,canonical,id⟩ := passed
      rw [hco] at h
      dsimp only at h
      have hi := backed_joined (hal answer mem_cons_self) hco
        (hba (rt.sha256 (utf8 canonical)))
      split_ifs at h with hq
      · cases h
        exact ⟨_,hi,hq,rfl⟩
      · apply ih _ hre _ h
        intro digest item hl
        by_cases hd : digest = rt.sha256 (utf8 canonical)
        · subst hd
          rw [Function.update_self,Option.some.injEq] at hl
          rw [← hl]
          exact hi
        · rw [Function.update_of_ne hd] at hl
          exact hba digest item hl

/-- A key of the ring that verifies an observation as a signature of the returned text. -/
def FactKey (rt : Runtime) (v : QuorumVerifier) (r : VerifiedFact) (key : Bytes) : Prop :=
  ∃ observation, some observation ∈ v.providers ∧ v.keys.lookup observation.keyID = some key ∧
    Verifies rt (factMessage r.canonicalBody) key observation.signature

def QuorumKeys (rt : Runtime) (v : QuorumVerifier) (r : VerifiedFact) : Prop :=
  ∃ keys : List Bytes, keys.Nodup ∧ v.quorum ≤ keys.length ∧ ∀ key ∈ keys, FactKey rt v r key

def CollisionFree (rt : Runtime) (v : QuorumVerifier) (now : ℤ) : Prop :=
  ∀ answer ∈ v.providers, ∀ answer' ∈ v.providers, ∀ fact canonical id fact' canonical' id',
    counted rt v.keys now answer = some (fact,canonical,id) →
    counted rt v.keys now answer' = some (fact',canonical',id') →
    NoCollision (fun text => rt.sha256 (utf8 text)) canonical canonical'

lemma quorum_keys_of_distinct {v : QuorumVerifier} (hri : KeysDistinct v.keys) (hf : CollisionFree rt v now)
    (h : v.verify rt now request = .ok r) : QuorumKeys rt v r := by
  simp only [QuorumVerifier.verify,do_ok] at h
  obtain ⟨item,hi,hq,hbo⟩ :=
    agree_backed v.providers _ (fun _ h => h) (fun _ _ h => by cases h) h.2
  -- every counted id has a key that signed the returned text
  have hsi : ∀ id ∈ item.keys, ∃ key, v.keys.lookup id = some key ∧ FactKey rt v r key := by
    intro id hid
    obtain ⟨answer,han,fact,canonical,hco,hd⟩ := hi.backs id hid
    obtain ⟨answer',han',fact',id',hco'⟩ := hi.body
    have hte := hf answer han answer' han' _ _ _ _ _ _ hco hco'
        (hd.trans hi.digest.symm)
    obtain ⟨observation,rfl,rfl,_,key,hk,hve⟩ := counted_iff.mp hco
    rw [hte,← hbo] at hve
    exact ⟨key,hk,observation,han,hk,hve⟩
  refine ⟨item.keys.map fun id => (v.keys.lookup id).getD [],?_,?_,?_⟩
  · apply List.Nodup.map_on _ hi.nodup
    intro id hid id' hid' hsame
    obtain ⟨key,hk,_⟩ := hsi id hid
    obtain ⟨key',hk',_⟩ := hsi id' hid'
    rw [hk,hk'] at hsame
    subst hsame
    exact lookup_inj hri hk hk'
  · rw [length_map]
    exact hq
  · intro key hk
    obtain ⟨id,hid,rfl⟩ := mem_map.mp hk
    obtain ⟨key,hl,hfa⟩ := hsi id hid
    rw [hl]
    exact hfa

lemma agree_of_observed {canonical : String} {observe : String × Bytes → ProviderObservation}
    (rest : List (Option ProviderObservation)) (hco : ∀ entry ∈ entries,
      counted rt ring now (some (observe entry)) = some (fact,canonical,entry.1))
    (seen : List String) (agreements : Bytes → Option Agreement)
    (hst : ∀ id, joined (agreements (rt.sha256 (utf8 canonical))) fact canonical id =
      if id ∈ seen then ⟨fact,canonical,seen⟩ else ⟨fact,canonical,seen ++ [id]⟩)
    (hn : (seen ++ entries.map Prod.fst).Nodup) (hse : seen.length < quorum)
    (hl : seen.length+entries.length = quorum) : ∃ keys, agree rt ring now quorum version
      (entries.map (fun entry => some (observe entry)) ++ rest) agreements =
        .ok ⟨fact,canonical,rt.sha256 (utf8 canonical),keys,version⟩ := by
  induction entries generalizing seen agreements with
  | nil =>
    rw [length_nil] at hl
    omega
  | cons entry more ih =>
    have hne : entry.1 ∉ seen := by
      intro hm
      rw [nodup_append] at hn
      exact hn.2.2 _ hm _ mem_cons_self rfl
    rw [map_cons,cons_append,agree,hco entry mem_cons_self]
    dsimp only
    rw [hst entry.1,if_neg hne]
    by_cases hd : quorum ≤ (seen ++ [entry.1]).length
    · rw [if_pos hd]
      exact ⟨_,rfl⟩
    · rw [if_neg hd]
      rw [length_append,length_singleton] at hd
      rw [length_cons] at hl
      apply ih (fun other ho => hco other (mem_cons_of_mem entry ho))
        (seen ++ [entry.1])
      · intro id
        rw [Function.update_self]
        rfl
      · simpa using hn
      · rw [length_append,length_singleton]
        omega
      · rw [length_append,length_singleton]
        omega

section
variable (ha : a ∈ ring.entries) (hb : b ∈ ring.entries) (hab : a ≠ b)
include ha hb hab

lemma exists_chosen (htw : 2 ≤ quorum) (hr : quorum ≤ ring.entries.length) :
    ∃ others : List (String × Bytes), others.length+2 = quorum ∧
      (∀ entry ∈ a::b::others, entry ∈ ring.entries) ∧ ((a::b::others).map Prod.fst).Nodup := by
  have hb' := (mem_erase_of_ne (Ne.symm hab)).mpr hb
  have hp := (perm_cons_erase ha).trans ((perm_cons_erase hb').cons a)
  have hsu : (a::b::((ring.entries.erase a).erase b).take (quorum - 2)).Sublist
      (a::b::(ring.entries.erase a).erase b) :=
    ((take_sublist _ _).cons_cons b).cons_cons a
  have hl := hp.length_eq
  rw [length_cons,length_cons] at hl
  refine ⟨((ring.entries.erase a).erase b).take (quorum - 2),?_,?_,?_⟩
  · rw [length_take]
    omega
  · intro entry he
    exact hp.mem_iff.mpr (hsu.subset he)
  · exact (hsu.map Prod.fst).nodup ((hp.map Prod.fst).nodup_iff.mp ring.distinct)

/-- Two ids of one key let a quorum of providers agree with fewer keys than it asks for. -/
theorem few_keys_of_shared {canonical : String} {count : ℕ} (hk : a.2 = b.2) (hsg : CanSign rt ring)
    (hfa : factOf rt now raw = some (fact,canonical))
    (hre : validID request.migrationID = true ∧ sourceIDPattern request.sourceID = true)
    (htw : 2 ≤ quorum) (hcu : quorum ≤ count) (hv : 1 ≤ version)
    (hri : quorum ≤ ring.entries.length) : ∃ providers r, providers.length = count ∧
      QuorumVerifier.verify rt ⟨providers,ring,quorum,version⟩ now request = .ok r ∧
      ¬QuorumKeys rt ⟨providers,ring,quorum,version⟩ r := by
  obtain ⟨others,hot,hm,hn⟩ := exists_chosen ha hb hab htw hri
  choose! sign hsi using hsg
  let observe : String × Bytes → ProviderObservation :=
    fun entry => ⟨raw,entry.1,sign entry (factMessage canonical)⟩
  have hco : ∀ entry ∈ a::b::others,
      counted rt ring now (some (observe entry)) = some (fact,canonical,entry.1) := by
    intro entry he
    exact counted_iff.mpr ⟨observe entry,rfl,rfl,hfa,entry.2,lookup_of_mem (hm entry he),
      hsi entry (hm entry he) _⟩
  have hch : (a::b::others).length = quorum := hot
  let answers := (a::b::others).map (fun entry => some (observe entry)) ++
    List.replicate (count - quorum) none
  obtain ⟨keys,hag⟩ : ∃ keys, agree rt ring now quorum version answers (fun _ => none) =
      .ok ⟨fact,canonical,rt.sha256 (utf8 canonical),keys,version⟩ := by
    apply agree_of_observed _ hco [] (fun _ => none) (fun _ => rfl) hn
    · rw [length_nil]
      omega
    · rw [length_nil,hch,Nat.zero_add]
  have hl : answers.length = count := by
    rw [length_append,length_map,length_replicate]
    omega
  refine ⟨answers,⟨fact,canonical,rt.sha256 (utf8 canonical),keys,version⟩,hl,?_,?_⟩
  · simp only [QuorumVerifier.verify,do_ok]
    refine ⟨⟨hre.1,hre.2,htw,?_,hv,hri⟩,hag⟩
    exact hcu.trans hl.ge
  · -- the keys behind the answers are those of the chosen entries, of which two are equal
    rintro ⟨signers,hd,hq,hf⟩
    have hsu : signers ⊆ a.2::others.map Prod.snd := by
      intro key hke
      obtain ⟨observation,ho,hlo,_⟩ := hf key hke
      simp only [answers,mem_append,mem_map,mem_replicate,Option.some.injEq,
        reduceCtorEq,and_false,or_false] at ho
      obtain ⟨entry,he,rfl⟩ := ho
      have hke' : key = entry.2 :=
        Option.some.inj (hlo.symm.trans (lookup_of_mem (hm entry he)))
      rw [hke']
      simp only [mem_cons] at he ⊢
      rcases he with rfl | rfl | hoh
      · exact .inl rfl
      · exact .inl hk.symm
      · exact .inr (mem_map_of_mem hoh)
    have hle := (subperm_of_subset hd hsu).length_le
    rw [length_cons,length_map] at hle
    have hq' : quorum ≤ signers.length := hq
    omega

end

end

lemma readEntries_safe {members : List (String × Json)} (h : readEntries rt members = .ok entries) :
    ∀ entry ∈ entries, safeReference entry.1 = true := by
  induction members generalizing entries with
  | nil =>
    cases h
    simp
  | cons member rest ih =>
    simp only [readEntries,readEntry,do_ok] at h
    obtain ⟨_,⟨_,_,_,_,⟨hsa,_⟩,rfl⟩,entries,hr,rfl⟩ := h
    intro entry he
    rcases mem_cons.mp he with rfl | he
    · exact hsa
    · exact ih hr entry he

lemma readPublicKeyRing_safe {file : KeyFile} (h : readPublicKeyRing rt file = .ok ring) :
    ∀ entry ∈ ring.entries, safeReference entry.1 = true := by
  simp only [readPublicKeyRing,ringOf,do_ok] at h
  obtain ⟨_,_,_,_,_,_,_,_,_,_,entries,he,hr⟩ := h
  split_ifs at hr
  cases hr
  exact readEntries_safe he

/-- Two keys behind every verified manifest and quorum keys behind every verified fact: so it is
with a ring of distinct keys, and with a ring that holds one key under two ids whoever has that
key alone breaks both. -/
theorem control_by_distinct_keys (rt : Runtime) (ring : PublicKeyRing) : (KeysDistinct ring →
      (∀ now document v, parseAndVerify rt ring now document = .ok v → TwoKeys rt ring document v) ∧
      ∀ v : QuorumVerifier, v.keys = ring → ∀ now request r, CollisionFree rt v now →
        v.verify rt now request = .ok r → QuorumKeys rt v r) ∧
    (¬KeysDistinct ring → CanSign rt ring →
      (∀ file, readPublicKeyRing rt file = .ok ring → ∀ now raw value m, Body rt now raw value m →
        ∃ signatures v, parseAndVerify rt ring now ⟨raw,signatures⟩ = .ok v ∧
          ¬TwoKeys rt ring ⟨raw,signatures⟩ v) ∧
      ∀ (now : ℤ) (raw : RawDocument) (fact : VerificationFact × String)
        (request : VerificationRequest) (quorum count : ℕ) (version : ℤ),
        factOf rt now raw = some fact →
        validID request.migrationID = true ∧ sourceIDPattern request.sourceID = true →
        2 ≤ quorum → quorum ≤ count → 1 ≤ version → quorum ≤ ring.entries.length →
        ∃ providers r, providers.length = count ∧
          QuorumVerifier.verify rt ⟨providers,ring,quorum,version⟩ now request = .ok r ∧
          ¬QuorumKeys rt ⟨providers,ring,quorum,version⟩ r) := by
  constructor
  · intro hri
    constructor
    · intro now document v h
      exact two_keys_of_distinct hri h
    · intro v hk now request r hf h
      subst hk
      exact quorum_keys_of_distinct hri hf h
  · intro hri hsi
    rw [keysDistinct_iff] at hri
    push Not at hri
    obtain ⟨a,ha,b,hb,hk,hab⟩ := hri
    constructor
    · intro file hfi now raw value m hbo
      have hi : a.1 ≠ b.1 := fun hid => hab (Prod.ext hid hk)
      exact one_key_of_shared ha hb hi hk (readPublicKeyRing_safe hfi) hsi hbo
    · intro now raw fact request quorum count version hfa hre htw hco hve hl
      exact few_keys_of_shared ha hb hab hk hsi hfa hre htw hco hve hl

def sharedEntries : List (String × Json) :=
  let text := String.ofList (List.replicate 32 'a')
  [("a",.str text),("b",.str text)]

def sharedFile : KeyFile where
  regular := true
  perm := 0o644
  size := 110
  content := some ⟨110,some (.obj sharedEntries)⟩

def sharedRing : PublicKeyRing where
  entries := [("a",sampleKey 'a'),("b",sampleKey 'a')]
  distinct := by decide

lemma sharedRing_read : readPublicKeyRing sampleRuntime sharedFile = .ok sharedRing := by
  have hch : acceptable 0 (.obj sharedEntries) = true := by decide +kernel
  have he : readEntries sampleRuntime sharedEntries = .ok sharedRing.entries := by decide +kernel
  simp only [readPublicKeyRing,do_ok]
  exact ⟨by decide,_,rfl,by decide,_,rfl,hch,_,rfl,by decide,_,he,rfl⟩

lemma sample_canSign (h : ∀ entry ∈ ring.entries, entry.2.length = 32) :
    CanSign sampleRuntime ring := by
  intro entry he message
  refine ⟨sampleSign entry.2 message,_,decode_sampleSign entry.2 message,?_,?_⟩
  · rw [length_append,h entry he,length_replicate]
  · simp [sampleRuntime]

def sampleFact : RawDocument where
  size := 400
  value := some (.obj [("schema_version",.str "migration-verification-fact-v1"),
    ("event_identity",.str "e1"),("transaction_id",.str "t1"),("chain_id",.str "tron"),
    ("asset_id",.str "usdt"),("receiving_address",.str "T1"),("amount_atomic",.str "5"),
    ("confirmations",digit '9' (by decide)),("block_hash",.str "0000000000000000"),
    ("observed_at",.str "2026-01-01T00:00:00Z")])

lemma sampleFact_passes : ∃ fact, factOf sampleRuntime sampleNow sampleFact = some fact := by
  have hso : (factOf sampleRuntime sampleNow sampleFact).isSome = true := by decide +kernel
  exact Option.isSome_iff_exists.mp hso

def sampleRequest : VerificationRequest := ⟨"00000000-0000-4000-8000-000000000002","e1"⟩

lemma sampleRequest_valid : validID sampleRequest.migrationID = true ∧
    sourceIDPattern sampleRequest.sourceID = true := by
  decide +kernel

lemma sample_body : ∃ value m,
    Body sampleRuntime sampleNow (sampleSigned (sampleDocument [zeroCount,noWarnings])).manifest
      value m := by
  obtain ⟨v,hv,_⟩ := sample_verifies samples_pass.1.1
  obtain ⟨_,_,value,m,_,hbo,_⟩ := parseAndVerify_iff.mp hv
  exact ⟨value,m,hbo⟩

theorem control_by_distinct_keys_sample :
    let signed := sampleSigned (sampleDocument [zeroCount,noWarnings])
    (∃ v, parseAndVerify sampleRuntime sampleRing sampleNow signed = .ok v ∧
      TwoKeys sampleRuntime sampleRing signed v) ∧
    ∃ providers r, providers.length = 3 ∧
      QuorumVerifier.verify sampleRuntime ⟨providers,sharedRing,2,1⟩ sampleNow sampleRequest =
        .ok r ∧ ¬QuorumKeys sampleRuntime ⟨providers,sharedRing,2,1⟩ r := by
  constructor
  · obtain ⟨v,hv,_⟩ := sample_verifies samples_pass.1.1
    have hri : KeysDistinct sampleRing := by
      unfold KeysDistinct
      decide
    exact ⟨v,hv,((control_by_distinct_keys sampleRuntime sampleRing).1 hri).1 _ _ v hv⟩
  · have hri : ¬KeysDistinct sharedRing := by
      unfold KeysDistinct
      decide
    have hsi : CanSign sampleRuntime sharedRing := sample_canSign (by decide)
    obtain ⟨fact,hf⟩ := sampleFact_passes
    exact ((control_by_distinct_keys sampleRuntime sharedRing).2 hri hsi).2 sampleNow sampleFact
      fact sampleRequest 2 3 1 hf sampleRequest_valid (by decide) (by decide) (by decide)
      (by decide)

/-- A key file that is accepted although it holds one key under two ids: a manifest is verified
and a fact reaches the quorum of two with the signatures of that key alone. -/
theorem shared_key_signs_alone :
    readPublicKeyRing sampleRuntime sharedFile = .ok sharedRing ∧
    (∃ document v, parseAndVerify sampleRuntime sharedRing sampleNow document = .ok v ∧
      ¬TwoKeys sampleRuntime sharedRing document v) ∧ ∃ providers r, providers.length = 2 ∧
      QuorumVerifier.verify sampleRuntime ⟨providers,sharedRing,2,1⟩ sampleNow sampleRequest =
        .ok r ∧ ¬QuorumKeys sampleRuntime ⟨providers,sharedRing,2,1⟩ r := by
  have ha : ("a",sampleKey 'a') ∈ sharedRing.entries := by decide
  have hb : ("b",sampleKey 'a') ∈ sharedRing.entries := by decide
  have hsi : CanSign sampleRuntime sharedRing := sample_canSign (by decide)
  obtain ⟨value,m,hbo⟩ := sample_body
  obtain ⟨signatures,v,hv,ho⟩ := one_key_of_shared ha hb (by decide) rfl
    (readPublicKeyRing_safe sharedRing_read) hsi hbo
  obtain ⟨fact,hf⟩ := sampleFact_passes
  exact ⟨sharedRing_read,⟨_,v,hv,ho⟩,few_keys_of_shared ha hb (by decide) rfl hsi hf
    sampleRequest_valid (by decide) (by decide) (by decide) (by decide)⟩

end Ocrypt.ManifestKeys
