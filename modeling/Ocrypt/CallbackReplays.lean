import Ocrypt.HostedCallbacks
import Ocrypt.HostedEvents

/-! Repeated deliveries of one callback body. The stored evidence contains the digest of the
signature, and the signature covers the timestamp of the delivery: only a delivery with the same
timestamp repeats the stored facts. -/
namespace Ocrypt.CallbackReplays
open Fallible Table Store Settlement HostedSettlement HostedEffects HostedEvents Requests
  HostedCallbacks
  Workers List

structure UniqueEvidence (db : Database) : Prop where
  inbox : (db.providerInbox.map fun e => (e.providerID,e.providerEventID)).Nodup
  prebind : (db.prebindInbox.map fun e => (e.providerID,e.providerEventID)).Nodup

def frozen (e : PrebindEvent) : String × String × String × ProviderEvidence :=
  (e.id,e.providerID,e.providerEventID,e.evidence)

/-- What a later database still has: the evidence, which is append-only, and the orders with their
routes and intents. -/
structure Retained (db db' : Database) : Prop where
  inbox : ∀ e ∈ db.providerInbox, e ∈ db'.providerInbox
  prebind : ∀ e ∈ db.prebindInbox, ∃ e' ∈ db'.prebindInbox, frozen e' = frozen e
  bound : ∀ p, (loadHostedSettlementCandidate db p).isSome →
    (loadHostedSettlementCandidate db' p).isSome
  unique : UniqueEvidence db'

variable {db : Database}

lemma Retained.refl (h : UniqueEvidence db) : Retained db db :=
  ⟨fun _ he => he,fun e he => ⟨e,he,rfl⟩,fun _ hp => hp,h⟩

variable {db' : Database} {mid : Database}

lemma Retained.trans (h₁ : Retained db mid) (h₂ : Retained mid db') : Retained db db' where
  inbox e he := h₂.inbox e (h₁.inbox e he)
  prebind e he := by
    obtain ⟨e₁,he₁,hsame₁⟩ := h₁.prebind e he
    obtain ⟨e₂,he₂,hsame₂⟩ := h₂.prebind e₁ he₁
    exact ⟨e₂,he₂,hsame₂.trans hsame₁⟩
  bound p hp := h₂.bound p (h₁.bound p hp)
  unique := h₂.unique

variable {p : VerifiedProviderPayment}

lemma bound_of_keys (hod : db'.providerOrders.map (fun o =>
        (o.providerID,o.providerReference,o.tenantID,o.merchantID,o.routeID)) =
      db.providerOrders.map fun o =>
        (o.providerID,o.providerReference,o.tenantID,o.merchantID,o.routeID))
    (hre : db'.routes.map (fun r => (r.id,r.tenantID,r.intentID)) =
      db.routes.map fun r => (r.id,r.tenantID,r.intentID))
    (hie : db'.intents.map (fun i => (i.id,i.tenantID)) =
      db.intents.map fun i => (i.id,i.tenantID)) (h : (loadHostedSettlementCandidate db p).isSome) :
    (loadHostedSettlementCandidate db' p).isSome := by
  obtain ⟨c,hc⟩ := Option.isSome_iff_exists.mp h
  simp only [loadHostedSettlementCandidate,intentOf,Option.bind_eq_bind,Option.bind_eq_some_iff,
    Option.pure_def,Option.some.injEq] at hc
  obtain ⟨order,hor,route,hro,intent,hin,rfl⟩ := hc
  have hf := find?_same_keys hod fun k => k.1 = p.providerID ∧ k.2.1 = p.providerReference ∧
    k.2.2.1 = p.tenantID ∧ k.2.2.2.1 = p.merchantID
  simp only [Function.comp_def,hor,Option.map_some,Option.map_eq_some_iff,Prod.mk.injEq]
    at hf
  obtain ⟨order',hor',-,-,hte,-,hrt⟩ := hf
  have hf := find?_same_keys hre fun k => k.1 = order.routeID ∧ k.2.1 = order.tenantID
  simp only [Function.comp_def,hro,Option.map_some,Option.map_eq_some_iff,Prod.mk.injEq]
    at hf
  obtain ⟨route',hro',-,hru,hit⟩ := hf
  have hf := find?_same_keys hie fun k => k.1 = route.intentID ∧ k.2 = route.tenantID
  simp only [Function.comp_def,hin,Option.map_some,Option.map_eq_some_iff,Prod.mk.injEq]
    at hf
  obtain ⟨intent',hin',-,-⟩ := hf
  rw [← hrt,← hte] at hro'
  rw [← hit,← hru] at hin'
  refine Option.isSome_iff_exists.mpr ⟨⟨order',route',intent'⟩,?_⟩
  simp only [loadHostedSettlementCandidate,Option.bind_eq_bind,Option.bind_eq_some_iff]
  exact ⟨order',hor',route',hro',intent',hin',rfl⟩

variable {ext : Externals}

variable {clock : ℤ}

section
variable {ids : HostedIDs} {result : HostedSettlementResult}

lemma retained_of_unmoved (h : Unmoved db db') (hu : UniqueEvidence db) : Retained db db' where
  inbox e he := by rwa [h.inbox]
  prebind e he := ⟨e,by rwa [h.prebind],rfl⟩
  bound p hp := bound_of_keys h.orders h.routes h.intents hp
  unique := ⟨by rw [h.inbox]; exact hu.inbox,by rw [h.prebind]; exact hu.prebind⟩

lemma ingested_retained (h : Ingested ext db p ids db' result) (hu : UniqueEvidence db) :
    Retained db db' := by
  cases h with
  | knownAside e result hl hfi hsame hd ho | known e result hl has hfi hsame hd ho => exact .refl hu
  | aside result hl hn hd ho =>
    refine ⟨fun e he => he,fun e he => ⟨e,mem_append_left _ he,rfl⟩,fun p hp => hp,
      ⟨hu.inbox,?_⟩⟩
    refine nodup_map_append hu.prebind fun e he hk => ?_
    have ho := find?_eq_none.mp hn e he
    simp_all
  | stored c db' result hl hn hpr =>
    refine Retained.trans ?_ (retained_of_unmoved hpr.unmoved.1 ⟨?_,hu.prebind⟩)
    all_goals
      have hf := nodup_map_append (r := ⟨ids.inbox,p.tenantID,p.merchantID,p.providerID,
        c.order.id,c.route.id,p.providerEventID,p.evidence⟩) hu.inbox fun e he hk => by
          have ho := find?_eq_none.mp hn e he
          simp_all
    · exact ⟨fun e he => mem_append_left _ he,fun e he => ⟨e,he,rfl⟩,fun p hp => hp,
        ⟨hf,hu.prebind⟩⟩
    · exact hf

lemma ingestVerifiedProviderPayment_retained {prebind : Option PrebindClaim}
    (hu : UniqueEvidence db)
    (h : ingestVerifiedProviderPayment ext db p prebind clock ids = .ok (db',result)) :
    Retained db db' := by
  simp only [ingestVerifiedProviderPayment,do_ok] at h
  obtain ⟨-,h⟩ := h
  split at h
  · exact ingested_retained (ingestEvent_ingested h) hu
  · simp only [do_ok,updateOne_eq_ok] at h
    obtain ⟨-,⟨mid,result'⟩,hev,-,rows,⟨-,rfl⟩,rfl,-⟩ := h
    have hm := ingested_retained (ingestEvent_ingested hev) hu
    refine hm.trans ⟨fun e he => he,fun e he => ?_,fun p hp => hp,⟨hm.unique.inbox,?_⟩⟩
    · refine ⟨_,mem_update.mpr ⟨e,he,rfl⟩,?_⟩
      split_ifs <;> rfl
    · rw [map_update]
      · exact hm.unique.prebind
      · exact fun _ _ _ => rfl

end

/-- The facts of the event are stored, in the inbox where its order is looked up. -/
def Stored (db : Database) (p : VerifiedProviderPayment) : Prop :=
  (∃ e ∈ db.prebindInbox, e.providerID = p.providerID ∧ e.providerEventID = p.providerEventID ∧
      e.evidence = p.evidence) ∨
    ((loadHostedSettlementCandidate db p).isSome ∧ ∃ e ∈ db.providerInbox,
      e.providerID = p.providerID ∧ e.providerEventID = p.providerEventID ∧ e.evidence = p.evidence)

/-- Nothing happened to the event since: its order was not bound before the pre-bound evidence was
replayed, and no other facts were kept aside under its id. -/
structure Undisturbed (db : Database) (p : VerifiedProviderPayment) : Prop where
  replayed : loadHostedSettlementCandidate db p = none ∨ ∃ e ∈ db.providerInbox,
    e.providerID = p.providerID ∧ e.providerEventID = p.providerEventID ∧ e.evidence = p.evidence
  sole : ∀ e ∈ db.prebindInbox, e.providerID = p.providerID →
    e.providerEventID = p.providerEventID → e.evidence = p.evidence

def Repeats (ext : Externals) (db : Database) (p : VerifiedProviderPayment) (clock : ℤ)
    (ids : HostedIDs) : Prop :=
  ∃ r, ingestVerifiedProviderPayment ext db p none clock ids = .ok r ∧ r.2.duplicate = true ∧
    r.1.intents = db.intents ∧ r.1.paymentMatches = db.paymentMatches ∧ r.1.ledger = db.ledger

variable {q : VerifiedProviderPayment}

section
variable {ids : HostedIDs} {result : HostedSettlementResult}

lemma UniqueEvidence.find_prebind (h : UniqueEvidence db) {e : PrebindEvent}
    (he : e ∈ db.prebindInbox) (hpr : e.providerID = p.providerID)
    (hev : e.providerEventID = p.providerEventID) :
    db.prebindInbox.find? (fun e => e.providerID = p.providerID ∧
      e.providerEventID = p.providerEventID) = some e := by
  have hk := find?_key h.prebind he
  simpa only [Prod.mk.injEq,hpr,hev] using hk

lemma UniqueEvidence.find_inbox (h : UniqueEvidence db) {e : ProviderInboxEvent}
    (he : e ∈ db.providerInbox) (hpr : e.providerID = p.providerID)
    (hev : e.providerEventID = p.providerEventID) :
    db.providerInbox.find? (fun e => e.providerID = p.providerID ∧
      e.providerEventID = p.providerEventID) = some e := by
  have hk := find?_key h.inbox he
  simpa only [Prod.mk.injEq,hpr,hev] using hk

lemma ingested_stores (h : Ingested ext db p ids db' result) : Stored db' p := by
  cases h with
  | knownAside e result hl hf hsame hd ho =>
    obtain ⟨he,hpr,hev⟩ := mem_of_find? hf
    exact .inl ⟨e,he,hpr,hev,hsame⟩
  | known e result hl has hf hsame hd ho =>
    obtain ⟨he,hpr,hev⟩ := mem_of_find? hf
    exact .inr ⟨hl,e,he,hpr,hev,hsame⟩
  | aside result hl hn hd ho =>
    exact .inl ⟨_,mem_concat_self,rfl,rfl,rfl⟩
  | stored c db' result hl hn hpr =>
    have hu := hpr.unmoved.1
    have hbo : (loadHostedSettlementCandidate db p).isSome := by rw [hl]; rfl
    have hm : ⟨ids.inbox,p.tenantID,p.merchantID,p.providerID,c.order.id,c.route.id,
        p.providerEventID,p.evidence⟩ ∈ db'.providerInbox := by
      rw [hu.inbox]
      exact mem_concat_self
    exact .inr ⟨bound_of_keys hu.orders hu.routes hu.intents hbo,_,hm, rfl,rfl,rfl⟩

lemma Stored.later (h : Stored db p) (hl : Retained db db') : Stored db' p := by
  rcases h with ⟨e,he,hpr,hev,hsame⟩ | ⟨hbo,e,he,hfa⟩
  · obtain ⟨e',he',hf⟩ := hl.prebind e he
    simp only [frozen,Prod.mk.injEq] at hf
    obtain ⟨-,hpr',hev',hei⟩ := hf
    exact .inl ⟨e',he',hpr'.trans hpr,hev'.trans hev,hei.trans hsame⟩
  · exact .inr ⟨hl.bound p hbo,e,hl.inbox e he,hfa⟩

structure SameEvent (p q : VerifiedProviderPayment) : Prop where
  tenantID : q.tenantID = p.tenantID
  merchantID : q.merchantID = p.merchantID
  providerID : q.providerID = p.providerID
  providerReference : q.providerReference = p.providerReference
  providerEventID : q.providerEventID = p.providerEventID

lemma SameEvent.load (h : SameEvent p q) (db : Database) :
    loadHostedSettlementCandidate db q = loadHostedSettlementCandidate db p := by
  unfold loadHostedSettlementCandidate
  rw [h.tenantID,h.merchantID,h.providerID,h.providerReference]

/-- A delivery repeats exactly the stored facts of an event that nothing disturbed. -/
theorem repeats_iff (hu : UniqueEvidence db) (hst : Stored db p) (hee : SameEvent p q)
    (ho : q.tenantID ≠ "" ∧ q.merchantID ≠ "") :
    Repeats ext db q clock ids ↔ q.evidence = p.evidence ∧ Undisturbed db p := by
  have hl := hee.load db
  constructor
  · rintro ⟨⟨db',result⟩,hi,hd,-⟩
    simp only [ingestVerifiedProviderPayment,do_ok] at hi
    have hef := ingestEvent_ingested hi.2
    cases hef with
    | knownAside e result hn hf hsame _ _ =>
      -- Both deliveries were kept aside, in the one row of the event.
      rw [hl] at hn
      rcases hst with ⟨e',he',hpr,hid,hsame'⟩ | ⟨hbo,-⟩
      · rw [hee.providerID,hee.providerEventID] at hf
        rw [hu.find_prebind he' hpr hid] at hf
        cases hf
        refine ⟨hsame.symm.trans hsame',.inl hn,fun e he hpr hid => ?_⟩
        have hon := (hu.find_prebind he hpr hid).symm.trans
          (hu.find_prebind he' ‹_› ‹_›)
        cases hon
        exact hsame'
      · rw [hn] at hbo
        cases hbo
    | known e result hso has hf hsame _ _ =>
      rw [hee.providerID,hee.providerEventID] at hf has
      obtain ⟨he,hpr,hid⟩ := mem_of_find? hf
      have hev : q.evidence = p.evidence := by
        rcases hst with ⟨e',he',hpr',hid',hsame'⟩ |
          ⟨-,e',he',hpr',hid',hsame'⟩
        · exact (has e' he' hpr' hid').symm.trans hsame'
        · rw [hu.find_inbox he' hpr' hid'] at hf
          cases hf
          exact hsame.symm.trans hsame'
      exact ⟨hev,.inr ⟨e,he,hpr,hid,hsame.trans hev⟩,
        fun e he hpr hid => (has e he hpr hid).trans hev⟩
    | aside result _ _ hfr _ =>
      rw [hfr] at hd
      cases hd
    | stored c db' result _ _ hpr =>
      rw [hpr.unmoved.2] at hd
      cases hd
  · rintro ⟨hev,hun⟩
    unfold Repeats ingestVerifiedProviderPayment ingestEvent
    rw [require_pos ho,hl]
    cases hca : loadHostedSettlementCandidate db p with
    | none =>
      rcases hst with ⟨e,he,hpr,hid,hsame⟩ | ⟨hbo,-⟩
      · simp only [ingestProviderPrebindEvidence,hee.providerID,hee.providerEventID,
          hu.find_prebind he hpr hid,hev,require_pos hsame]
        exact ⟨_,rfl,rfl,rfl,rfl,rfl⟩
      · rw [hca] at hbo
        cases hbo
    | some c =>
      rcases hun.replayed with hn | ⟨e,he,hpr,hid,hsame⟩
      · rw [hn] at hca
        cases hca
      · simp only [ingestBound,hee.providerID,hee.providerEventID,hev,require_pos hun.sole,
          hu.find_inbox he hpr hid,require_pos hsame]
        exact ⟨_,rfl,rfl,rfl,rfl,rfl⟩

end

def CollisionFree (env : Environment) (cfg : HostedProviderConfig) (body : Bytes)
    (headers headers' : Header) : Prop :=
  ∀ secret ∈ env.resolveSecret cfg.callbackSecretRef, ∀ t ∈ headers "Hosted-Timestamp",
    ∀ t' ∈ headers' "Hosted-Timestamp",
      NoCollision (env.crypto.hmacSHA256 secret) (signedCallback cfg t body)
          (signedCallback cfg t' body) ∧
        NoCollision env.crypto.sha256 (env.crypto.hmacSHA256 secret (signedCallback cfg t body))
          (env.crypto.hmacSHA256 secret (signedCallback cfg t' body))

lemma signedCallback_injective (cfg : HostedProviderConfig) (body : Bytes) {t t' : String}
    (h : signedCallback cfg t body = signedCallback cfg t' body) : t = t' := by
  have hte := utf8_injective (append_cancel_right h)
  have hl := (String.append_left_inj "\n").mp hte
  exact (String.append_right_inj _).mp hl

section
variable {env : Environment} {cfg : HostedProviderConfig} {body : Bytes} {headers headers' : Header}
  {now now' : ℤ}

section
variable (hp : verifyCallback env cfg headers body now = .ok p)
  (hq : verifyCallback env cfg headers' body now' = .ok q)
include hp hq

lemma attributed_sameEvent : SameEvent (attributed cfg p) (attributed cfg q) := by
  obtain ⟨t,secret,decoded,amount,status,-,-,hd,-,-,rfl⟩ := verifyCallback_eq_ok hp
  obtain ⟨t',secret',decoded',amount',status',-,-,hd',-,-,rfl⟩ :=
    verifyCallback_eq_ok hq
  rw [hd] at hd'
  cases hd'
  exact ⟨rfl,rfl,rfl,rfl,rfl⟩

/-- A second delivery of an event is the same evidence exactly if its timestamp is the same. -/
theorem attributed_evidence_iff (hf : CollisionFree env cfg body headers headers') :
    (attributed cfg q).evidence = (attributed cfg p).evidence ↔
      headers' "Hosted-Timestamp" = headers "Hosted-Timestamp" := by
  obtain ⟨t,secret,decoded,amount,status,ht,hse,hd,ham,hst,rfl⟩ :=
    verifyCallback_eq_ok hp
  obtain ⟨t',secret',decoded',amount',status',ht',hse',hd',ham',hst',
    rfl⟩ := verifyCallback_eq_ok hq
  rw [hd] at hd'
  cases hd'
  rw [ham] at ham'
  cases ham'
  rw [hst] at hst'
  cases hst'
  rw [hse] at hse'
  cases hse'
  have hdi := hf secret hse t (by simp [ht]) t' (by simp [ht'])
  rw [ht,ht']
  constructor
  · intro he
    have hsi := congrArg ProviderEvidence.signatureDigest he
    have hpr := hdi.2 (hexEncode_injective hsi).symm
    have hsg := hdi.1 hpr
    rw [signedCallback_injective cfg body hsg]
  · intro hti
    cases hti
    rfl

end

end

/-- A later delivery of the body is a duplicate exactly when it carries the timestamp of the first
one and nothing disturbed the event in between. -/
theorem callback_redelivery_iff (env : Environment) (ext : Externals) (cfg : HostedProviderConfig)
    (body : Bytes) (headers headers' : Header) (now now' clock clock' : ℤ) (ids ids' : HostedIDs)
    (db db₁ db₂ : Database) (p q : VerifiedProviderPayment) (result : HostedSettlementResult)
    (hfirst : verifyCallback env cfg headers body now = .ok p)
    (hingest : ingestVerifiedProviderPayment ext db (attributed cfg p) none clock ids =
      .ok (db₁,result)) (hlater : Retained db₁ db₂)
    (hsecond : verifyCallback env cfg headers' body now' = .ok q)
    (hfree : CollisionFree env cfg body headers headers') :
    Repeats ext db₂ (attributed cfg q) clock' ids' ↔
      headers' "Hosted-Timestamp" = headers "Hosted-Timestamp" ∧
        Undisturbed db₂ (attributed cfg p) := by
  have hco := hingest
  simp only [ingestVerifiedProviderPayment,do_eq_ok,exists_require] at hco
  obtain ⟨ho,he⟩ := hco
  have hst := (ingested_stores (ingestEvent_ingested he)).later hlater
  rw [repeats_iff hlater.unique hst (attributed_sameEvent hfirst hsecond) ho,
    attributed_evidence_iff hfirst hsecond hfree]

def sampleCrypto : Crypto where
  sha256 bytes := List.replicate 31 0 ++ [bytes.foldl (·+·) 0]
  hmacSHA256 _ message := List.replicate 31 0 ++ [message.foldl (·+·) 0]

def sampleEnvironment : Environment where
  crypto := sampleCrypto
  isHTTPSOrigin _ := true
  resolveSecret _ := some (List.replicate 32 7)
  decodeStrictJSON _ := .ok ⟨"event-c","reference","paid","usdt","100",6,51⟩

def sampleConfig : HostedProviderConfig where
  id := "provider"
  tenantID := "tenant"
  merchantID := "merchant"
  adapterKind := "hmac_json_v1"
  apiOrigin := "https://provider"
  createPath := "/create"
  paymentURLOrigins := ["https://provider"]
  credentialRef := "credential"
  apiKeyID := "api"
  callbackSecretRef := "secret"
  callbackKeyID := "key"
  callbackSignatureKind := "hmac-sha256"
  assetID := "usdt"
  currency := "USD"
  status := .active
  configManifestID := "manifest"
  configVersion := 1

def sampleBody : Bytes := [1,2,3]

def sampleHeaders (timestampText : String) : Header
  | "Hosted-Timestamp" => [timestampText]
  | "Hosted-Key-Id" => ["key"]
  | "Hosted-Signature" => [hexEncode (sampleCrypto.hmacSHA256 []
      (signedCallback sampleConfig timestampText sampleBody))]
  | _ => []

/-- The delivery of the body that is signed for the given second and arrives in it. -/
abbrev sampleDelivery (time : ℕ) : Except Domain.Failure VerifiedProviderPayment :=
  verifyCallback sampleEnvironment sampleConfig (sampleHeaders (toString time)) sampleBody
    (time*second)

abbrev sampleIngest (db : Database) (p : VerifiedProviderPayment) (clock : ℤ) :
    Except Domain.Failure (Database × HostedSettlementResult) :=
  ingestVerifiedProviderPayment sampleExternals db (attributed sampleConfig p) none clock
    sampleHostedIDs

theorem callback_redelivery_sample :
    ∃ p r, sampleDelivery 100 = .ok p ∧ sampleIngest sampleOrdered p 60 = .ok r ∧
      Repeats sampleExternals r.1 (attributed sampleConfig p) 61 sampleHostedIDs := by
  have hco : ∃ p, sampleDelivery 100 = .ok p ∧ ∃ r, sampleIngest sampleOrdered p 60 = .ok r ∧
        (∃ e ∈ r.1.providerInbox, e.providerID = (attributed sampleConfig p).providerID ∧
          e.providerEventID = (attributed sampleConfig p).providerEventID ∧
          e.evidence = (attributed sampleConfig p).evidence) ∧ r.1.prebindInbox = [] := by
    decide +kernel
  obtain ⟨p,hv,⟨db₁,result⟩,hi,hk,has⟩ := hco
  have hu : UniqueEvidence sampleOrdered := ⟨by decide,by decide⟩
  have hre := ingestVerifiedProviderPayment_retained hu hi
  refine ⟨p,_,hv,hi,(callback_redelivery_iff _ _ _ _ _ _ _ _ _ _ _ _ _ _ _ _ _ _
    hv hi (.refl hre.unique) hv ?_).mpr ⟨rfl,.inr hk,?_⟩⟩
  · unfold CollisionFree NoCollision
    decide +kernel
  · rw [has]
    simp

/-- The next delivery of the body, one second later, is refused as a conflict. -/
theorem callback_redelivery_refused :
    ∃ p, sampleDelivery 100 = .ok p ∧ ∃ q, sampleDelivery 101 = .ok q ∧
      ∃ r, sampleIngest sampleOrdered p 60 = .ok r ∧ sampleIngest r.1 q 61 = .error ⟨.idempotencyConflict,
        "provider event id was replayed with different canonical facts"⟩ := by
  decide +kernel

end Ocrypt.CallbackReplays
