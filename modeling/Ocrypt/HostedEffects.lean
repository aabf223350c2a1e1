import Ocrypt.HostedSettlement

/-! What a committed `IngestVerifiedProviderPayment` does: it keeps evidence, or it settles the intent
of the order. -/
namespace Ocrypt.HostedEffects
open Fallible Table Store Writes Settlement HostedSettlement

/-- A paid event settles the intent of its order and closes the routes of the intent. -/
structure SettledHosted (ext : Externals) (db : Database) (c : HostedSettlementCandidate)
    (inboxID : String) (ids : HostedIDs) (db' : Database) : Prop where
  result : ∃ intents providerOrders callbacks,
    db' = { db with
      paymentMatches := db.paymentMatches ++ [hostedMatch c inboxID ids.matchID]
      ledger := db.ledger ++ [hostedLedger ext c inboxID ids.settlement]
      intents := intents
      routes := (closeIntentRoutes db c).routes
      reservations := (releaseSiblings (closeIntentRoutes db c) c.intent.id c.route.id
        c.order.tenantID).reservations
      providerOrders := providerOrders
      callbacks := callbacks }

/-- The evidence tables; an event that does not settle writes nothing else. -/
structure EvidenceOnly (db db' : Database) : Prop where
  result : ∃ providerOrders providerInbox prebindInbox reconciliationIncidents runtimeIncidents,
    db' = { db with
      providerOrders := providerOrders
      providerInbox := providerInbox
      prebindInbox := prebindInbox
      reconciliationIncidents := reconciliationIncidents
      runtimeIncidents := runtimeIncidents }

lemma EvidenceOnly.refl (db : Database) : EvidenceOnly db db := ⟨_,_,_,_,_,rfl⟩

lemma EvidenceOnly.trans {db mid db' : Database} (h₁ : EvidenceOnly db mid)
    (h₂ : EvidenceOnly mid db') : EvidenceOnly db db' := by
  obtain ⟨_,_,_,_,_,rfl⟩ := h₁.result
  obtain ⟨_,_,_,_,_,rfl⟩ := h₂.result
  exact ⟨_,_,_,_,_,rfl⟩

/-- No evidence is added, and the rows that bind an event to its intent keep their keys. -/
structure Unmoved (db db' : Database) : Prop where
  inbox : db'.providerInbox = db.providerInbox
  prebind : db'.prebindInbox = db.prebindInbox
  orders : db'.providerOrders.map (fun o =>
      (o.providerID,o.providerReference,o.tenantID,o.merchantID,o.routeID)) =
    db.providerOrders.map fun o =>
      (o.providerID,o.providerReference,o.tenantID,o.merchantID,o.routeID)
  routes : db'.routes.map (fun r => (r.id,r.tenantID,r.intentID)) =
    db.routes.map fun r => (r.id,r.tenantID,r.intentID)
  intents : db'.intents.map (fun i => (i.id,i.tenantID)) =
    db.intents.map fun i => (i.id,i.tenantID)

lemma Unmoved.refl (db : Database) : Unmoved db db := ⟨rfl,rfl,rfl,rfl,rfl⟩

lemma Unmoved.trans {db mid db' : Database} (h₁ : Unmoved db mid) (h₂ : Unmoved mid db') : Unmoved db db' :=
  ⟨h₂.inbox.trans h₁.inbox,h₂.prebind.trans h₁.prebind,h₂.orders.trans h₁.orders,
    h₂.routes.trans h₁.routes,h₂.intents.trans h₁.intents⟩

/-- What an event does that settles nothing. -/
structure Kept (db db' : Database) : Prop extends EvidenceOnly db db', Unmoved db db'

lemma Kept.refl (db : Database) : Kept db db := ⟨.refl db,.refl db⟩

lemma Kept.trans {db mid db' : Database} (h₁ : Kept db mid) (h₂ : Kept mid db') : Kept db db' :=
  ⟨h₁.1.trans h₂.1,h₁.2.trans h₂.2⟩

section
variable {ext : Externals} {db db' : Database} {c : HostedSettlementCandidate}
  {p : VerifiedProviderPayment} {ids : HostedIDs} {inboxID : String}
  {result : HostedSettlementResult}

lemma recordProviderReconciliationIncident_kept (db : Database)
    (c : HostedSettlementCandidate) (inboxID : String) (kind : IncidentKind) :
    Kept db (recordProviderReconciliationIncident db c inboxID kind) := by
  unfold recordProviderReconciliationIncident
  split
  · exact .refl db
  · exact ⟨⟨_,_,_,_,_,rfl⟩,rfl,rfl,rfl,rfl,rfl⟩

lemma recordPausedProviderCallbackIncident_kept (db : Database)
    (c : HostedSettlementCandidate) (rawDigest : String) :
    Kept db (recordPausedProviderCallbackIncident db c rawDigest) := by
  unfold recordPausedProviderCallbackIncident
  split
  · exact .refl db
  · exact ⟨⟨_,_,_,_,_,rfl⟩,rfl,rfl,rfl,rfl,rfl⟩

lemma advanceOrder_kept (db : Database) (c : HostedSettlementCandidate)
    (p : VerifiedProviderPayment) : Kept db (advanceOrder db c p) :=
  ⟨⟨_,_,_,_,_,rfl⟩,rfl,rfl,map_update fun _ _ _ => rfl,rfl,rfl⟩

lemma supersedeOrder_kept (db : Database) (c : HostedSettlementCandidate) :
    Kept db (supersedeOrder db c) :=
  ⟨⟨_,_,_,_,_,rfl⟩,rfl,rfl,map_update fun _ _ _ => rfl,rfl,rfl⟩

lemma settleHosted_settled (h : settleHosted ext db c inboxID ids = .ok db') :
    SettledHosted ext db c inboxID ids db' ∧ Unmoved db db' := by
  simp only [settleHosted,do_ok,updateOne_eq_ok] at h
  obtain ⟨d₁,hm,d₂,hp,intents,⟨-,rfl⟩,hca⟩ := h
  obtain ⟨-,-,-,rfl⟩ := insertMatch_eq_ok.mp hm
  obtain ⟨-,rfl⟩ := postLedger_eq_ok.mp hp
  obtain ⟨-,-,-,rfl⟩ := insertCallback_eq_ok.mp hca
  exact ⟨⟨_,_,_,rfl⟩,rfl,rfl,map_update fun _ _ _ => rfl,map_update fun _ _ _ => rfl,
    map_update fun _ _ _ => rfl⟩

/-- What becomes of an event that was not stored before. -/
inductive Processed (ext : Externals) (db : Database) (c : HostedSettlementCandidate)
    (p : VerifiedProviderPayment) (ids : HostedIDs) (db' : Database)
    (result : HostedSettlementResult) : Prop
  | kept (hkept : Kept db db') (hnew : result.duplicate = false) (hopen : result.settled = false)
  | settled (hsettled : SettledHosted ext (advanceOrder db c p) c ids.inbox ids db')
      (hunmoved : Unmoved db db') (hnew : result.duplicate = false)
      (hclosed : result.settled = true)

lemma Processed.unmoved (h : Processed ext db c p ids db' result) :
    Unmoved db db' ∧ result.duplicate = false := by
  cases h with
  | kept hk hn => exact ⟨hk.2,hn⟩
  | settled hs hu hn => exact ⟨hu,hn⟩

lemma processEvent_effect (h : processEvent ext db c p ids = .ok (db',result)) :
    Processed ext db c p ids db' result := by
  unfold processEvent at h
  split at h
  · cases h
    exact .kept (recordPausedProviderCallbackIncident_kept db c p.rawDigest) rfl rfl
  split at h
  · cases h
    exact .kept (recordProviderReconciliationIncident_kept _ _ _ _) rfl rfl
  split at h
  · cases h
    exact .kept (recordProviderReconciliationIncident_kept _ _ _ _) rfl rfl
  split at h
  · cases h
    exact .kept (.refl db) rfl rfl
  have had := advanceOrder_kept db c p
  split at h
  · cases h
    refine .kept (had.trans ?_) rfl rfl
    split
    · exact recordProviderReconciliationIncident_kept _ _ _ _
    · exact .refl _
  split at h
  · cases h
    exact .kept had rfl rfl
  split at h
  · cases h
    exact .kept (had.trans (recordProviderReconciliationIncident_kept _ _ _ _)) rfl rfl
  split at h
  · cases h
    exact .kept (had.trans (supersedeOrder_kept _ _)) rfl rfl
  split at h
  · cases h
    exact .kept had rfl rfl
  · obtain ⟨d,hse,hr⟩ := map_eq_ok.mp h
    cases hr
    obtain ⟨hs,hu⟩ := settleHosted_settled hse
    exact .settled hs (had.2.trans hu) rfl rfl

/-- What a committed ingest does with the evidence: it knows the event, keeps it aside, or stores it
and processes it. -/
inductive Ingested (ext : Externals) (db : Database) (p : VerifiedProviderPayment)
    (ids : HostedIDs) : Database → HostedSettlementResult → Prop
  | knownAside (e : PrebindEvent) (result : HostedSettlementResult)
      (hload : loadHostedSettlementCandidate db p = none)
      (hfind : db.prebindInbox.find? (fun e => e.providerID = p.providerID ∧
        e.providerEventID = p.providerEventID) = some e)
      (hsame : e.evidence = p.evidence) (hduplicate : result.duplicate = true)
      (hopen : result.settled = false) : Ingested ext db p ids db result
  | known (e : ProviderInboxEvent) (result : HostedSettlementResult)
      (hload : (loadHostedSettlementCandidate db p).isSome)
      (haside : ∀ e ∈ db.prebindInbox, e.providerID = p.providerID →
        e.providerEventID = p.providerEventID → e.evidence = p.evidence)
      (hfind : db.providerInbox.find? (fun e => e.providerID = p.providerID ∧
        e.providerEventID = p.providerEventID) = some e)
      (hsame : e.evidence = p.evidence) (hduplicate : result.duplicate = true)
      (hopen : result.settled = false) : Ingested ext db p ids db result
  | aside (result : HostedSettlementResult)
      (hload : loadHostedSettlementCandidate db p = none)
      (hnew : db.prebindInbox.find? (fun e => e.providerID = p.providerID ∧
        e.providerEventID = p.providerEventID) = none)
      (hduplicate : result.duplicate = false) (hopen : result.settled = false) :
      Ingested ext db p ids
        { db with prebindInbox := db.prebindInbox ++ [⟨ids.prebind,p.tenantID,p.merchantID,
          p.providerID,p.providerEventID,p.evidence,.pending,none,none,none⟩] } result
  | stored (c : HostedSettlementCandidate) (db' : Database) (result : HostedSettlementResult)
      (hload : loadHostedSettlementCandidate db p = some c)
      (hnew : db.providerInbox.find? (fun e => e.providerID = p.providerID ∧
        e.providerEventID = p.providerEventID) = none)
      (hprocessed : Processed ext { db with providerInbox := db.providerInbox ++ [⟨ids.inbox,
        p.tenantID,p.merchantID,p.providerID,c.order.id,c.route.id,p.providerEventID,p.evidence⟩] }
        c p ids db' result) : Ingested ext db p ids db' result

lemma ingestEvent_ingested (h : ingestEvent ext db p ids = .ok (db',result)) :
    Ingested ext db p ids db' result := by
  unfold ingestEvent at h
  split at h
  · rename_i hl
    unfold ingestProviderPrebindEvidence at h
    split at h
    · rename_i e hf
      simp only [do_ok] at h
      obtain ⟨hsame,rfl,rfl⟩ := h
      exact .knownAside e _ hl hf hsame rfl rfl
    · rename_i hn
      simp only [do_ok,insertUnique_eq_ok] at h
      obtain ⟨rows,⟨-,rfl⟩,rfl,rfl⟩ := h
      exact .aside _ hl hn rfl rfl
  · rename_i c hl
    simp only [ingestBound,do_ok] at h
    obtain ⟨has,h⟩ := h
    split at h
    · rename_i e hf
      simp only [do_ok] at h
      obtain ⟨hsame,rfl,rfl⟩ := h
      exact .known e _ (by rw [hl]; rfl) has hf hsame rfl rfl
    · rename_i hn
      simp only [do_ok,insertUnique_eq_ok] at h
      obtain ⟨rows,⟨-,rfl⟩,hpr⟩ := h
      exact .stored c db' result hl hn (processEvent_effect hpr)

lemma Ingested.effect (h : Ingested ext db p ids db' result) :
    (EvidenceOnly db db' ∧ result.settled = false) ∨
      ∃ c d, loadHostedSettlementCandidate db p = some c ∧ EvidenceOnly db d ∧
        SettledHosted ext d c ids.inbox ids db' ∧ result.settled = true := by
  cases h with
  | knownAside e result hl hf hsame hd ho | known e result hl has hf hsame hd ho =>
    exact .inl ⟨.refl _,ho⟩
  | aside result hl hn hd ho => exact .inl ⟨⟨_,_,_,_,_,rfl⟩,ho⟩
  | stored c db' result hl hn hpr =>
    have hst : ∀ rows, EvidenceOnly db { db with providerInbox := rows } := fun _ =>
      ⟨_,_,_,_,_,rfl⟩
    cases hpr with
    | kept hk _ hse => exact .inl ⟨(hst _).trans hk.1,hse⟩
    | settled hse _ _ hr => exact .inr ⟨c,_,hl,(hst _).trans (advanceOrder_kept _ c p).1,hse,hr⟩

/-- A committed ingest keeps evidence, or it settles and at most attaches its pre-bound evidence. -/
theorem ingestVerifiedProviderPayment_effect {prebind : Option PrebindClaim} {clock : ℤ}
    (h : ingestVerifiedProviderPayment ext db p prebind clock ids = .ok (db',result)) :
    (EvidenceOnly db db' ∧ result.settled = false) ∨
      ∃ c d d', loadHostedSettlementCandidate db p = some c ∧ EvidenceOnly db d ∧
        SettledHosted ext d c ids.inbox ids d' ∧ EvidenceOnly d' db' ∧ result.settled = true := by
  simp only [ingestVerifiedProviderPayment,do_ok] at h
  obtain ⟨-,h⟩ := h
  split at h
  · rcases (ingestEvent_ingested h).effect with he | ⟨c,d,hc,hd,hse,hr⟩
    · exact .inl he
    · exact .inr ⟨c,d,db',hc,hd,hse,.refl _,hr⟩
  · simp only [do_ok] at h
    obtain ⟨-,⟨mid,result'⟩,hev,-,rows,-,hr⟩ := h
    cases hr
    have hat : EvidenceOnly mid { mid with prebindInbox := rows } := ⟨_,_,_,_,_,rfl⟩
    rcases (ingestEvent_ingested hev).effect with ⟨he,hse⟩ | ⟨c,d,hc,hd,hse,hr⟩
    · exact .inl ⟨he.trans hat,hse⟩
    · exact .inr ⟨c,d,mid,hc,hd,hse,hat,hr⟩

lemma loadHostedSettlementCandidate_eq_some (h : loadHostedSettlementCandidate db p = some c) :
    c.order ∈ db.providerOrders ∧ c.order.tenantID = p.tenantID ∧ c.order.merchantID = p.merchantID := by
  unfold loadHostedSettlementCandidate at h
  simp only [Option.bind_eq_bind,Option.bind_eq_some_iff,Option.pure_def,Option.some.injEq] at h
  obtain ⟨order,ho,route,-,intent,-,rfl⟩ := h
  obtain ⟨hme,-,-,hte,hm⟩ := mem_of_find? ho
  exact ⟨hme,hte,hm⟩

end

end Ocrypt.HostedEffects
