import Ocrypt.HostedEffects
import Ocrypt.ResolutionEffects
import Ocrypt.SettlementBooks

/-! The sibling routes of an intent after a settlement. The exact and the hosted path close them;
the automated and the manual path close the paid route only. -/
namespace Ocrypt.SiblingRoutes
open Domain Matching Table Store Settlement MatchingJobs MatchingStore Resolutions HostedSettlement
  Scanner Reorg Transactions Workers IngestEffects MatchingEffects ReorgEffects ResolutionEffects
  HostedEffects SettlementBooks

abbrev SiblingsClosed (db : Database) (intentID routeID tenantID : String) : Prop :=
  ∀ r ∈ db.routes, siblingRoute intentID routeID tenantID r → ¬r.status.Matchable ∧
    ∀ a ∈ db.reservations, a.routeID = r.id → a.tenantID = r.tenantID → a.state ≠ .active

/-- The match is final and was not so in `db`. -/
abbrev NewlyFinal (db : Database) (m : PaymentMatch) : Prop :=
  m.state = .finalized ∧ ∀ p ∈ db.paymentMatches, p.id = m.id → p.state ≠ .finalized

section
variable {db db' : Database} {intentID routeID tenantID : String}

lemma siblingsClosed_congr (hro : db'.routes = db.routes)
    (hr : db'.reservations = db.reservations) :
    SiblingsClosed db' intentID routeID tenantID ↔ SiblingsClosed db intentID routeID tenantID := by
  simp [SiblingsClosed,hro,hr]

lemma siblingsClosed_closeOwnRoute (db : Database) (intentID routeID tenantID ownTenantID : String) :
    SiblingsClosed (closeOwnRoute db routeID ownTenantID) intentID routeID tenantID ↔
      SiblingsClosed db intentID routeID tenantID := by
  have hro : ∀ r, r.id ≠ routeID →
      (r ∈ (closeOwnRoute db routeID ownTenantID).routes ↔ r ∈ db.routes) := by
    intro r hr
    simp only [closeOwnRoute,mem_update_iff]
    constructor
    · rintro (⟨hm,-⟩ | ⟨s,-,⟨hid,-⟩,rfl⟩)
      · exact hm
      · exact absurd hid hr
    · exact fun hm => .inl ⟨hm,fun h => hr h.1⟩
  have hre : ∀ a, a.routeID ≠ routeID →
      (a ∈ (closeOwnRoute db routeID ownTenantID).reservations ↔ a ∈ db.reservations) := by
    intro a ha
    simp only [closeOwnRoute,mem_update_iff]
    constructor
    · rintro (⟨hm,-⟩ | ⟨s,-,⟨hid,-⟩,rfl⟩)
      · exact hm
      · exact absurd hid ha
    · exact fun hm => .inl ⟨hm,fun h => ha h.1⟩
  constructor
  · intro h r hr hsi
    obtain ⟨hst,hrl⟩ := h r ((hro r hsi.2.1).mpr hr) hsi
    refine ⟨hst,fun a ha hid => hrl a ((hre a ?_).mpr ha) hid⟩
    rw [hid]
    exact hsi.2.1
  · intro h r hr hsi
    obtain ⟨hst,hrl⟩ := h r ((hro r hsi.2.1).mp hr) hsi
    refine ⟨hst,fun a ha hid => hrl a ((hre a ?_).mp ha) hid⟩
    rw [hid]
    exact hsi.2.1

/-- Once the reservations are released, only the routes of the siblings are left to close. -/
theorem siblingsClosed_releaseSiblings (db : Database) (intentID routeID tenantID : String) :
    SiblingsClosed (releaseSiblings db intentID routeID tenantID) intentID routeID tenantID ↔
      ∀ r ∈ db.routes, siblingRoute intentID routeID tenantID r → ¬r.status.Matchable := by
  constructor
  · exact fun h r hr hsi => (h r hr hsi).1
  · refine fun h r hr hsi => ⟨h r hr hsi,fun a ha hid hte hac => ?_⟩
    rcases mem_update_iff.mp ha with ⟨-,hk⟩ | ⟨s,-,-,rfl⟩
    · exact hk ⟨hac,r,hr,hid,hte,hsi⟩
    · cases hac

lemma superseded_not_matchable : ¬RouteStatus.superseded.Matchable := by decide

lemma supersedeSiblings_unpayable (db : Database) (intentID routeID tenantID : String) :
    ∀ r ∈ (supersedeSiblings db intentID routeID tenantID).routes,
      siblingRoute intentID routeID tenantID r → ¬r.status.Matchable := by
  intro r hr hsi hst
  rcases mem_update_iff.mp hr with ⟨-,hk⟩ | ⟨s,-,-,rfl⟩
  · exact hk ⟨hsi,hst⟩
  · exact superseded_not_matchable hst

lemma closeIntentRoutes_unpayable (db : Database) (c : HostedSettlementCandidate) :
    (∀ r ∈ (closeIntentRoutes db c).routes,
        siblingRoute c.intent.id c.route.id c.order.tenantID r → ¬r.status.Matchable) ↔
      ∀ r ∈ db.routes, siblingRoute c.intent.id c.route.id c.order.tenantID r →
        r.status.Matchable → r.merchantID = c.order.merchantID := by
  constructor
  · intro h r hr hsi hst
    by_contra hm
    exact h r (mem_update_of hr (fun hp => hm hp.2.1)) hsi hst
  · intro h r hr hsi hst
    rcases mem_update_iff.mp hr with ⟨hme,hk⟩ | ⟨s,-,-,rfl⟩
    · exact hk ⟨hsi.2.2,h r hme hsi hst,hsi.1,hst⟩
    · have hid : s.id ≠ c.route.id := hsi.2.1
      simp only [if_neg hid] at hst
      exact superseded_not_matchable hst

end

section
variable {ext : Externals} {db db' : Database} {m : PaymentMatch} {ids : ReconcileIDs} {clock : ℤ}

/-- A final match was final before the allocation or is one of its route. -/
theorem allocated_final {r : AutomatedMatchingRoute} {aggregateID : String}
    {d : AutomatedMatchDecision} {state : MatchState}
    {as : List MatchAllocation} {rows rows' : List PaymentMatch}
    (h : Allocated r aggregateID d state ids as rows rows')
    (ho : OneActive rows)
    (hm : m ∈ rows') (hf : m.state = .finalized) :
    (∃ p ∈ rows, p.id = m.id ∧ p.state = .finalized ∧ p.routeID = m.routeID ∧
        p.intentID = m.intentID) ∨ (m.routeID = r.route.id ∧ m.intentID = r.route.intentID) := by
  induction h with
  | nil rows => exact .inl ⟨m,hm,rfl,hf,rfl,rfl⟩
  | cons first later ih =>
    have ho' := oneActive_persisted first ho
    cases first with
    | inserted hu =>
      rcases ih ho' hm with ⟨p,hp,hid,hst,hro,hi⟩ | hro
      · rcases mem_snoc.mp hp with hp | rfl
        · exact .inl ⟨p,hp,hid,hst,hro,hi⟩
        · exact .inr ⟨hro.symm,hi.symm⟩
      · exact .inr hro
    | upgraded stored hme hac hro hag hre =>
      rcases ih ho' hm with ⟨p,hp,hid,hst,hpr,hpi⟩ | hro
      · rcases mem_update_iff.mp hp with ⟨hp,-⟩ | ⟨q,hq,hqa,rfl⟩
        · exact .inl ⟨p,hp,hid,hst,hpr,hpi⟩
        · have hso : q = stored := eq_of_countP_le_one (ho _) hme hac hq hqa
          subst hso
          exact .inr ⟨hpr.symm.trans hro.1,hpi.symm.trans hro.2⟩
      · exact .inr hro

/-- What the siblings need for being closed when a step settles by `m`. The exact path asks for
nothing and the hosted path for siblings of its merchant; the other paths leave the siblings as they
are. -/
def ClosesSiblings (db : Database) (m : PaymentMatch) : Action → Prop
  | .ingestAndSettle .. => True
  | .ingestProviderPayment p .. => ∀ r ∈ db.routes,
      siblingRoute m.intentID m.routeID m.tenantID r → r.status.Matchable → r.merchantID = p.merchantID
  | _ => SiblingsClosed db m.intentID m.routeID m.tenantID

lemma siblings_ingest {event : TransferEvent} {now : ℤ} {ids : IngestIDs}
    {result : SettlementResult} (hee : ingestAndSettle ext db event now ids = .ok (db',result))
    (hme : m ∈ db'.paymentMatches) (hm : NewlyFinal db m) :
    SiblingsClosed db' m.intentID m.routeID m.tenantID := by
  obtain ⟨hf,hn⟩ := hm
  obtain ⟨c,hr,-,he⟩ := ingestAndSettle_effect hee
  obtain ⟨rows,hfr⟩ := hr.frame
  have hold : m ∉ c.db.paymentMatches := by
    rw [hfr]
    exact fun hold => hn m hold rfl hf
  rcases he with ⟨-,hcl⟩ | ⟨-,rfl,-⟩
  · generalize result.outcome = outcome at hcl
    cases hcl with
    | noted | unmatched => exact absurd hme hold
    | settled candidate _ hst hca hfi hse =>
      obtain ⟨observations,observationEvents,callbacks,providerOrders,rfl⟩ := hse.result
      rcases mem_snoc.mp hme with hme | rfl
      · exact absurd hme hold
      · have hco := (siblingsClosed_releaseSiblings (supersedeSiblings c.db candidate.intentID
          candidate.routeID candidate.tenantID) _ _ _).mpr (supersedeSiblings_unpayable _ _ _ _)
        exact (siblingsClosed_closeOwnRoute _ _ _ _ candidate.tenantID).mpr hco
  · exact absurd hme hold

lemma siblings_reconcile {worker : String} {job : AutomatedMatchingJob} {now clock : ℤ}
    (hon : OneActive db.paymentMatches)
    (he : reconcileAutomatedMatching ext db worker job now clock ids = .ok db')
    (hme : m ∈ db'.paymentMatches) (hm : NewlyFinal db m) :
    SiblingsClosed db' m.intentID m.routeID m.tenantID ↔
      SiblingsClosed db m.intentID m.routeID m.tenantID := by
  obtain ⟨hf,hn⟩ := hm
  obtain ⟨r,d,aggregateID,aggregates,d',jobs,-,-,-,hap,-,rfl⟩ :=
    reconcileAutomatedMatching_effect he
  cases hap with
  | collected ho rows hro intents hk | reviewed ho => exact siblingsClosed_congr rfl rfl
  | settled ho rows hro ledger hl intents hk callbacks =>
    rcases allocated_final hro hon hme hf with ⟨p,hp,hid,hst,-⟩ | ⟨hru,hi⟩
    · exact absurd hst (hn p hp hid)
    · rw [hru]
      refine Iff.trans (siblingsClosed_congr rfl rfl)
        (siblingsClosed_closeOwnRoute db _ _ _ r.route.tenantID)

lemma siblings_resolve {job : ResolutionJob} {ids : ManualIDs}
    (he : resolve ext db job clock ids = .ok db') (hme : m ∈ db'.paymentMatches) (hm : NewlyFinal db m) :
    SiblingsClosed db' m.intentID m.routeID m.tenantID ↔
      SiblingsClosed db m.intentID m.routeID m.tenantID := by
  obtain ⟨hf,hn⟩ := hm
  obtain ⟨s,hse⟩ := resolve_settled he
  obtain ⟨callbacks,status,rfl⟩ := hse.result
  rcases mem_snoc.mp hme with hme | rfl
  · exact absurd hf (hn m hme rfl)
  · refine Iff.trans (siblingsClosed_congr rfl rfl)
      (siblingsClosed_closeOwnRoute db _ _ _ s.route.tenantID)

lemma siblings_provider {p : VerifiedProviderPayment} {prebind : Option PrebindClaim}
    {ids : HostedIDs} {result : HostedSettlementResult}
    (hee : ingestVerifiedProviderPayment ext db p prebind clock ids = .ok (db',result))
    (hme : m ∈ db'.paymentMatches) (hm : NewlyFinal db m) :
    SiblingsClosed db' m.intentID m.routeID m.tenantID ↔
      ∀ r ∈ db.routes, siblingRoute m.intentID m.routeID m.tenantID r →
        r.status.Matchable → r.merchantID = p.merchantID := by
  obtain ⟨hf,hn⟩ := hm
  rcases ingestVerifiedProviderPayment_effect hee with ⟨he,-⟩ |
    ⟨c,d,d',hc,hbe,hse,haf,-⟩
  · obtain ⟨_,_,_,_,_,rfl⟩ := he.result
    exact absurd hf (hn m hme rfl)
  · obtain ⟨_,_,_,_,_,rfl⟩ := haf.result
    obtain ⟨_,_,_,rfl⟩ := hse.result
    obtain ⟨_,_,_,_,_,rfl⟩ := hbe.result
    rcases mem_snoc.mp hme with hme | rfl
    · exact absurd hf (hn m hme rfl)
    · rw [← (loadHostedSettlementCandidate_eq_some hc).2.2]
      exact Iff.trans (siblingsClosed_releaseSiblings (closeIntentRoutes db c) _ _ _)
        (closeIntentRoutes_unpayable db c)

lemma siblings_rewind {capability : String} {lease : Lease} {batch : RangeBatch}
    {incidentHeight : ℕ} {ids : ReorgIDs}
    (he : rewindReorg capability db lease batch incidentHeight clock ids = .ok db')
    (hme : m ∈ db'.paymentMatches) : ¬NewlyFinal db m := by
  rintro ⟨hf,hn⟩
  obtain ⟨d,cursors,ho,rfl⟩ := rewindReorg_effect he
  rcases (traverse_orphaned ho).2 m hme with ⟨hold,-⟩ | ⟨m₀,-,rfl⟩
  · exact hn m hold rfl hf
  · cases hf

end

/-- After a committed settlement the siblings of the paid route are closed exactly if the path
closes them or they were closed before. -/
theorem siblings_closed_iff (ext : Externals) (capability : String) (w w' : World) (a : Action)
    (m : PaymentMatch) (hindex : OneActive w.db.paymentMatches)
    (hexec : exec ext capability w a = .ok w') (hmem : m ∈ w'.db.paymentMatches)
    (hm : NewlyFinal w.db m) :
    SiblingsClosed w'.db m.intentID m.routeID m.tenantID ↔ ClosesSiblings w.db m a := by
  cases exec_step hexec with
  | quiet => exact absurd hm.1 (hm.2 m hmem rfl)
  | rewindReorg hd => exact absurd hm (siblings_rewind hd hmem)
  | ingestAndSettle hd => exact iff_of_true (siblings_ingest hd hmem hm) trivial
  | reconcileMatching hd => exact siblings_reconcile hindex hd hmem hm
  | resolve hj hd => exact siblings_resolve hd hmem hm
  | ingestProviderPayment hd => exact siblings_provider hd hmem hm

def sampleSiblings : World where
  db := { sampleBound.db with
    routes := [sampleRouteTo "route" "TMerchant",sampleRouteTo "sibling" "TSibling"]
    reservations := [⟨"reservation","tenant","sibling","tron","TSibling","usdt",
      100,10,200,.active⟩] }

theorem siblings_closed_exact_sample :
    let settle : Action := .ingestAndSettle
      (samplePayment "payment" ⟨100,by decide⟩ "block-7") 60 (sampleIngestIDs "1")
    ∃ w', exec sampleExternals "transfers" sampleSiblings settle = .ok w' ∧
      ∃ m ∈ w'.db.paymentMatches, NewlyFinal sampleSiblings.db m ∧
        SiblingsClosed w'.db m.intentID m.routeID m.tenantID := by
  intro settle
  obtain ⟨w',he,m,hme,hm⟩ : ∃ w', exec sampleExternals "transfers" sampleSiblings settle = .ok w' ∧
      ∃ m ∈ w'.db.paymentMatches, NewlyFinal sampleSiblings.db m := by decide +kernel
  have hi : OneActive sampleSiblings.db.paymentMatches := fun _ => Nat.zero_le 1
  exact ⟨w',he,m,hme,hm,(siblings_closed_iff _ _ _ w' _ m hi he hme hm).mpr trivial⟩

def sampleCollected : World :=
  run (exec sampleExternals "transfers") sampleSiblings sampleAccumulation.dropLast

/-- The accumulated payments settle the first route; the second stays payable. -/
theorem siblings_left_open :
    ∃ w', exec sampleExternals "transfers" sampleCollected (.reconcileMatching "matcher"
        ⟨"route","lease-2",2⟩ 201 (sampleReconcileIDs "2")) = .ok w' ∧
      ∃ m ∈ w'.db.paymentMatches, NewlyFinal sampleCollected.db m ∧
        ¬SiblingsClosed w'.db m.intentID m.routeID m.tenantID := by
  decide +kernel

end Ocrypt.SiblingRoutes
