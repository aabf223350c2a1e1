import Ocrypt.BalancedRuns

/-! Payments that operators see as handled. A payment is bound while its route collects and resolved
when the route is settled, and a match credits it in both cases; but a review that does not list the
payment, and a reorganisation that undoes an aggregate without orphaning the payment, withdraw the
match and leave the payment as it is. -/
namespace Ocrypt.HandledPayments
open Domain Matching MatchingTotals MatchingConservation Fallible Table Store Settlement
  MatchingJobs MatchingStore Scanner Reorg Transactions Workers IngestEffects ReorgEffects
  MatchingEffects SettlementBooks MatchingBooks BalancedRuns List

abbrev Credits (m : PaymentMatch) (eventID routeID : String) : Prop :=
  m.source = .transfer eventID ∧ m.routeID = routeID ∧ m.state ≠ .reversed

/-- Every bound payment has a match to its route and every resolved one a final match; the matches
of an aggregate are to its route. -/
structure Handled (db : Database) : Prop where
  routed : ∀ m ∈ db.paymentMatches, ∀ g ∈ db.aggregates, m.aggregateID = some g.id →
    m.routeID = g.routeID
  bound : ∀ u ∈ db.unmatched, u.status = .bound → ∀ routeID, u.selectedRouteID = some routeID →
    ∃ m ∈ db.paymentMatches, Credits m u.eventID routeID
  resolved : ∀ u ∈ db.unmatched, u.status = .resolved → ∀ routeID,
    u.selectedRouteID = some routeID →
      ∃ m ∈ db.paymentMatches, Credits m u.eventID routeID ∧ m.state = .finalized

variable {ext : Externals} {db db' : Database} {now : ℤ}

/-- New matches outside the aggregates and new open payments keep the invariant. -/
theorem Handled.grow (h : Handled db) (har : db'.aggregates = db.aggregates)
    (hk : ∀ m ∈ db.paymentMatches, m ∈ db'.paymentMatches)
    (hne : ∀ m ∈ db'.paymentMatches, m ∈ db.paymentMatches ∨ m.aggregateID = none)
    (hro : ∀ u ∈ db'.unmatched, u ∈ db.unmatched ∨ (u.status ≠ .bound ∧ u.status ≠ .resolved)) :
    Handled db' := by
  refine ⟨fun m hm g hg hag => ?_,fun u hu hst routeID hr => ?_,
    fun u hu hst routeID hr => ?_⟩
  · rw [har] at hg
    rcases hne m hm with hm | hn
    · exact h.routed m hm g hg hag
    · rw [hn] at hag
      cases hag
  · rcases hro u hu with hu | ⟨hbo,-⟩
    · obtain ⟨m,hm,hcr⟩ := h.bound u hu hst routeID hr
      exact ⟨m,hk m hm,hcr⟩
    · exact absurd hst hbo
  · rcases hro u hu with hu | ⟨-,hre⟩
    · obtain ⟨m,hm,hcr⟩ := h.resolved u hu hst routeID hr
      exact ⟨m,hk m hm,hcr⟩
    · exact absurd hst hre

lemma handled_ingest {event : TransferEvent} {ids : IngestIDs}
    {result : SettlementResult} (h : Handled db)
    (hee : ingestAndSettle ext db event now ids = .ok (db',result)) : Handled db' := by
  obtain ⟨c,hr,-,he⟩ := ingestAndSettle_effect hee
  obtain ⟨rows,hf⟩ := hr.frame
  have hc : Handled c.db := by
    rw [hf]
    exact ⟨h.routed,h.bound,h.resolved⟩
  rcases he with ⟨-,hcl⟩ | ⟨-,rfl,-⟩
  · generalize result.outcome = outcome at hcl
    cases hcl with
    | noted => exact ⟨hc.routed,hc.bound,hc.resolved⟩
    | unmatched outcome ho rows candidates callbacks intents jobs hk hro =>
      refine hc.grow rfl (fun m hm => hm) (fun m hm => .inl hm) fun u hu => ?_
      rcases hro u hu with hu | ⟨-,hst⟩
      · exact .inl hu
      · right
        constructor <;> rintro heq <;> simp [heq] at hst
    | settled candidate _ hfn hca hfi hse =>
      obtain ⟨observations,observationEvents,callbacks,providerOrders,rfl⟩ := hse.result
      exact hc.grow rfl (fun m hm => mem_append_left _ hm) (forall_snoc (fun _ => .inl) (.inr rfl))
        fun u hu => .inl hu
  · exact hc

variable {r : AutomatedMatchingRoute} {aggregateID eventID : String} {d : AutomatedMatchDecision}
  {state : MatchState} {rows : List PaymentMatch} {m : PaymentMatch}

section
variable {ids : ReconcileIDs} {as : List MatchAllocation} {rows' : List PaymentMatch}

section
variable (h : Allocated r aggregateID d state ids as rows rows') (hsta : state ≠ .reversed)
  (hone : OneActive rows)
include h hsta hone

theorem allocated_active (hm : m ∈ rows) (hac : m.state ≠ .reversed) :
    m ∈ rows' ∨ (m.aggregateID = some aggregateID ∧ ∃ c, upgradeMatch c state m ∈ rows') := by
  induction h generalizing m with
  | nil rows => exact .inl hm
  | @cons a rest rows mid rows' first later ih =>
    have hone' := oneActive_persisted first hone
    cases first with
    | inserted hu => exact ih hone' (mem_append_left _ hm) hac
    | upgraded stored hme hst hro hag hr =>
      by_cases hse : m.source = .transfer a.eventID ∧ m.state ≠ .reversed
      · have hsame : m = stored := eq_of_countP_le_one (hone _) hme hst hm hse
        subst hsame
        have hup : upgradeMatch a.credited state m ∈ update (fun m =>
            m.source = .transfer a.eventID ∧ m.state ≠ .reversed)
            (upgradeMatch a.credited state) rows :=
          mem_update_self hm hse
        rcases ih hone' hup hsta with hk | ⟨-,c,hc⟩
        · exact .inr ⟨hag,a.credited,hk⟩
        · exact .inr ⟨hag,c,hc⟩
      · exact ih hone' (mem_update_of hm hse) hac

lemma allocated_credits (he : eventID ∈ allocationEventIDs as) :
    ∃ m ∈ rows', Credits m eventID r.route.id ∧ m.state = state := by
  induction h with
  | nil rows => cases he
  | @cons a rest rows mid rows' first later ih =>
    have hone' := oneActive_persisted first hone
    rcases mem_cons.mp he with rfl | he
    · -- The match that this allocation leaves is at most upgraded afterwards.
      have hf : ∃ m ∈ mid, Credits m a.eventID r.route.id ∧ m.state = state := by
        cases first with
        | inserted hu =>
          exact ⟨_,mem_concat_self,⟨rfl,rfl,hsta⟩,rfl⟩
        | upgraded stored hme hst hro hag hre =>
          exact ⟨_,mem_update_self hme hst, ⟨hst.1,hro.1,hsta⟩,rfl⟩
      obtain ⟨m,hm,hcr,hms⟩ := hf
      rcases allocated_active later hsta hone' hm hcr.2.2 with hk | ⟨-,c,hc⟩
      · exact ⟨m,hk,hcr,hms⟩
      · exact ⟨_,hc,⟨hcr.1,hcr.2.1,hsta⟩,rfl⟩
    · exact ih hone' he

end

/-- A match after an allocation was there before it or belongs to its aggregate. -/
theorem allocated_from (h : Allocated r aggregateID d state ids as rows rows') (hm : m ∈ rows') :
    (∃ p ∈ rows, p.aggregateID = m.aggregateID ∧ p.routeID = m.routeID) ∨
      (m.aggregateID = some aggregateID ∧ m.routeID = r.route.id) := by
  induction h with
  | nil rows => exact .inl ⟨m,hm,rfl,rfl⟩
  | cons first later ih =>
    rcases ih hm with ⟨p,hp,hag,hro⟩ | hn
    · cases first with
      | inserted hu =>
        rcases mem_snoc.mp hp with hp | rfl
        · exact .inl ⟨p,hp,hag,hro⟩
        · exact .inr ⟨hag.symm,hro.symm⟩
      | upgraded stored hme hst _ _ _ =>
        rcases mem_update_iff.mp hp with ⟨hp,-⟩ | ⟨q,hq,-,rfl⟩
        · exact .inl ⟨p,hp,hag,hro⟩
        · exact .inl ⟨q,hq,hag,hro⟩
    · exact .inr hn

end

variable {u : UnmatchedPayment}

abbrev BoundTo (routeID : String) (u : UnmatchedPayment) : Prop :=
  u.status = .bound ∧ u.selectedRouteID = some routeID

instance decidableSendersAgree (policy : AutomatedMatchingPolicy) :
    ∀ sender es, Decidable (SendersAgree policy sender es)
  | _, [] => inferInstanceAs (Decidable True)
  | sender, e::es =>
    have := decidableSendersAgree policy (if sender = "" then e.fromAddress else sender) es
    inferInstanceAs (Decidable (_ ∧ _))

/-- The transfers of the route raise nothing that ends its evaluation early, and every payment that
is bound to it is one of those that count. -/
abbrev Complete (policy : AutomatedMatchingPolicy) (route : PaymentRoute)
    (unmatched : List UnmatchedPayment) (canonical : List TransferEvent) : Prop :=
  SendersAgree policy "" (canonical.filter (counted route)) ∧
    (∀ e ∈ canonical.filter (counted route), e.kind = "gasfree_permit_transfer" →
      (pairedFee route policy canonical e).isSome = true) ∧
    ∀ u ∈ unmatched, BoundTo route.id u → u.tenantID = some route.tenantID ∧
      ∃ t ∈ canonical.filter (counted route), t.id = u.eventID

/-- A route with bound payments is evaluated while no other route could claim one of its transfers,
and with all of its bound payments among them. -/
def ReviewsAll (ext : Externals) (db : Database) (r : AutomatedMatchingRoute) : Prop :=
  (∃ u ∈ db.unmatched, BoundTo r.route.id u) →
    (loadAutomatedMatchingEvents ext db r.route).2 = false ∧
      match canonicalEvents ext.hashing.sha256Hex (loadAutomatedMatchingEvents ext db r.route).1 with
      | .ok canonical => Complete r.policy r.route db.unmatched canonical
      | .error _ => True

instance (ext : Externals) (db : Database) (r : AutomatedMatchingRoute) :
    Decidable (ReviewsAll ext db r) := by
  unfold ReviewsAll
  cases canonicalEvents ext.hashing.sha256Hex (loadAutomatedMatchingEvents ext db r.route).1 <;>
    infer_instance

/-- An evaluation with nothing to review allocates every payment that it counts. -/
theorem evaluate_allocates {h : Hashing} {route : PaymentRoute} {policy : AutomatedMatchingPolicy}
    {events canonical : List TransferEvent} (hid : DistinctIDs events)
    (hca : canonicalEvents h.sha256Hex events = .ok canonical)
    (hse : SendersAgree policy "" (canonical.filter (counted route)))
    (hf : ∀ e ∈ canonical.filter (counted route), e.kind = "gasfree_permit_transfer" →
      (pairedFee route policy canonical e).isSome = true)
    (hd : evaluateAutomatedMatch h route events now policy = .ok d)
    {t : TransferEvent} (ht : t ∈ canonical.filter (counted route)) :
    t.id ∈ allocationEventIDs d.allocations := by
  simp only [evaluateAutomatedMatch,do_ok] at hd
  obtain ⟨-,-,-,canonical',hca',hd⟩ := hd
  obtain rfl : canonical' = canonical := Except.ok.inj (hca'.symm.trans hca)
  have hap : FeesApart route canonical' := canonical_feesApart hid hca
  split at hd
  · cases hd
  · rename_i reason tally hr
    exact absurd hr (traverse_collectEvent_not_review hap (fun _ he => he)
      (fun _ hi => absurd hi not_mem_nil) hse hf)
  · rename_i tally hl
    obtain ⟨-,-,had⟩ := (traverse_collectEvent_eq_ok hap (fun _ he => he)
      (fun _ hi => absurd hi not_mem_nil)).mp hl
    have hm : t.id ∈ tally.allocations.map (·.eventID) := by
      rw [had.allocations_eq,map_flatMap,mem_flatMap]
      exact ⟨t,ht,mem_eventAllocations_eventID.mpr (.inl rfl)⟩
    rw [pure_eq_ok] at hd
    subst hd
    rcases judgeTotals_allocations with heq | ⟨credit,heq⟩
    · rw [heq]
      exact hm
    · rw [heq,allocationEventIDs,allocateCredit_map _ fun _ _ => rfl]
      exact hm

lemma decideMatching_lists (hn : (db.transferEvents.map (·.id)).Nodup)
    (hre : ReviewsAll ext db r) (hd : decideMatching ext db r now = .ok d) (hu : u ∈ db.unmatched)
    (hbo : BoundTo r.route.id u) :
    u.tenantID = some r.route.tenantID ∧ u.eventID ∈ allocationEventIDs d.allocations := by
  obtain ⟨hcl,hco⟩ := hre ⟨u,hu,hbo⟩
  unfold decideMatching at hd
  simp only [hcl,Bool.false_eq_true,if_false] at hd
  have hi : DistinctIDs (loadAutomatedMatchingEvents ext db r.route).1 := distinct_loaded hn
  cases hca : canonicalEvents ext.hashing.sha256Hex
      (loadAutomatedMatchingEvents ext db r.route).1 with
  | error e =>
    simp only [evaluateAutomatedMatch,do_ok,hca] at hd
    obtain ⟨-,-,-,canonical,hf,-⟩ := hd
    cases hf
  | ok canonical =>
    rw [hca] at hco
    obtain ⟨hse,hfe,hro⟩ := hco
    obtain ⟨hte,t,ht,hid⟩ := hro u hu hbo
    rw [← hid]
    exact ⟨hte,evaluate_allocates hi hca hse hfe hd ht⟩

variable {clock : ℤ}

section
variable {newID : String} {ids : ReconcileIDs}

lemma handled_upserted {rows : List MatchAggregate} (hso : Sound (booksOf db)) (h : Handled db)
    (hup : Upserted r d newID db.aggregates aggregateID rows) :
    Handled { db with aggregates := rows } := by
  refine ⟨fun m hm g hg hag => ?_,h.bound,h.resolved⟩
  cases hup with
  | opened hn hid =>
    rcases mem_snoc.mp hg with hg | rfl
    · exact h.routed m hm g hg hag
    · obtain ⟨t,hl⟩ := hso.linked m hm
      obtain ⟨-,g',hg',hid',-⟩ := hl.joint _ hag
      exact absurd hid' (hid g' hg')
  | revised live hme hli ho =>
    exact of_mem_update hg (h.routed m hm) (fun _ h => h) hag

lemma handled_allocated (unmatched : List UnmatchedPayment) (hso : Sound (booksOf db)) (h : Handled db)
    (hro : ∃ g ∈ db.aggregates, g.id = aggregateID ∧ g.routeID = r.route.id)
    (ho : ∀ m ∈ db.paymentMatches, m.aggregateID = some aggregateID → m.state ≠ .finalized)
    (hsta : state ≠ .reversed)
    (hrw : Allocated r aggregateID d state ids d.allocations db.paymentMatches rows)
    (hun : ∀ u ∈ unmatched, u ∈ db.unmatched ∨
      (u.eventID ∈ allocationEventIDs d.allocations ∧ u.selectedRouteID = some r.route.id ∧
        (u.status = .resolved → state = .finalized))) :
    Handled { db with paymentMatches := rows, unmatched := unmatched } := by
  have hone := hso.oneActive
  refine ⟨fun m hm g hg hag => ?_,fun u hu hst routeID hse => ?_,
    fun u hu hst routeID hse => ?_⟩
  · rcases allocated_from hrw hm with ⟨p,hp,hpa,hpr⟩ | ⟨hn,hmr⟩
    · rw [← hpr]
      exact h.routed p hp g hg (hpa.trans hag)
    · obtain ⟨g',hg',hid',hro'⟩ := hro
      have hid : g.id = g'.id := by rw [hid',← Option.some.inj (hag.symm.trans hn)]
      rw [hmr,inj_on_of_nodup_map hso.aggregateIDs hg hg' hid,hro']
  · rcases hun u hu with hu | ⟨hl,hro,-⟩
    · obtain ⟨m,hm,hcr⟩ := h.bound u hu hst routeID hse
      rcases allocated_active hrw hsta hone hm hcr.2.2 with hk | ⟨-,c,hc⟩
      · exact ⟨m,hk,hcr⟩
      · exact ⟨_,hc,hcr.1,hcr.2.1,hsta⟩
    · obtain ⟨m,hm,hcr,-⟩ := allocated_credits hrw hsta hone hl
      rw [Option.some.inj (hse.symm.trans hro)]
      exact ⟨m,hm,hcr⟩
  · rcases hun u hu with hu | ⟨hl,hro,hf⟩
    · -- A final match is in no aggregate that is still open, so it is not rewritten.
      obtain ⟨m,hm,hcr,hmf⟩ := h.resolved u hu hst routeID hse
      rcases allocated_active hrw hsta hone hm hcr.2.2 with hk | ⟨hag,-⟩
      · exact ⟨m,hk,hcr,hmf⟩
      · exact absurd hmf (ho m hm hag)
    · obtain ⟨m,hm,hcr,hms⟩ := allocated_credits hrw hsta hone hl
      rw [Option.some.inj (hse.symm.trans hro)]
      exact ⟨m,hm,hcr,hms.trans (hf hst)⟩

/-- A review keeps the invariant: it reopens every payment bound to the route. -/
theorem handled_review (h : Handled db)
    (hro : ∃ g ∈ db.aggregates, g.id = aggregateID ∧ g.routeID = r.route.id)
    (hli : ∀ u ∈ db.unmatched, BoundTo r.route.id u →
      u.tenantID = some r.route.tenantID ∧ u.eventID ∈ allocationEventIDs d.allocations) :
    Handled (applyReview db r aggregateID d) := by
  refine ⟨fun m hm g hg hag => ?_,fun u hu hst routeID hse => ?_,
    fun u hu hst routeID hse => ?_⟩
  · exact of_mem_update hm h.routed (fun _ h => h) g hg hag
  · rcases mem_update_iff.mp hu with ⟨hu,hk⟩ | ⟨u₀,-,-,rfl⟩
    · obtain ⟨m,hm,hcr⟩ := h.bound u hu hst routeID hse
      refine ⟨m,mem_update_of hm (fun hw => ?_),hcr⟩
      obtain ⟨g,hg,hid,hgr⟩ := hro
      have hm' := h.routed m hm g hg (by rw [hid]; exact hw.1)
      have hbo : BoundTo r.route.id u :=
        ⟨hst,by rw [hse,← hcr.2.1,hm',hgr]⟩
      obtain ⟨hte,hl⟩ := hli u hu hbo
      exact hk ⟨hl,hte,hst⟩
    · cases hst
  · rcases mem_update_iff.mp hu with ⟨hu,-⟩ | ⟨u₀,-,-,rfl⟩
    · obtain ⟨m,hm,hcr,hf⟩ := h.resolved u hu hst routeID hse
      refine ⟨m,mem_update_of hm (fun hw => ?_),hcr,hf⟩
      rw [hf] at hw
      cases hw.2.2
    · cases hst

lemma handled_reconcile {worker : String} {job : AutomatedMatchingJob}
    (hba : Balanced (booksOf db)) (h : Handled db)
    (hf : ∀ tx ∈ db.ledger, tx.businessReference ≠ ids.aggregate)
    (hre : ∀ r, loadAutomatedMatchingRoute ext db job.routeID = .ok r → ReviewsAll ext db r)
    (he : reconcileAutomatedMatching ext db worker job now clock ids = .ok db') : Handled db' := by
  obtain ⟨r,d,aggregateID,aggregates,d',jobs,hlo,hd,hup,hap,-,rfl⟩ :=
    reconcileAutomatedMatching_effect he
  have hso := (hba.upsert hup hf).sound
  have hus := handled_upserted hba.sound h hup
  have hop := (hba.upserted_unsettled hup hf).paymentMatches
  obtain ⟨g,hg,hgi,hgr,-⟩ := upserted_stored hup
  have hag : ∃ g ∈ aggregates, g.id = aggregateID ∧ g.routeID = r.route.id := ⟨g,hg,hgi,hgr⟩
  suffices hd' : Handled d' from ⟨hd'.routed,hd'.bound,hd'.resolved⟩
  cases hap with
  | collected ho rows hro intents hk =>
    have hha := handled_allocated (boundUnmatched db r d) hso hus hag hop (by decide) hro <|
      forall_mem_update (fun _ hu _ => .inl hu) fun _ _ hl =>
        .inr ⟨hl.1,rfl,fun hst => by cases hst⟩
    exact ⟨hha.routed,hha.bound,hha.resolved⟩
  | reviewed ho =>
    refine handled_review hus hag fun u hu hbo => ?_
    exact decideMatching_lists (transferIDs_nodup hba.sound) (hre r hlo) hd hu hbo
  | settled ho rows hro ledger hle intents hk callbacks =>
    have hha := handled_allocated (resolvedUnmatched db r d) hso hus hag hop (by decide) hro <|
      forall_mem_update (fun _ hu _ => .inl hu) fun _ _ hl => .inr ⟨hl.1,rfl,fun _ => rfl⟩
    exact ⟨hha.routed,hha.bound,hha.resolved⟩

end

variable {capability : String}

section
variable {ids : ReorgIDs} {db₀ : Database} {events replaced : List String}

lemma mem_loadReorgSettlements {s : ReorgSettlement} (hs : s ∈ loadReorgSettlements db eventID) :
    ∃ m ∈ db.paymentMatches, m.source = .transfer eventID ∧ m.state ≠ .reversed ∧
      s.matchID = m.id ∧ s.tenantID = m.tenantID ∧ s.aggregateID = m.aggregateID := by
  unfold loadReorgSettlements at hs
  split at hs
  · obtain ⟨m,hm,hs⟩ := mem_flatMap.mp hs
    obtain ⟨hm,hac⟩ := mem_filter.mp hm
    obtain ⟨hso,hac⟩ := of_decide_eq_true hac
    obtain ⟨i,-,hs⟩ := mem_flatMap.mp hs
    obtain ⟨o,-,rfl⟩ := mem_map.mp hs
    exact ⟨m,hm,hso,hac,rfl,rfl,rfl⟩
  · cases hs

/-- A reorganisation that orphans one payment of an aggregate orphans all its payments. -/
abbrev OrphansWhole (db : Database) (replaced : List String) : Prop :=
  ∀ m ∈ db.paymentMatches, ∀ p ∈ db.paymentMatches, m.state ≠ .reversed → p.state ≠ .reversed →
    m.aggregateID ≠ none → p.aggregateID = m.aggregateID → p.tenantID = m.tenantID →
      (∃ e ∈ replaced, m.source = .transfer e) → ∃ e ∈ replaced, p.source = .transfer e

lemma traverse_orphaned_kept (hi : (db₀.paymentMatches.map (·.id)).Nodup)
    (hw : OrphansWhole db₀ replaced) (hsu : ∀ e ∈ events, e ∈ replaced)
    (hold : ∀ p ∈ db.paymentMatches, p.state ≠ .reversed → p ∈ db₀.paymentMatches)
    (h : traverse (orphanTransfer now ids) events db = .ok db') (hm : m ∈ db.paymentMatches)
    (hac : m.state ≠ .reversed) (ho : ∀ e ∈ replaced, m.source ≠ .transfer e) :
    m ∈ db'.paymentMatches := by
  induction events generalizing db with
  | nil =>
    cases h
    exact hm
  | cons e events ih =>
    obtain ⟨mid,hst,hr⟩ := traverse_cons_eq_ok.mp h
    have hor := orphanTransfer_orphaned hst
    obtain ⟨he,hsu⟩ := forall_mem_cons.mp hsu
    refine ih hsu (fun p hp hpa => ?_) hr ?_
    · rw [hor.paymentMatches] at hp
      rcases mem_update_iff.mp hp with ⟨hp,-⟩ | ⟨q,-,-,rfl⟩
      · exact hold p hp hpa
      · exact absurd rfl hpa
    · rw [hor.paymentMatches]
      refine mem_update_of hm ?_
      rintro (⟨s,hs,-,hco⟩ | ⟨hso,-⟩)
      · obtain ⟨p,hp,hps,hpa,hid,hte,hag⟩ := mem_loadReorgSettlements hs
        have hp₀ := hold p hp hpa
        have hm₀ := hold m hm hac
        rcases hco with ⟨-,hmi⟩ | ⟨hsm,hj,hmt⟩
        · have hsame : m = p := inj_on_of_nodup_map hi hm₀ hp₀ (hmi.trans hid)
          exact ho e he (hsame ▸ hps)
        · obtain ⟨e',he',hso'⟩ := hw p hp₀ m hm₀ hpa hac (hag ▸ hsm)
            (hj.trans hag) (hmt.trans hte) ⟨e,he,hps⟩
          exact ho e' he' hso'
      · exact ho e he hso

abbrev Routed (db : Database) : Prop :=
  ∀ m ∈ db.paymentMatches, ∀ g ∈ db.aggregates, m.aggregateID = some g.id → m.routeID = g.routeID

section
variable (h : traverse (orphanTransfer now ids) events db = .ok db')
include h

lemma traverse_orphaned_rows (hu : u ∈ db'.unmatched) :
    (u ∈ db.unmatched ∧ (u.eventID ∈ events → u.status = .reorged)) ∨ u.status = .reorged := by
  induction events generalizing db with
  | nil =>
    cases h
    exact .inl ⟨hu,by simp⟩
  | cons e events ih =>
    obtain ⟨mid,hse,hre⟩ := traverse_cons_eq_ok.mp h
    have ho := orphanTransfer_orphaned hse
    rcases ih hre with ⟨hm,hl⟩ | hr
    · rw [ho.unmatched] at hm
      rcases mem_update_iff.mp hm with ⟨hold,hk⟩ | ⟨u₀,-,-,rfl⟩
      · refine .inl ⟨hold,fun hev => ?_⟩
        rcases mem_cons.mp hev with heq | hev
        · by_contra hst
          exact hk ⟨heq,hst⟩
        · exact hl hev
      · exact .inr rfl
    · exact .inr hr

lemma traverse_orphaned_routed (hr : Routed db) : Routed db' := by
  refine traverse_invariant (fun s e t _ hr hst => ?_) hr h
  have ho := orphanTransfer_orphaned hst
  rw [Routed,ho.paymentMatches,ho.aggregates]
  exact forall_update (fun m hm => forall_update (hr m hm) fun _ _ _ h => h) fun _ _ _ h => h

end

lemma handled_rewind {lease : Lease} {batch : RangeBatch}
    {incidentHeight : ℕ} (hso : Sound (booksOf db)) (h : Handled db)
    (hw : OrphansWhole db (replacedEvents db lease batch))
    (hee : rewindReorg capability db lease batch incidentHeight clock ids = .ok db') :
    Handled db' := by
  obtain ⟨d,cursors,hor,rfl⟩ := rewindReorg_effect hee
  have hk : ∀ m ∈ db.paymentMatches, m.state ≠ .reversed →
      (∀ e ∈ replacedEvents db lease batch, m.source ≠ .transfer e) → m ∈ d.paymentMatches := by
    intro m hm hac ho
    refine traverse_orphaned_kept hso.matchIDs hw (fun _ he => he) ?_ hor hm hac ho
    exact fun p hp _ => hp
  -- A payment that is still handled afterwards was not orphaned, so its match is still there.
  have hrw : ∀ u ∈ d.unmatched, u.status ≠ .reorged → u ∈ db.unmatched ∧
      ∀ e ∈ replacedEvents db lease batch, MatchSource.transfer u.eventID ≠ .transfer e := by
    intro u hu hst
    rcases traverse_orphaned_rows hor hu with ⟨hold,hr⟩ | hr
    · refine ⟨hold,fun e he hsame => hst (hr ?_)⟩
      rw [MatchSource.transfer.inj hsame]
      exact he
    · exact absurd hr hst
  have hro := traverse_orphaned_routed hor (h.routed)
  refine ⟨hro,fun u hu hst routeID hse => ?_,
    fun u hu hst routeID hse => ?_⟩
  · obtain ⟨hold,ho⟩ := hrw u hu (by rw [hst]; decide)
    obtain ⟨m,hm,hcr⟩ := h.bound u hold hst routeID hse
    exact ⟨m,hk m hm hcr.2.2 (hcr.1 ▸ ho),hcr⟩
  · obtain ⟨hold,ho⟩ := hrw u hu (by rw [hst]; decide)
    obtain ⟨m,hm,hcr,hf⟩ := h.resolved u hold hst routeID hse
    exact ⟨m,hk m hm hcr.2.2 (hcr.1 ▸ ho),hcr,hf⟩

end

/-- The steps of these runs: a reorganisation orphans aggregates as a whole, and an evaluation finds
all bound payments of its route. Operators and providers take no part in them. -/
def Careful (ext : Externals) (w : World) : Action → Prop
  | .rewindReorg lease batch _ _ => OrphansWhole w.db (replacedEvents w.db lease batch)
  | .reconcileMatching _ job _ _ =>
    ∀ r ∈ (loadAutomatedMatchingRoute ext w.db job.routeID).toOption, ReviewsAll ext w.db r
  | .resolve .. => False
  | _ => True

instance (ext : Externals) (w : World) (a : Action) : Decidable (Careful ext w a) := by
  induction a using Workers.Action.casesOn <;> dsimp only [Careful] <;> infer_instance

/-- One transaction keeps every handled payment credited. -/
lemma Handled.step {w w' : World} {a : Action}
    (hk : Kept w) (h : Handled w.db) (hf : FreshIDs w a) (hca : Careful ext w a)
    (he : exec ext capability w a = .ok w') : Handled w'.db := by
  cases ResolutionEffects.exec_step he with
  | quiet => exact ⟨h.routed,h.bound,h.resolved⟩
  | rewindReorg hd => exact handled_rewind hk.balanced.sound h hca hd
  | ingestAndSettle hd => exact handled_ingest h hd
  | reconcileMatching hd =>
    refine handled_reconcile hk.balanced h hf (fun r hl => hca r ?_) hd
    rw [hl]
    rfl
  | resolve hj hd => exact hca.elim
  | ingestProviderPayment hd => exact hf.elim

/-- In every state that such a run reaches, a payment that is shown as bound or resolved to a route
whose job is finished has a match to that route that counts. -/
theorem handled_payment_credited (ext : Externals) (capability : String) (w : World)
    (as : List Action) (hblank : Blank w) (hnone : w.db.unmatched = [])
    (hrun : Along (exec ext capability) (fun w a => FreshIDs w a ∧ Careful ext w a) w as) :
    ∀ job ∈ (run (exec ext capability) w as).db.jobs,
      (job.status = .completed ∨ job.status = .deadLetter) →
        ∀ u ∈ (run (exec ext capability) w as).db.unmatched,
          (u.status = .bound ∨ u.status = .resolved) → u.selectedRouteID = some job.routeID →
            ∃ m ∈ (run (exec ext capability) w as).db.paymentMatches,
              Credits m u.eventID job.routeID := by
  have hsr : Handled w.db :=
    ⟨by simp [hblank.paymentMatches],by simp [hnone],by simp [hnone]⟩
  have hen := run_invariant (P := fun w : World => Kept w ∧ Handled w.db)
      (fun _ _ _ h hst he =>
        ⟨h.1.step hst.1 he,Handled.step h.1 h.2 hst.1 hst.2 he⟩)
      ⟨hblank.kept,hsr⟩ hrun
  intro job _ _ u hu hsa hse
  rcases hsa with hbo | hr
  · exact hen.2.bound u hu hbo _ hse
  · obtain ⟨m,hm,hcr,-⟩ := hen.2.resolved u hu hr _ hse
    exact ⟨m,hm,hcr⟩

theorem handled_payment_credited_sample :
    let db := (run (exec sampleExternals "transfers") sampleBound sampleAccumulation).db
    ∃ job ∈ db.jobs, job.status = .completed ∧ ∃ u ∈ db.unmatched, u.status = .resolved ∧
      u.selectedRouteID = some job.routeID ∧
        ∃ m ∈ db.paymentMatches, Credits m u.eventID job.routeID := by
  intro db
  have hcr := handled_payment_credited sampleExternals "transfers" sampleBound
    sampleAccumulation ⟨rfl,rfl,rfl,rfl,rfl,by decide⟩ rfl (by decide +kernel)
  have hsh : ∃ job ∈ db.jobs, job.status = .completed ∧ ∃ u ∈ db.unmatched,
      u.status = .resolved ∧ u.selectedRouteID = some job.routeID := by decide +kernel
  obtain ⟨job,hj,hco,u,hu,hr,hse⟩ := hsh
  exact ⟨job,hj,hco,u,hu,hr,hse, hcr job hj (.inl hco) u hu (.inr hr) hse⟩

/-- The two payments of a settled route are in different blocks. The second block is orphaned, and
the route, evaluated again after its window, is left for review. -/
def sampleSplit : List Action :=
  sampleScanned [] ++
    [.ingestAndSettle { samplePayment "first" 97 "block-6" with blockHeight := 6 } 60
        (sampleIngestIDs "1"),
      .ingestAndSettle (samplePayment "second" 3 "block-7") 61 (sampleIngestIDs "2"),
      .claimMatching "matcher" 201 minute 10 (fun _ => "lease-1"),
      .reconcileMatching "matcher" ⟨"route","lease-1",1⟩ 201 (sampleReconcileIDs "1")] ++
    sampleReplaced ++ [.claimMatching "matcher" 202 minute 10 (fun _ => "lease-2"),
      .reconcileMatching "matcher" ⟨"route","lease-2",2⟩ 202 (sampleReconcileIDs "2")]

/-- The first payment is still shown as resolved, and no match credits it. -/
theorem handled_payment_uncredited :
    let db := (run (exec sampleExternals "transfers") sampleBound sampleSplit).db
    ∃ job ∈ db.jobs, job.status = .completed ∧
      ∃ u ∈ db.unmatched, u.status = .resolved ∧ u.selectedRouteID = some job.routeID ∧
        ∀ m ∈ db.paymentMatches, ¬Credits m u.eventID job.routeID := by
  decide +kernel

end Ocrypt.HandledPayments
