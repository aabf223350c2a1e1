import Ocrypt.IngestEffects
import Ocrypt.MatchingStore
import Ocrypt.MatchingConservation

/-! What a committed `ReconcileAutomatedMatching` does: it decides, opens or revises the aggregate
of the route, and persists the decision as matches, ledger entries and workflow states. -/
namespace Ocrypt.MatchingEffects
open Domain Ledger Matching MatchingTotals MatchingConservation SettlementLegs Fallible Table Store
  Writes MatchingJobs Settlement MatchingStore List

/-- The allocation takes the whole transfer, as a fee exactly when the transfer is one. -/
structure Draws (a : MatchAllocation) (t : TransferEvent) : Prop where
  id : t.id = a.eventID
  amount : t.amount = a.received
  role : a.role = .gasfreeFee ↔ isFee t = true

variable {ext : Externals} {now : ℤ} {d : AutomatedMatchDecision} {db : Database}
  {a : MatchAllocation} {r : AutomatedMatchingRoute}

section
variable {h : Hashing} {route : PaymentRoute} {policy : AutomatedMatchingPolicy}
  {events canonical : List TransferEvent}

lemma eventAllocations_draws {e : TransferEvent} (hco : counted route e = true) (he : e ∈ canonical)
    (ha : a ∈ eventAllocations route policy canonical e) : ∃ t ∈ canonical, Draws a t := by
  simp only [counted,decide_eq_true_eq] at hco
  unfold eventAllocations at ha
  cases hp : pairedFee route policy canonical e with
  | none =>
    rw [hp,mem_singleton] at ha
    subst ha
    exact ⟨e,he,rfl,rfl,by simp [paymentAllocation,isFee,hco.1]⟩
  | some fee =>
    obtain ⟨hf,-,htr⟩ := pairedFee_mem hp
    simp only [hp,mem_cons,not_mem_nil,or_false] at ha
    rcases ha with rfl | rfl
    · exact ⟨e,he,rfl,rfl,by simp [paymentAllocation,isFee,hco.1]⟩
    · exact ⟨fee,hf,rfl,rfl,by simp [feeAllocation,isFee,trustedFee_kind htr]⟩

/-- Each allocation draws on one of the events, and no event is drawn on twice. -/
theorem evaluate_allocations (hid : DistinctIDs events)
    (hd : evaluateAutomatedMatch h route events now policy = .ok d) (hs : d.outcome ≠ .review) :
    (d.allocations.map (·.eventID)).Nodup ∧ ∀ a ∈ d.allocations, ∃ t ∈ events, Draws a t := by
  obtain ⟨-,-,canonical,t,hca,hl,rfl⟩ := evaluate_cases hd hs
  obtain ⟨-,-,had⟩ := (traverse_collectEvent_eq_ok (canonical_feesApart hid hca)
    (fun _ he => he) (fun _ hi => absurd hi not_mem_nil)).mp hl
  have hal := had.allocations_eq
  obtain ⟨-,hsu,-⟩ := canonicalEvents_spec hca
  have hn : (t.allocations.map (·.eventID)).Nodup := by
    rw [hal]
    exact nodup_allocation_eventIDs hid hca
  have hdr : ∀ a ∈ t.allocations, ∃ t ∈ events, Draws a t := by
    intro a ha
    rw [hal,mem_flatMap] at ha
    obtain ⟨e,he,ha⟩ := ha
    obtain ⟨he,hco⟩ := mem_filter.mp he
    obtain ⟨t,ht,hdr⟩ := eventAllocations_draws hco he ha
    exact ⟨t,hsu t ht,hdr⟩
  rcases judgeTotals_allocations with heq | ⟨credit,heq⟩
  · rw [heq]
    exact ⟨hn,hdr⟩
  · rw [heq,allocateCredit_map _ fun _ _ => rfl]
    refine ⟨hn,fun a ha => ?_⟩
    obtain ⟨b,hb,c,rfl⟩ := mem_allocateCredit ha
    obtain ⟨t,ht,hdr⟩ := hdr b hb
    exact ⟨t,ht,hdr.id,hdr.amount,hdr.role⟩

/-- The events of a route are stored transfers of its asset. -/
theorem mem_loadAutomatedMatchingEvents {t : TransferEvent}
    (ht : t ∈ (loadAutomatedMatchingEvents ext db route).1) :
    t ∈ db.transferEvents ∧ t.identity.assetID = route.assetID := by
  have hm : t ∈ matchableTransfers db route := by
    rcases mem_append.mp ht with ht | ht
    · exact (mem_filter.mp ht).1
    · exact (mem_filter.mp ht).1
  obtain ⟨hst,hr⟩ := mem_filter.mp ((perm_insertionSort _ _).mem_iff.mp hm)
  refine ⟨hst,?_⟩
  rcases (of_decide_eq_true hr).1 with hd | hf
  · exact hd.2.1
  · exact hf.2.1

/-- What a decision about a route that is not a review rests on. -/
structure Grounded (db : Database) (route : PaymentRoute) (d : AutomatedMatchDecision) : Prop where
  distinct : (d.allocations.map (·.eventID)).Nodup
  drawn : ∀ a ∈ d.allocations, ∃ t ∈ db.transferEvents, Draws a t ∧
    t.identity.assetID = route.assetID
  conserved : d.outcome = .settle → Conserved d

lemma distinct_loaded (hn : (db.transferEvents.map (·.id)).Nodup) :
    DistinctIDs (loadAutomatedMatchingEvents ext db route).1 := by
  intro a ha b hb hne hid
  refine hne (congrArg _ (inj_on_of_nodup_map hn ?_ ?_ hid))
  · exact (mem_loadAutomatedMatchingEvents ha).1
  · exact (mem_loadAutomatedMatchingEvents hb).1

lemma decideMatching_grounded (hn : (db.transferEvents.map (·.id)).Nodup)
    (hd : decideMatching ext db r now = .ok d) (hs : d.outcome ≠ .review) :
    Grounded db r.route d := by
  unfold decideMatching at hd
  simp only at hd
  split at hd
  · cases hd
    exact absurd rfl hs
  · have hi : DistinctIDs (loadAutomatedMatchingEvents ext db r.route).1 := distinct_loaded hn
    obtain ⟨hdi,hdr⟩ := evaluate_allocations hi hd hs
    refine ⟨hdi,fun a ha => ?_,fun hse => ?_⟩
    · obtain ⟨t,ht,hdr⟩ := hdr a ha
      obtain ⟨hst,has⟩ := mem_loadAutomatedMatchingEvents ht
      exact ⟨t,hst,hdr,has⟩
    · obtain ⟨canonical,t,hca,had,hf⟩ := evaluate_settle_adds hi hd hse
      exact hf.conserved hi hca had

end

/-- The aggregate of a decision: opened, or revised while it is not settled. -/
inductive Upserted (r : AutomatedMatchingRoute) (d : AutomatedMatchDecision) (newID : String)
    (rows : List MatchAggregate) : String → List MatchAggregate → Prop
  | opened (hnone : ∀ g ∈ rows, ¬liveAggregate r.route g) (hid : ∀ g ∈ rows, g.id ≠ newID) :
      Upserted r d newID rows newID (rows ++ [newAggregate r d newID])
  | revised (live : MatchAggregate) (hmem : live ∈ rows) (hlive : liveAggregate r.route live)
      (hopen : live.state ≠ .settled) :
      Upserted r d newID rows live.id (update (liveAggregate r.route) (reviseAggregate d) rows)

/-- One allocation is persisted: its match is new, or the one of the same aggregate is upgraded. -/
inductive Persisted (r : AutomatedMatchingRoute) (aggregateID : String) (d : AutomatedMatchDecision)
    (state : MatchState) (ids : ReconcileIDs) (a : MatchAllocation) (rows : List PaymentMatch) :
    List PaymentMatch → Prop
  | inserted (hunclaimed : ∀ m ∈ rows, m.id ≠ ids.matchID a.eventID ∧
        (m.source = .transfer a.eventID → m.state = .reversed)) :
      Persisted r aggregateID d state ids a rows
        (rows ++ [allocationMatch r aggregateID d state (ids.matchID a.eventID) a])
  | upgraded (stored : PaymentMatch) (hmem : stored ∈ rows)
      (hactive : stored.source = .transfer a.eventID ∧ stored.state ≠ .reversed)
      (hroute : stored.routeID = r.route.id ∧ stored.intentID = r.route.intentID)
      (haggregate : stored.aggregateID = some aggregateID) (hreceived : stored.received = a.received) :
      Persisted r aggregateID d state ids a rows
        (update (fun m => m.source = .transfer a.eventID ∧ m.state ≠ .reversed)
          (upgradeMatch a.credited state) rows)

inductive Allocated (r : AutomatedMatchingRoute) (aggregateID : String) (d : AutomatedMatchDecision)
    (state : MatchState) (ids : ReconcileIDs) :
    List MatchAllocation → List PaymentMatch → List PaymentMatch → Prop
  | nil (rows : List PaymentMatch) : Allocated r aggregateID d state ids [] rows rows
  | cons {a : MatchAllocation} {rest : List MatchAllocation} {rows mid rows' : List PaymentMatch}
      (first : Persisted r aggregateID d state ids a rows mid)
      (later : Allocated r aggregateID d state ids rest mid rows') :
      Allocated r aggregateID d state ids (a::rest) rows rows'

/-- The ledger of an automated settlement: booked, or found booked before. -/
inductive Posted (ext : Externals) (r : AutomatedMatchingRoute) (aggregateID : String)
    (d : AutomatedMatchDecision) (ledger : List LedgerTransaction) : List LedgerTransaction → Prop
  | booked (legs : List LedgerEntry)
      (hlegs : automatedSettlementLegs
        (ext.accounts r.route.tenantID r.route.merchantID r.route.assetID) r.route.assetID d = .ok legs)
      (hfresh : ∀ l ∈ ledger, l.id ≠ aggregateID) :
      Posted ext r aggregateID d ledger (ledger ++ [aggregateLedger r aggregateID d legs])
  | again (l : LedgerTransaction) (hl : l ∈ ledger) (htype : l.businessType = .paymentSettlement)
      (hreference : l.businessReference = aggregateID) (ledger' : List LedgerTransaction) :
      Posted ext r aggregateID d ledger ledger'

/-- The decision is applied to the database that holds its aggregate. -/
inductive Applied (ext : Externals) (db : Database) (r : AutomatedMatchingRoute)
    (aggregateID : String) (d : AutomatedMatchDecision) (ids : ReconcileIDs) : Database → Prop
  | collected (houtcome : d.outcome = .collect) (rows : List PaymentMatch)
      (hrows : Allocated r aggregateID d .proposed ids d.allocations db.paymentMatches rows)
      (intents : List PaymentIntent) (hkeys : intents.map (·.key) = db.intents.map (·.key)) :
      Applied ext db r aggregateID d ids { db with
        paymentMatches := rows
        unmatched := boundUnmatched db r d
        intents := intents }
  | reviewed (houtcome : d.outcome = .review) :
      Applied ext db r aggregateID d ids (applyReview db r aggregateID d)
  | settled (houtcome : d.outcome = .settle) (rows : List PaymentMatch)
      (hrows : Allocated r aggregateID d .finalized ids d.allocations db.paymentMatches rows)
      (ledger : List LedgerTransaction) (hledger : Posted ext r aggregateID d db.ledger ledger)
      (intents : List PaymentIntent) (hkeys : intents.map (·.key) = db.intents.map (·.key))
      (callbacks : List CallbackEvent) :
      Applied ext db r aggregateID d ids { db with
        paymentMatches := rows
        ledger := ledger
        intents := intents
        routes := (closeOwnRoute db r.route.id r.route.tenantID).routes
        reservations := (closeOwnRoute db r.route.id r.route.tenantID).reservations
        unmatched := resolvedUnmatched db r d
        callbacks := callbacks }

section
variable {db' : Database} {aggregateID : String} {ids : ReconcileIDs} {state : MatchState}

lemma loadAutomatedMatchingRoute_eq_ok {routeID : String}
    (h : loadAutomatedMatchingRoute ext db routeID = .ok r) :
    r.route ∈ db.routes ∧ r.route.id = routeID ∧
      (r.route.intentID,r.route.tenantID) ∈ db.intents.map (·.key) := by
  simp only [loadAutomatedMatchingRoute,do_ok,orFail_eq_ok] at h
  obtain ⟨route,hro,⟨i,hi,hid,hte,-⟩,binding,-,-,policy,-,-,-,rfl⟩ := h
  obtain ⟨hm,hid'⟩ := mem_of_find? hro
  refine ⟨hm,hid',mem_map.mpr ⟨i,hi,?_⟩⟩
  simp [PaymentIntent.key,hid,hte]

lemma upsertAutomatedAggregate_upserted
    (h : upsertAutomatedAggregate db r d ids.aggregate = .ok (db',aggregateID)) :
    ∃ rows, Upserted r d ids.aggregate db.aggregates aggregateID rows ∧
      db' = { db with aggregates := rows } := by
  simp only [upsertAutomatedAggregate,do_ok] at h
  obtain ⟨-,-,h⟩ := h
  split at h
  · rename_i hn
    simp only [do_ok,insertUnique_eq_ok] at h
    obtain ⟨rows,⟨hid,rfl⟩,hre⟩ := h
    cases hre
    refine ⟨_,.opened (fun g hg => ?_) hid,rfl⟩
    simpa using find?_eq_none.mp hn g hg
  · rename_i live hl
    simp only [do_ok] at h
    obtain ⟨ho,hre⟩ := h
    cases hre
    obtain ⟨hm,hl⟩ := mem_of_find? hl
    exact ⟨_,.revised live hm hl ho,rfl⟩

lemma persistAllocation_persisted
    (h : persistAllocation r aggregateID d state ids db a = .ok db') (hsa : state ≠ .reversed) :
    ∃ rows, Persisted r aggregateID d state ids a db.paymentMatches rows ∧
      db' = { db with paymentMatches := rows } := by
  unfold persistAllocation at h
  simp only at h
  split at h
  · obtain ⟨-,-,hu,rfl⟩ := insertMatch_eq_ok.mp h
    refine ⟨_,.inserted fun m hm => ⟨(hu m hm).1,fun hso => ?_⟩,rfl⟩
    by_contra hac
    exact hsa ((hu m hm).2 hso hac)
  · rename_i stored hst
    simp only [do_ok] at h
    obtain ⟨⟨hro,hi,hag,hre,-⟩,-,rfl⟩ := h
    obtain ⟨hme,hac⟩ := mem_of_find? hst
    exact ⟨_,.upgraded stored hme hac ⟨hro,hi⟩ hag hre,rfl⟩

lemma traverse_persistAllocation_allocated {as : List MatchAllocation}
    (h : traverse (persistAllocation r aggregateID d state ids) as db = .ok db')
    (hst : state ≠ .reversed) :
    ∃ rows, Allocated r aggregateID d state ids as db.paymentMatches rows ∧
      db' = { db with paymentMatches := rows } := by
  induction as generalizing db with
  | nil =>
    cases h
    exact ⟨_,.nil _,rfl⟩
  | cons a rest ih =>
    obtain ⟨mid,hf,hl⟩ := traverse_cons_eq_ok.mp h
    obtain ⟨rows,hp,rfl⟩ := persistAllocation_persisted hf hst
    obtain ⟨rows',hal,rfl⟩ := ih hl
    exact ⟨rows',.cons hp hal,rfl⟩

lemma postAutomatedSettlementLedger_posted
    (h : postAutomatedSettlementLedger ext db r aggregateID d = .ok db') :
    ∃ ledger, Posted ext r aggregateID d db.ledger ledger ∧ db' = { db with ledger := ledger } := by
  simp only [postAutomatedSettlementLedger,do_ok] at h
  obtain ⟨legs,hle,h⟩ := h
  split at h
  · rename_i hbo
    obtain ⟨l,hl,-,hty,hre⟩ := hbo
    cases h
    exact ⟨_,.again l hl hty hre _,rfl⟩
  · obtain ⟨hf,rfl⟩ := postLedger_eq_ok.mp h
    exact ⟨_,.booked legs hle fun l hl => (hf l hl).1,rfl⟩

lemma applyDecision_applied (h : applyDecision ext db r aggregateID d ids = .ok db') :
    Applied ext db r aggregateID d ids db' := by
  unfold applyDecision at h
  split at h
  · rename_i ho
    simp only [applyCollect,do_ok] at h
    obtain ⟨mid,hp,rfl⟩ := h
    obtain ⟨rows,hro,rfl⟩ := traverse_persistAllocation_allocated hp (by simp)
    refine .collected ho rows hro _ ?_
    exact map_update fun _ _ _ => rfl
  · rename_i ho
    cases h
    exact .reviewed ho
  · rename_i ho
    simp only [applySettle,finalizeAutomatedIntent,do_ok] at h
    obtain ⟨mid,hp,mid',hpo,intent,-,hca⟩ := h
    obtain ⟨rows,hro,rfl⟩ := traverse_persistAllocation_allocated hp (by simp)
    obtain ⟨ledger,hl,rfl⟩ := postAutomatedSettlementLedger_posted hpo
    obtain ⟨-,-,-,rfl⟩ := insertCallback_eq_ok.mp hca
    refine .settled ho rows hro ledger hl _ ?_ _
    exact map_update fun _ _ _ => rfl

/-- A reconciliation stores an aggregate, applies the decision to it and ends the job. -/
lemma reconcileAutomatedMatching_effect {worker : String} {job : AutomatedMatchingJob}
    {clock : ℤ} (h : reconcileAutomatedMatching ext db worker job now clock ids = .ok db') :
    ∃ r d aggregateID aggregates d' jobs, loadAutomatedMatchingRoute ext db job.routeID = .ok r ∧
      decideMatching ext db r now = .ok d ∧
      Upserted r d ids.aggregate db.aggregates aggregateID aggregates ∧
      Applied ext { db with aggregates := aggregates } r aggregateID d ids d' ∧
      finishAutomatedMatchingJob d' worker job (finishAs r d now).1 (finishAs r d now).2 clock =
        .ok { d' with jobs := jobs } ∧ db' = { d' with jobs := jobs } := by
  simp only [reconcileAutomatedMatching,do_ok] at h
  obtain ⟨-,r,hl,d,hd,⟨mid,aggregateID⟩,hup,d',hap,hf⟩ := h
  obtain ⟨aggregates,hu,rfl⟩ := upsertAutomatedAggregate_upserted hup
  have hj := hf
  simp only [finishAutomatedMatchingJob,do_ok] at hj
  obtain ⟨jobs,-,rfl⟩ := hj
  exact ⟨r,d,aggregateID,aggregates,d',jobs,hl,hd,hu, applyDecision_applied hap,hf,rfl⟩

end

end Ocrypt.MatchingEffects
