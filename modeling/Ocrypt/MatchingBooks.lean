import Ocrypt.SettlementBooks

/-! A reconciliation keeps the books balanced: collecting proposes matches, which count for nothing
yet, a review withdraws them, and a settlement finalizes them together with the ledger transaction of
their aggregate. -/
namespace Ocrypt.MatchingBooks
open Domain Ledger Matching MatchingConservation SettlementLegs Table KeyedSums Store Reorg
  MatchingJobs MatchingStore IngestEffects ReorgEffects MatchingEffects Bookkeeping SettlementBooks
  List

variable {b : Books} {r : AutomatedMatchingRoute} {d : AutomatedMatchDecision}
  {aggregateID : String} {rows : List PaymentMatch}

section
variable {state : MatchState} {ids : ReconcileIDs} {a : MatchAllocation} {rows' : List PaymentMatch}

/-- The aggregate that allocations are persisted under, with the intent of its route. -/
structure Hosts (b : Books) (route : PaymentRoute) (aggregateID : String) (state : MatchState) :
    Prop where
  aggregate : ∃ g ∈ b.aggregates, g.id = aggregateID ∧ g.tenantID = route.tenantID ∧
    (state = .finalized → g.state = .settled)
  intent : (route.intentID,route.tenantID) ∈ b.intents

def Takes (transfers : List TransferFacts) (asset : String) (a : MatchAllocation) : Prop :=
  ∃ t ∈ transfers, t.id = a.eventID ∧ t.amount = a.received ∧ t.identity.assetID = asset ∧
    (a.role = .gasfreeFee ↔ t.kind = "gasfree_fee")

def addition (route : PaymentRoute) (state : MatchState) (asset : String) (a : MatchAllocation) : ℤ :=
  if state = .finalized ∧ a.role = .payment ∧ route.assetID = asset then a.received.n else 0

lemma role_eq_of_fee_iff {x y : AllocationRole} {p : Prop} (hx : x = .gasfreeFee ↔ p)
    (hy : y = .gasfreeFee ↔ p) : x = y := by
  cases x <;> cases y <;> simp_all

section
variable (h : Sound { b with paymentMatches := rows }) (hh : Hosts b r.route aggregateID state)
include h hh

/-- The stored match of an allocation has its tenant and its role. -/
theorem stored_of_aggregate {t : TransferFacts} (ht : t ∈ b.transfers)
    (hid : t.id = a.eventID) (hro : a.role = .gasfreeFee ↔ t.kind = "gasfree_fee")
    {stored : PaymentMatch} (hm : stored ∈ rows) (hso : stored.source = .transfer a.eventID)
    (hag : stored.aggregateID = some aggregateID) :
    stored.tenantID = r.route.tenantID ∧ stored.role = a.role := by
  obtain ⟨t',hl⟩ := h.linked stored hm
  obtain ⟨hro',g,hg,hgi,hte,-⟩ := hl.joint aggregateID hag
  obtain ⟨g',hg',hgi',hte',-⟩ := hh.aggregate
  have hsame : g = g' :=
    inj_on_of_nodup_map h.aggregateIDs hg hg' (hgi.trans hgi'.symm)
  have hti : t'.id = t.id := by
    rw [hid]
    exact MatchSource.transfer.inj (hl.source.symm.trans hso)
  have ht' : t' = t := inj_on_of_nodup_map h.transferIDs hl.stored ht hti
  subst ht' hsame
  exact ⟨hte.symm.trans hte',role_eq_of_fee_iff hro' hro⟩

lemma sound_persisted (hta : Takes b.transfers r.route.assetID a)
    (hpe : Persisted r aggregateID d state ids a rows rows') :
    Sound { b with paymentMatches := rows' } := by
  obtain ⟨t,ht,hid,ham,-,hro⟩ := hta
  obtain ⟨g,hg,hgi,hte,hse⟩ := hh.aggregate
  cases hpe with
  | inserted hu =>
    refine ⟨h.transferIDs,h.intentKeys,?_,h.aggregateIDs,?_,h.oneLive,
      forall_snoc (fun m hm => (h.linked m hm).imp fun _ hl => hl.rebooked) ?_⟩
    · exact nodup_map_append h.matchIDs fun p hp => (hu p hp).1
    · exact oneActive_append h.oneActive fun p hp => (hu p hp).2
    · refine ⟨t,ht,by rw [hid]; rfl,ham.symm,hh.intent,fun a' ha' => ⟨hro,?_⟩⟩
      cases ha'
      exact ⟨g,hg,hgi,hte,hse⟩
  | upgraded stored hme hac hru hag hre =>
    refine ⟨h.transferIDs,h.intentKeys,?_,h.aggregateIDs,?_,h.oneLive,fun m hm => ?_⟩
    · convert h.matchIDs using 1
      exact map_update fun _ _ _ => rfl
    · exact oneActive_update h.oneActive fun p hp => ⟨rfl,hp.2⟩
    · rcases mem_update_iff.mp hm with ⟨hm,-⟩ | ⟨m₀,hm₀,hm₀active,rfl⟩
      · exact (h.linked m hm).imp fun _ hl => hl.rebooked
      · -- The upgraded row is the stored one, of this aggregate.
        have hsame : m₀ = stored :=
          eq_of_countP_le_one (h.oneActive _) hme hac hm₀ hm₀active
        subst hsame
        obtain ⟨hst,hro'⟩ := stored_of_aggregate h hh ht hid hro hme hac.1 hag
        refine ⟨t,ht,?_,hre.trans ham.symm,?_,fun a' ha' => ?_⟩
        · rw [hid]
          exact hac.1
        · show (m₀.intentID,m₀.tenantID) ∈ b.intents
          rw [hru.2,hst]
          exact hh.intent
        · have hai : a' = aggregateID := Option.some.inj (ha'.symm.trans hag)
          subst hai
          refine ⟨?_,g,hg,hgi,hte.trans hst.symm,hse⟩
          show m₀.role = .gasfreeFee ↔ _
          rw [hro']
          exact hro

/-- One persisted allocation adds its amount under the key of the aggregate only. -/
theorem sumAt_persisted (hta : Takes b.transfers r.route.assetID a)
    (ho : ∀ m ∈ rows, m.aggregateID = some aggregateID → m.source = .transfer a.eventID →
      m.state ≠ .finalized) (hp : Persisted r aggregateID d state ids a rows rows') (asset : String)
    (k : String × Correlation) : sumAt matchKey (counts b.transfers asset) rows' k =
      sumAt matchKey (counts b.transfers asset) rows k +
        if (r.route.tenantID,Correlation.aggregate aggregateID) = k then
          addition r.route state asset a else 0 := by
  obtain ⟨t,ht,hid,ham,has,hro⟩ := hta
  cases hp with
  | inserted hu =>
    have hso : (allocationMatch r aggregateID d state (ids.matchID a.eventID) a).source =
        .transfer t.id := by
      rw [hid]
      rfl
    have hco : counts b.transfers asset
        (allocationMatch r aggregateID d state (ids.matchID a.eventID) a) =
          addition r.route state asset a := by
      unfold counts addition
      simp only [countsIn_iff h.transferIDs ht hso,has]
      rfl
    rw [sumAt_append,sumAt_singleton,hco]
    rfl
  | upgraded stored hme hac hru hag hre =>
    obtain ⟨hte,hst⟩ := stored_of_aggregate h hh ht hid hro hme hac.1 hag
    have hon : rows.countP (fun m => m.source = .transfer a.eventID ∧ m.state ≠ .reversed) = 1 := by
      refine le_antisymm (h.oneActive _) (countP_pos_iff.mpr ⟨stored,hme,?_⟩)
      simpa using hac
    have hz : counts b.transfers asset stored = 0 :=
      if_neg fun hco => ho stored hme hag hac.1 hco.1
    have hso : (upgradeMatch a.credited state stored).source = .transfer t.id := by
      rw [hid]
      exact hac.1
    have hco : counts b.transfers asset (upgradeMatch a.credited state stored) =
        addition r.route state asset a := by
      unfold counts addition
      simp only [countsIn_iff h.transferIDs ht hso,has]
      simp [upgradeMatch,hst,hre]
    have hke : matchKey stored = (r.route.tenantID,.aggregate aggregateID) := by
      simp [matchKey_transfer hac.1,hag,matchCorrelation,hte]
    rw [sumAt_update_one hon hme hac rfl hz,hco,hke]

end

lemma sound_allocated {as : List MatchAllocation}
    (hal : Allocated r aggregateID d state ids as rows rows')
    (h : Sound { b with paymentMatches := rows }) (hh : Hosts b r.route aggregateID state)
    (hta : ∀ a ∈ as, Takes b.transfers r.route.assetID a) (hdi : (as.map (·.eventID)).Nodup)
    (ho : ∀ m ∈ rows, m.aggregateID = some aggregateID → ∀ a ∈ as,
      m.source = .transfer a.eventID → m.state ≠ .finalized) :
    Sound { b with paymentMatches := rows' } ∧ ∀ asset k,
      sumAt matchKey (counts b.transfers asset) rows' k =
        sumAt matchKey (counts b.transfers asset) rows k +
          if (r.route.tenantID,Correlation.aggregate aggregateID) = k then
            (as.map (addition r.route state asset)).sum else 0 := by
  induction hal with
  | nil rows => exact ⟨h,fun asset k => by simp⟩
  | @cons a rest rows mid rows' first later ih =>
    obtain ⟨htk,hta⟩ := forall_mem_cons.mp hta
    obtain ⟨hou,hdi⟩ := nodup_cons.mp hdi
    have hst := sound_persisted h hh htk first
    have hsum := sumAt_persisted h hh htk
      (fun m hm ha hso => ho m hm ha a mem_cons_self hso) first
    have hl : ∀ m ∈ mid, m.aggregateID = some aggregateID → ∀ a' ∈ rest,
        m.source = .transfer a'.eventID → m.state ≠ .finalized := by
      -- Only rows of the first transfer were written, and the later ones are other transfers.
      intro m hm ha a' ha' hso
      have hne := fun heq => hou (mem_map.mpr ⟨a',ha',heq⟩)
      cases first with
      | inserted hu =>
        rcases mem_snoc.mp hm with hm | rfl
        · exact ho m hm ha a' (mem_cons_of_mem a ha') hso
        · exact absurd (MatchSource.transfer.inj hso).symm hne
      | upgraded stored hme hac hro hag hre =>
        rcases mem_update_iff.mp hm with ⟨hm,-⟩ | ⟨m₀,-,hm₀,rfl⟩
        · exact ho m hm ha a' (mem_cons_of_mem a ha') hso
        · exact absurd (MatchSource.transfer.inj (hso.symm.trans hm₀.1)) hne
    obtain ⟨hsu,hsm⟩ := ih hst hta hdi hl
    refine ⟨hsu,fun asset k => ?_⟩
    rw [hsm asset k,hsum asset k,add_assoc]
    split_ifs <;> simp

end

section
variable {ids : ReconcileIDs} {accounts : SettlementAccounts} {legs : List LedgerEntry}

lemma sum_addition_proposed (route : PaymentRoute) (asset : String) (as : List MatchAllocation) :
    (as.map (addition route .proposed asset)).sum = 0 := by
  have hz : as.map (addition route .proposed asset) = as.map fun _ => 0 :=
    map_congr_left fun a _ => by simp [addition]
  rw [hz]
  simp

lemma sum_addition_finalized (route : PaymentRoute) (asset : String) (as : List MatchAllocation) :
    (as.map (addition route .finalized asset)).sum = if route.assetID = asset then
        ((allocationTotal (·.role = .payment) (·.received.n) as : ℕ) : ℤ) else 0 := by
  induction as with
  | nil => simp [allocationTotal]
  | cons a as ih =>
    rw [map_cons,sum_cons,ih]
    by_cases hr : a.role = .payment <;> by_cases has : route.assetID = asset <;>
      simp [addition,allocationTotal,hr,has]

lemma booked_aggregateLedger
    (hl : automatedSettlementLegs accounts r.route.assetID d = .ok legs) (asset : String) :
    booked asset (aggregateLedger r aggregateID d legs) =
      if r.route.assetID = asset then (d.received.n : ℤ) else 0 := by
  have hto := (total_automatedSettlementLegs hl asset).2
  simp only [booked,aggregateLedger,hto]
  split_ifs <;> simp

lemma balanced_collect (h : Balanced b) (hh : Hosts b r.route aggregateID .proposed)
    (hta : ∀ a ∈ d.allocations, Takes b.transfers r.route.assetID a)
    (hdi : (d.allocations.map (·.eventID)).Nodup)
    (ho : ∀ m ∈ b.paymentMatches, m.aggregateID = some aggregateID → m.state ≠ .finalized)
    (hro : Allocated r aggregateID d .proposed ids d.allocations b.paymentMatches rows) :
    Balanced { b with paymentMatches := rows } := by
  obtain ⟨hso,hsu⟩ := sound_allocated hro h.sound hh hta hdi
    fun m hm ha _ _ _ => ho m hm ha
  refine ⟨hso,⟨h.grounds.aggregated,h.grounds.referenced,h.grounds.reversed⟩,fun asset k => ?_⟩
  rw [hsu asset k,sum_addition_proposed,ite_self,add_zero]
  exact h.agree asset k

lemma balanced_review (h : Balanced b) {p : PaymentMatch → Prop} [DecidablePred p]
    (hpr : ∀ m ∈ b.paymentMatches, p m → m.state = .proposed) : Balanced { b with
      paymentMatches := update p reverseMatch b.paymentMatches } := by
  refine ⟨⟨h.sound.transferIDs,h.sound.intentKeys,?_,h.sound.aggregateIDs,fun source => ?_,
    h.sound.oneLive,fun m hm => ?_⟩,⟨h.grounds.aggregated,h.grounds.referenced,
    h.grounds.reversed⟩,fun asset k => ?_⟩
  · convert h.sound.matchIDs using 1
    exact map_update fun _ _ _ => rfl
  · refine (countP_update_le fun m _ _ hq => ?_).trans (h.sound.oneActive source)
    exact absurd rfl hq.2
  · rcases mem_update_iff.mp hm with ⟨hm,-⟩ | ⟨m₀,hm₀,-,rfl⟩
    · exact (h.sound.linked m hm).imp fun _ hl => hl.rebooked
    · obtain ⟨t,hl⟩ := h.sound.linked m₀ hm₀
      refine ⟨t,hl.stored,hl.source,hl.received,hl.intent,fun a ha => ?_⟩
      obtain ⟨hr,g,hg,hid,hte,-⟩ := hl.joint a ha
      exact ⟨hr,g,hg,hid,hte,fun hf => by cases hf⟩
  · have hsame : sumAt matchKey (counts b.transfers asset) (update p reverseMatch b.paymentMatches) k =
        sumAt matchKey (counts b.transfers asset) b.paymentMatches k := by
      refine sumAt_update (fun _ _ _ => rfl) fun m hm hp _ => ?_
      have hn : ¬CountsIn b.transfers asset m := fun hco => by
        cases (hpr m hm hp).symm.trans hco.1
      rw [counts_reverseMatch,counts,if_neg hn]
    exact (h.agree asset k).trans hsame.symm

/-- The books stay balanced when an aggregate is settled. -/
theorem balanced_settle (h : Balanced b) (hh : Hosts b r.route aggregateID .finalized)
    (hta : ∀ a ∈ d.allocations, Takes b.transfers r.route.assetID a)
    (hco : Conserved d) (hun : Unsettled b aggregateID)
    (hro : Allocated r aggregateID d .finalized ids d.allocations b.paymentMatches rows)
    (hle : automatedSettlementLegs accounts r.route.assetID d = .ok legs) : Balanced { b with
      paymentMatches := rows
      ledger := b.ledger ++ [aggregateLedger r aggregateID d legs] } := by
  obtain ⟨hso,hsu⟩ := sound_allocated hro h.sound hh hta hco.distinct
    fun m hm ha _ _ _ => hun.paymentMatches m hm ha
  obtain ⟨g,hg,hgi,hte,hse⟩ := hh.aggregate
  refine ⟨⟨hso.transferIDs,hso.intentKeys,hso.matchIDs,hso.aggregateIDs,
    hso.oneActive,hso.oneLive,fun m hm => (hso.linked m hm).imp fun _ hl => hl.rebooked⟩,⟨?_,?_,?_⟩,
    fun asset k => ?_⟩
  · refine forall_snoc h.grounds.aggregated fun a ha => ?_
    cases ha
    exact ⟨g,hg,hgi,.inl (hse rfl)⟩
  · exact forall_snoc h.grounds.referenced fun _ g' _ hrf => congrArg _ hrf
  · refine forall_snoc (fun tx htx hty => ?_) fun hty => by cases hty
    obtain ⟨o,ho,hre⟩ := h.grounds.reversed tx htx hty
    exact ⟨o,mem_append_left _ ho,hre⟩
  · show sumAt ledgerKey (booked asset) (b.ledger ++ [aggregateLedger r aggregateID d legs]) k =
      sumAt matchKey (counts b.transfers asset) rows k
    rw [sumAt_append,sumAt_singleton,h.agree asset k,hsu asset k,sum_addition_finalized,
      booked_aggregateLedger hle,hco.payments]
    rfl

end

section
variable {ext : Externals} {db db' : Database} {worker : String} {job : AutomatedMatchingJob}
  {now clock : ℤ} {ids : ReconcileIDs}

lemma transferIDs_nodup (h : Sound (booksOf db)) : (db.transferEvents.map (·.id)).Nodup := by
  have hi := h.transferIDs
  simp only [booksOf,map_map] at hi
  exact hi

lemma takes_of_grounded {route : PaymentRoute} (h : Grounded db route d) :
    ∀ a ∈ d.allocations, Takes (booksOf db).transfers route.assetID a := by
  intro a ha
  obtain ⟨t,ht,hdr,has⟩ := h.drawn a ha
  refine ⟨factsOf t,mem_map_of_mem ht,hdr.id,hdr.amount,has,?_⟩
  rw [hdr.role]
  simp [isFee,factsOf]

/-- Every committed reconciliation keeps the books balanced, provided that a new aggregate does
not carry the reference of a booked settlement. -/
theorem balanced_reconcile (h : Balanced (booksOf db))
    (hf : ∀ tx ∈ db.ledger, tx.businessReference ≠ ids.aggregate)
    (he : reconcileAutomatedMatching ext db worker job now clock ids = .ok db') :
    Balanced (booksOf db') := by
  obtain ⟨r,d,aggregateID,aggregates,d',jobs,hlo,hd,hu,hap,-,rfl⟩ :=
    reconcileAutomatedMatching_effect he
  obtain ⟨-,-,hi⟩ := loadAutomatedMatchingRoute_eq_ok hlo
  have hun := h.upserted_unsettled hu hf
  have hup := h.upsert hu hf
  obtain ⟨g,hg,hgi,-,hte,hst⟩ := upserted_stored hu
  have hgo := decideMatching_grounded (transferIDs_nodup h.sound) hd
  cases hap with
  | collected ho rows hro intents hk =>
    have hgr := hgo (by simp [ho])
    have hh : Hosts { booksOf db with aggregates := aggregates } r.route aggregateID .proposed :=
      ⟨⟨g,hg,hgi,hte,by simp⟩,hi⟩
    have hba := balanced_collect hup hh (takes_of_grounded hgr) hgr.distinct
      hun.paymentMatches hro
    unfold booksOf
    rw [hk]
    exact hba
  | reviewed ho => exact balanced_review hup fun m _ hm => hm.2.2
  | settled ho rows hro ledger hle intents hk callbacks =>
    have hgr := hgo (by simp [ho])
    have hh : Hosts { booksOf db with aggregates := aggregates } r.route aggregateID .finalized :=
      ⟨⟨g,hg,hgi,hte,fun _ => by rw [hst,ho]; rfl⟩,hi⟩
    have hun' : Unsettled { booksOf db with aggregates := aggregates } aggregateID :=
      ⟨hun.ledger,hun.references,hun.paymentMatches⟩
    unfold booksOf
    rw [hk]
    cases hle with
    | booked legs hlg hfr =>
      exact balanced_settle hup hh (takes_of_grounded hgr) (hgr.conserved ho) hun' hro hlg
    | again l hl hty hre ledger' => exact absurd hre (hun.references l hl hty)

lemma transfers_reconcile
    (he : reconcileAutomatedMatching ext db worker job now clock ids = .ok db') :
    (booksOf db').transfers = (booksOf db).transfers := by
  obtain ⟨r,d,aggregateID,aggregates,d',jobs,-,-,-,hap,-,rfl⟩ :=
    reconcileAutomatedMatching_effect he
  cases hap <;> rfl

end

end Ocrypt.MatchingBooks
