import Ocrypt.Reorg

/-! What a committed `RewindReorg` does to the settlements of the transfers that it orphans: a
reversal is booked for each of them, their matches are reversed, and no settlement is reversed
twice. -/
namespace Ocrypt.ReorgEffects
open Domain Fallible Table Store Writes Observations MatchingJobs Scanner Reorg List

variable (ids : ReorgIDs) (s : ReorgSettlement) (g : MatchAggregate) (m : PaymentMatch)

def reverseMatch : PaymentMatch := { m with state := .reversed }

def reverseAggregate : MatchAggregate := { g with state := .reversed }

lemma reverseMatch_reverseMatch : reverseMatch (reverseMatch m) = reverseMatch m := rfl

lemma reverseAggregate_reverseAggregate :
    reverseAggregate (reverseAggregate g) = reverseAggregate g := rfl

abbrev compensates : Prop :=
  m.state ≠ .reversed ∧
    ((s.aggregateID = none ∧ m.id = s.matchID) ∨
      (s.aggregateID ≠ none ∧ m.aggregateID = s.aggregateID ∧ m.tenantID = s.tenantID))

abbrev reopens : Prop :=
  s.aggregateID = some g.id ∧ g.tenantID = s.tenantID ∧ g.state = .settled

def reversalIn : LedgerTransaction :=
  reversalOf s (ids.reversal s.original.id)

/-- The tables that undoing a settlement never writes, and the keys of the intents. -/
structure Aside (db db' : Database) : Prop where
  chainBlocks : db'.chainBlocks = db.chainBlocks
  cursors : db'.cursors = db.cursors
  transferQueue : db'.transferQueue = db.transferQueue
  transferEvents : db'.transferEvents = db.transferEvents
  resolutions : db'.resolutions = db.resolutions
  candidates : db'.candidates = db.candidates
  intents : db'.intents.map (·.key) = db.intents.map (·.key)

lemma Aside.trans {db mid db' : Database} (h₁ : Aside db mid) (h₂ : Aside mid db') : Aside db db' :=
  ⟨h₂.chainBlocks.trans h₁.chainBlocks,h₂.cursors.trans h₁.cursors,
    h₂.transferQueue.trans h₁.transferQueue,h₂.transferEvents.trans h₁.transferEvents,
    h₂.resolutions.trans h₁.resolutions,h₂.candidates.trans h₁.candidates,
    h₂.intents.trans h₁.intents⟩

structure Compensated (ss : List ReorgSettlement) (db db' : Database) : Prop where
  unreversed : ∀ s ∈ ss, ∀ tx ∈ db.ledger, tx.tenantID = s.tenantID →
    tx.businessType = .paymentSettlementReversal →
      tx.businessReference ≠ "reorg:" ++ s.original.id
  distinct : ss.Pairwise fun s t => s.tenantID = t.tenantID → s.original.id ≠ t.original.id
  ledger : db'.ledger = db.ledger ++ ss.map (reversalIn ids)
  paymentMatches : db'.paymentMatches =
    update (fun m => ∃ s ∈ ss, compensates s m) reverseMatch db.paymentMatches
  aggregates : db'.aggregates =
    update (fun g => ∃ s ∈ ss, reopens s g) reverseAggregate db.aggregates
  unmatched : db'.unmatched = db.unmatched
  aside : Aside db db'

section
variable {ids : ReorgIDs} {now : ℤ} {s : ReorgSettlement} {ss : List ReorgSettlement}
  {db mid db' : Database}

lemma insertReorgNotifications_announces {version : ℤ} {webhookID : String}
    (h : insertReorgNotifications db s version webhookID = .ok db') : ∃ events, db' = { db with
        callbacks := db.callbacks ++
          [⟨webhookID,s.tenantID,s.merchantID,s.intentID,.reorged,some version⟩]
        observationEvents := events } ∧ ∀ l ∈ events, l ∈ db.observationEvents ∨
        ∃ o ∈ db.observations, o.transferEventID = s.eventID ∧ o.id = l.observationID := by
  simp only [insertReorgNotifications,do_ok] at h
  obtain ⟨d,hca,h⟩ := h
  obtain ⟨-,-,-,rfl⟩ := insertCallback_eq_ok.mp hca
  split at h
  · cases h
    exact ⟨_,rfl,fun l hl => .inl hl⟩
  · rename_i o hlo
    obtain ⟨-,rfl⟩ := linkObservationEvent_eq_ok.mp h
    obtain ⟨ho,he⟩ := mem_of_find? hlo
    exact ⟨_,rfl,forall_snoc (fun _ => .inl) (.inr ⟨o,ho,he,rfl⟩)⟩

lemma reverseMatches_eq (db : Database) (s : ReorgSettlement) (now : ℤ) :
    ∃ jobs, reverseMatches db s now = { db with
      paymentMatches := update (compensates s) reverseMatch db.paymentMatches
      aggregates := update (reopens s) reverseAggregate db.aggregates
      jobs := jobs } := by
  unfold reverseMatches
  split
  · rename_i ha
    refine ⟨db.jobs,?_⟩
    have hag : update (reopens s) reverseAggregate db.aggregates = db.aggregates :=
      update_eq_self fun g _ hg => by simp [reopens,ha] at hg
    have hma : update (compensates s) reverseMatch db.paymentMatches =
        update (fun m => m.id = s.matchID ∧ m.state ≠ .reversed) reverseMatch db.paymentMatches :=
      update_congr fun m _ => by simp [compensates,ha,and_comm]
    rw [hag,hma]
    rfl
  · rename_i a ha
    refine ⟨upsertJob db.jobs (newJob s.routeID s.tenantID s.merchantID now) (reopenJob · now),?_⟩
    have hag : update (reopens s) reverseAggregate db.aggregates =
        update (fun g => g.id = a ∧ g.tenantID = s.tenantID ∧ g.state = .settled) reverseAggregate
          db.aggregates :=
      update_congr fun g _ => by simp [reopens,ha,eq_comm]
    have hma : update (compensates s) reverseMatch db.paymentMatches =
        update (fun m => m.aggregateID = some a ∧ m.tenantID = s.tenantID ∧ m.state ≠ .reversed)
          reverseMatch db.paymentMatches :=
      update_congr fun m _ => by
        simp only [compensates,ha]
        tauto
    rw [hag,hma]
    rfl

/-- The tables once the reversal is booked, the intent in review and the route open again. -/
abbrev reviewed (now : ℤ) (ids : ReorgIDs) (db : Database) (s : ReorgSettlement) : Database :=
  reopenRoute { db with
    ledger := db.ledger ++ [reversalOf s (ids.reversal s.original.id)]
    intents := update (fun i => i.id = s.intentID ∧ i.tenantID = s.tenantID ∧
        i.version = s.intentVersion ∧
        i.status ∈ ([.settled,.overpaid,.confirmed] : List IntentStatus))
      (fun i => { i with status := .reorgReview, version := i.version+1 }) db.intents }
    s.routeID s.tenantID now

lemma compensateSettlement_compensated (h : compensateSettlement now ids db s = .ok db') :
    Compensated ids [s] db db' := by
  simp only [compensateSettlement,do_ok,updateOne_eq_ok] at h
  obtain ⟨d,hp,intents,⟨-,rfl⟩,h⟩ := h
  obtain ⟨hf,rfl⟩ := postLedger_eq_ok.mp hp
  obtain ⟨jobs,hr⟩ := reverseMatches_eq (reviewed now ids db s) s now
  rw [hr] at h
  obtain ⟨events,rfl,-⟩ := insertReorgNotifications_announces h
  refine ⟨?_,pairwise_singleton _ _,rfl,?_,?_,rfl,rfl,rfl,rfl,rfl,rfl,rfl,?_⟩
  · intro t ht tx htx hte hty
    rw [mem_singleton.mp ht] at hte ⊢
    exact (hf tx htx).2 hte hty
  · simp only [mem_singleton,exists_eq_left]
    rfl
  · simp only [mem_singleton,exists_eq_left]
    rfl
  · exact map_update fun _ _ _ => rfl

lemma Compensated.nil (ids : ReorgIDs) (db : Database) : Compensated ids [] db db := by
  refine ⟨by simp,List.Pairwise.nil,by simp,?_,?_,rfl,rfl,rfl,rfl,rfl,rfl,rfl,rfl⟩
  · exact (update_eq_self fun m _ hm => by simp at hm).symm
  · exact (update_eq_self fun g _ hg => by simp at hg).symm

theorem Compensated.cons (h₁ : Compensated ids [s] db mid) (h₂ : Compensated ids ss mid db') :
    Compensated ids (s::ss) db db' := by
  have hl : mid.ledger = db.ledger ++ [reversalIn ids s] := h₁.ledger
  refine ⟨?_,?_,?_,?_,?_,h₂.unmatched.trans h₁.unmatched,h₁.aside.trans h₂.aside⟩
  · intro t ht tx htx
    rcases mem_cons.mp ht with rfl | ht
    · exact h₁.unreversed t (mem_singleton_self t) tx htx
    · exact h₂.unreversed t ht tx (by rw [hl]; exact mem_append_left _ htx)
  · refine pairwise_cons.mpr ⟨fun t ht hte heq => ?_,h₂.distinct⟩
    have hbo : reversalIn ids s ∈ mid.ledger := by
      rw [hl]
      exact mem_concat_self
    refine h₂.unreversed t ht _ hbo hte rfl ?_
    rw [← heq]
    rfl
  · rw [h₂.ledger,hl,map_cons,append_assoc,singleton_append]
  · rw [h₂.paymentMatches,h₁.paymentMatches,update_update reverseMatch_reverseMatch]
    exact update_congr fun m _ => by simp
  · rw [h₂.aggregates,h₁.aggregates,update_update reverseAggregate_reverseAggregate]
    exact update_congr fun g _ => by simp

lemma traverse_compensated (h : traverse (compensateSettlement now ids) ss db = .ok db') :
    Compensated ids ss db db' := by
  induction ss generalizing db with
  | nil =>
    cases h
    exact .nil ids _
  | cons s ss ih =>
    obtain ⟨mid,hst,hr⟩ := traverse_cons_eq_ok.mp h
    exact (compensateSettlement_compensated hst).cons (ih hr)

end

structure Orphaned (eventID : String) (db db' : Database) : Prop where
  unreversed : ∀ s ∈ loadReorgSettlements db eventID, ∀ tx ∈ db.ledger,
    tx.tenantID = s.tenantID → tx.businessType = .paymentSettlementReversal →
      tx.businessReference ≠ "reorg:" ++ s.original.id
  distinct : (loadReorgSettlements db eventID).Pairwise fun s t =>
    s.tenantID = t.tenantID → s.original.id ≠ t.original.id
  ledger : db'.ledger = db.ledger ++ (loadReorgSettlements db eventID).map (reversalIn ids)
  paymentMatches : db'.paymentMatches =
    update (fun m => (∃ s ∈ loadReorgSettlements db eventID, compensates s m) ∨
      (m.source = .transfer eventID ∧ m.state ≠ .reversed)) reverseMatch db.paymentMatches
  aggregates : db'.aggregates =
    update (fun g => ∃ s ∈ loadReorgSettlements db eventID, reopens s g) reverseAggregate
      db.aggregates
  unmatched : db'.unmatched = update (fun u => u.eventID = eventID ∧ u.status ≠ .reorged)
    (fun u => { u with status := .reorged }) db.unmatched
  aside : Aside db db'

section
variable {ids : ReorgIDs} {now clock : ℤ} {eventID : String} {db db' : Database}

lemma orphanTransfer_orphaned (h : orphanTransfer now ids db eventID = .ok db') :
    Orphaned ids eventID db db' := by
  simp only [orphanTransfer,do_ok] at h
  obtain ⟨d,ho,d',hco,rfl⟩ := h
  obtain ⟨observations,events,callbacks,intents,routes,hk,rfl⟩ :=
    reorgPaymentObservation_frame ho
  have hc := traverse_compensated hco
  refine ⟨hc.unreversed,hc.distinct,hc.ledger,?_,hc.aggregates,?_,?_⟩
  · show update _ reverseMatch d'.paymentMatches = _
    rw [hc.paymentMatches,update_update reverseMatch_reverseMatch]
  · rw [hc.unmatched]
  · have hf : Aside db { db with
        observations := observations, observationEvents := events, callbacks := callbacks,
        intents := intents, routes := routes } := ⟨rfl,rfl,rfl,rfl,rfl,rfl,hk⟩
    have hl : Aside d' { d' with
        paymentMatches := update (fun m => m.source = .transfer eventID ∧ m.state ≠ .reversed)
          (fun m => { m with state := .reversed }) d'.paymentMatches
        unmatched := update (fun u => u.eventID = eventID ∧ u.status ≠ .reorged)
          (fun u => { u with status := .reorged }) d'.unmatched } :=
      ⟨rfl,rfl,rfl,rfl,rfl,rfl,rfl⟩
    exact (hf.trans hc.aside).trans hl

/-- Orphaning transfers reverses their live matches and writes no other match. -/
theorem traverse_orphaned {events : List String}
    (h : traverse (orphanTransfer now ids) events db = .ok db') :
    Aside db db' ∧ ∀ m ∈ db'.paymentMatches,
      (m ∈ db.paymentMatches ∧ ∀ e ∈ events, m.source = .transfer e → m.state = .reversed) ∨
        ∃ m₀ ∈ db.paymentMatches, m = reverseMatch m₀ := by
  induction events generalizing db with
  | nil =>
    cases h
    exact ⟨⟨rfl,rfl,rfl,rfl,rfl,rfl,rfl⟩,fun m hm => .inl ⟨hm,by simp⟩⟩
  | cons e events ih =>
    obtain ⟨mid,hst,hr⟩ := traverse_cons_eq_ok.mp h
    have ho := orphanTransfer_orphaned hst
    obtain ⟨has,hma⟩ := ih hr
    refine ⟨ho.aside.trans has,fun m hm => ?_⟩
    rcases hma m hm with ⟨hmi,hl⟩ | ⟨m₀,hmi,rfl⟩
    · rw [ho.paymentMatches] at hmi
      rcases mem_update_iff.mp hmi with ⟨hold,hk⟩ | ⟨m₀,hold,-,rfl⟩
      · refine .inl ⟨hold,fun e' he' hso => ?_⟩
        rcases mem_cons.mp he' with rfl | he'
        · by_contra hac
          exact hk (.inr ⟨hso,hac⟩)
        · exact hl e' he' hso
      · exact .inr ⟨m₀,hold,rfl⟩
    · rw [ho.paymentMatches] at hmi
      rcases mem_update_iff.mp hmi with ⟨hold,-⟩ | ⟨m₁,hold,-,rfl⟩
      · exact .inr ⟨m₀,hold,rfl⟩
      · exact .inr ⟨m₁,hold,rfl⟩

def rewoundBlocks (db : Database) (lease : Lease) (batch : RangeBatch) (clock : ℤ) :
    List ChainBlock :=
  update (replaced lease (rewindPoint db lease batch))
    (fun b => { b with status := .reorged, lastObservedAt := clock }) db.chainBlocks

/-- A committed rewind marks the replaced blocks, orphans the transfers of those blocks one
after the other, marks them and moves the cursor. -/
theorem rewindReorg_effect {capability : String} {lease : Lease} {batch : RangeBatch}
    {incidentHeight : ℕ} (h : rewindReorg capability db lease batch incidentHeight clock ids = .ok db') :
    ∃ d cursors, traverse (orphanTransfer clock ids) (replacedEvents db lease batch)
        { db with chainBlocks := rewoundBlocks db lease batch clock } = .ok d ∧
      db' = { markReorged d (replacedEvents db lease batch) with cursors := cursors } := by
  simp only [rewindReorg,insertScannerGap,do_ok] at h
  obtain ⟨-,-,d,ho,-,hm⟩ := h
  simp only [moveCursor,do_ok] at hm
  obtain ⟨cursors,-,rfl⟩ := hm
  exact ⟨d,cursors,ho,rfl⟩

end

end Ocrypt.ReorgEffects
