import Ocrypt.Settlement

/-! What a committed `IngestAndSettle` can do to the database, case by case. The invariants of
runs are derived from these cases; nothing after this module unfolds the transaction. -/
namespace Ocrypt.IngestEffects
open Money Domain Fallible Table Store Writes Observations Candidates MatchingJobs Settlement List

structure TransferFacts where
  id : String
  identity : EventIdentity
  (kind fromAddress : String)
  amount : Amount
  deriving DecidableEq

def factsOf (t : TransferEvent) : TransferFacts :=
  ⟨t.id,t.identity,t.kind,t.fromAddress,t.amount⟩

structure Inclusion where
  blockHash : String
  blockHeight : ℕ
  onChainTime : ℤ
  status : TransferStatus
  confirmations : ℕ
  deriving DecidableEq

def inclusionOf (t : TransferEvent) : Inclusion :=
  ⟨t.blockHash,t.blockHeight,t.onChainTime,t.status,t.confirmations⟩

/-- Recording a transfer: it is new, it returns after a reorganisation in a block that is
canonical, it progresses inside its block, or nothing changes. -/
inductive Recorded (db : Database) (event : TransferEvent) : Canonical → Prop
  | stored (hidentity : ∀ t ∈ db.transferEvents, t.identity ≠ event.identity)
      (hid : ∀ t ∈ db.transferEvents, t.id ≠ event.id) (hpos : 0 < event.amount.n) :
      Recorded db event
        ⟨{ db with
            transferEvents := db.transferEvents ++ [{ event with nativeEVMRawEvidence := [] }] },
          true,event⟩
  | reincluded (s : TransferEvent) (hs : s ∈ db.transferEvents)
      (hfacts : factsOf s = factsOf { event with id := s.id }) (hreorged : s.status = .reorged)
      (hfinality : event.status ∈ ([.observed,.confirmed,.finalized] : List TransferStatus))
      (hblock : canonicalInclusion db event) :
      Recorded db event
        ⟨{ db with
            transferEvents := update (fun t => t.id = s.id ∧ t.status = .reorged)
              (withInclusion event) db.transferEvents },true,{ event with id := s.id }⟩
  | progressed (s merged : TransferEvent) (hs : s ∈ db.transferEvents)
      (hreorged : s.status ≠ .reorged) (hfacts : factsOf s = factsOf merged)
      (hinclusion : inclusionOf { s with
        status := event.status, confirmations := merged.confirmations } = inclusionOf merged)
      (hsame : s.identity = event.identity ∧ s.amount = event.amount) :
      Recorded db event
        ⟨{ db with
            transferEvents := update (fun t => t.id = s.id ∧ t.status = s.status ∧
                t.confirmations = s.confirmations)
              (fun t => { t with status := event.status, confirmations := merged.confirmations })
              db.transferEvents },true,merged⟩
  | unchanged (merged : TransferEvent) : Recorded db event ⟨db,false,merged⟩

variable {ext : Externals} {db : Database} {event : TransferEvent}

section
variable {s : TransferEvent} {c : Canonical}

lemma storeTransfer_recorded (hi : ∀ t ∈ db.transferEvents, t.identity ≠ event.identity)
    (h : storeTransfer db event = .ok c) : Recorded db event c := by
  simp only [storeTransfer,do_ok,insertUnique_eq_ok] at h
  obtain ⟨hp,rows,⟨hid,rfl⟩,rfl⟩ := h
  exact .stored hi hid hp

lemma reincludeTransfer_recorded (hs : s ∈ db.transferEvents)
    (hi : s.identity = event.identity) (hsame : sameFacts s event)
    (hr : s.status = .reorged) (h : reincludeTransfer db s event = .ok c) :
    Recorded db event c := by
  simp only [reincludeTransfer,do_ok,updateOne_eq_ok] at h
  obtain ⟨hf,hbl,rows,⟨-,rfl⟩,rfl⟩ := h
  obtain ⟨hk,hfr,ham,-,-⟩ := hsame
  have hfa : factsOf s = factsOf { event with id := s.id } := by
    simp [factsOf,hi,hk,hfr,ham]
  exact .reincluded s hs hfa hr hf hbl

lemma reconcileEvidence_frame {e : TransferEvent} (h : reconcileEvidence ext db s event = .ok e) :
    ∃ hash raw, e = { event with evidenceHash := hash, nativeEVMRawEvidence := raw } := by
  unfold reconcileEvidence at h
  split at h
  · cases h
    exact ⟨_,_,rfl⟩
  · simp only [do_ok] at h
    obtain ⟨-,-,rfl⟩ := h
    exact ⟨_,_,rfl⟩

lemma mergeTransferProgress_status {status reported status' : TransferStatus} {n m n' : ℕ}
    {progressed : Bool}
    (h : mergeTransferProgress status n reported m = .ok (status',n',progressed)) :
    status' = reported := by
  unfold mergeTransferProgress at h
  split at h
  · cases h
  · cases h
    rfl

lemma mergeTransfer_recorded (hs : s ∈ db.transferEvents)
    (hi : s.identity = event.identity) (hsame : sameFacts s event)
    (hr : s.status ≠ .reorged) (h : mergeTransfer ext db s event = .ok c) :
    Recorded db event c := by
  simp only [mergeTransfer,do_ok] at h
  obtain ⟨⟨hha,hhe,hti⟩,e,he,⟨status,confirmations,progressed⟩,hm,h⟩ := h
  obtain ⟨evidence,raw,rfl⟩ := reconcileEvidence_frame he
  have hst := mergeTransferProgress_status hm
  subst hst
  split at h
  · simp only [do_ok,updateOne_eq_ok] at h
    obtain ⟨rows,⟨-,rfl⟩,rfl⟩ := h
    obtain ⟨hk,hf,ham,-,-⟩ := id hsame
    refine .progressed s { event with
      id := s.id, confirmations := confirmations, evidenceHash := evidence,
      nativeEVMRawEvidence := raw } hs hr ?_ ?_ ⟨hi,hsame.2.2.1⟩
    · simp [factsOf,hi,hk,hf,ham]
    · simp [inclusionOf,hha,hhe,hti]
  · rw [pure_eq_ok] at h
    subst h
    exact .unchanged _

lemma insertCanonicalTransfer_recorded (h : insertCanonicalTransfer ext db event = .ok c) :
    Recorded db event c := by
  simp only [insertCanonicalTransfer,do_ok] at h
  obtain ⟨-,h⟩ := h
  cases hf : db.transferEvents.find? (·.identity = event.identity) with
  | none =>
    rw [hf] at h
    have hn := find?_eq_none.mp hf
    exact storeTransfer_recorded (by simpa using hn) h
  | some s =>
    obtain ⟨hs,hi⟩ := mem_of_find? hf
    simp only [hf,do_ok] at h
    obtain ⟨hsame,h⟩ := h
    split at h
    · exact reincludeTransfer_recorded hs hi hsame ‹_› h
    · exact mergeTransfer_recorded hs hi hsame ‹_› h

section
variable (h : Recorded db event c)
include h

lemma Recorded.row (hac : c.actionable = true) :
    ∃ t ∈ c.db.transferEvents, factsOf t = factsOf c.event ∧
      inclusionOf t = inclusionOf c.event := by
  cases h with
  | stored hie hid hp =>
    exact ⟨_,mem_concat_self,rfl,rfl⟩
  | reincluded s hs hf hr hfi hbl =>
    have hm : withInclusion event s ∈ update (fun t => t.id = s.id ∧ t.status = .reorged)
        (withInclusion event) db.transferEvents :=
      mem_update_self hs ⟨rfl,hr⟩
    exact ⟨_,hm,hf,rfl⟩
  | progressed s merged hs hr hf hi hsame =>
    refine ⟨_,mem_update_self hs ⟨rfl,rfl,rfl⟩,hf,hi⟩
  | unchanged merged => cases hac

/-- Recording a transfer changes no fact of a stored one and adds at most its own. -/
theorem Recorded.facts : c.db.transferEvents.map factsOf = db.transferEvents.map factsOf ∨
      (c.db.transferEvents.map factsOf = db.transferEvents.map factsOf ++ [factsOf event] ∧
        ∀ t ∈ db.transferEvents, t.id ≠ event.id) := by
  cases h with
  | stored hie hid hp =>
    refine .inr ⟨?_,hid⟩
    simp only [map_append]
    rfl
  | reincluded s hs hf hr hfi hbl | progressed s merged hs hr hf hi hsame =>
    exact .inl (map_update fun _ _ _ => rfl)
  | unchanged merged => exact .inl rfl

lemma Recorded.reported (hac : c.actionable = true) :
    c.event.identity = event.identity ∧ c.event.amount = event.amount := by
  cases h with
  | stored hie hid hp | reincluded s hs hf hr hfi hbl => exact ⟨rfl,rfl⟩
  | progressed s merged hs hr hf hi hsame =>
    exact ⟨(congrArg TransferFacts.identity hf).symm.trans hsame.1,
      (congrArg TransferFacts.amount hf).symm.trans hsame.2⟩
  | unchanged merged => cases hac

lemma Recorded.frame : ∃ rows, c.db = { db with transferEvents := rows } := by
  cases h <;> exact ⟨_,rfl⟩

end

end

/-- Settling by an exact transfer. The rows of the routes, reservations and provider orders are
those that `supersedeSiblings`, `releaseSiblings` and `closeOwnRoute` write. -/
structure SettledExactly (ext : Externals) (db : Database) (candidate : SettlementCandidate)
    (event : TransferEvent) (ids : IngestIDs) (db' : Database) : Prop where
  unclaimed : ∀ m ∈ db.paymentMatches, m.id ≠ ids.matchID ∧
    (m.source = .transfer event.id → m.state = .reversed)
  positive : 0 < event.amount.n
  unposted : ∀ tx ∈ db.ledger, tx.id ≠ ids.settlement
  intent : db.intents.countP (fun i => i.id = candidate.intentID ∧ i.tenantID = candidate.tenantID ∧
    i.version = candidate.intentVersion ∧ i.status ∈ openIntentStatuses) = 1
  result : ∃ observations observationEvents callbacks providerOrders, db' =
    let intents := update (fun i => i.id = candidate.intentID ∧ i.tenantID = candidate.tenantID ∧
        i.version = candidate.intentVersion ∧ i.status ∈ openIntentStatuses)
      (fun i => { i with status := .settled, version := i.version+1 }) db.intents
    let closed := closeOwnRoute (releaseSiblings (supersedeSiblings db candidate.intentID
      candidate.routeID candidate.tenantID) candidate.intentID candidate.routeID
      candidate.tenantID) candidate.routeID candidate.tenantID
    { db with
      observations := observations
      observationEvents := observationEvents
      callbacks := callbacks
      providerOrders := providerOrders
      intents := intents
      routes := closed.routes
      reservations := closed.reservations
      paymentMatches := db.paymentMatches ++ [exactMatch candidate event ids.matchID]
      ledger := db.ledger ++
        [transferLedger ext candidate.tenantID candidate.merchantID event ids.settlement] }

variable {db' : Database} {tenantID : String}

section
variable {candidate : SettlementCandidate} {ids : IngestIDs}

lemma settleIntent_eq_ok {intentID : String} {version : ℤ} {status : IntentStatus} :
    settleIntent db intentID tenantID version status = .ok db' ↔
      db.intents.countP (fun i => i.id = intentID ∧ i.tenantID = tenantID ∧ i.version = version ∧
          i.status ∈ openIntentStatuses) = 1 ∧ { db with
          intents := update (fun i => i.id = intentID ∧ i.tenantID = tenantID ∧
              i.version = version ∧ i.status ∈ openIntentStatuses)
            (fun i => { i with status := status, version := i.version+1 }) db.intents } = db' := by
  simp only [settleIntent,do_ok,updateOne_eq_ok]
  constructor
  · rintro ⟨rows,⟨hco,rfl⟩,rfl⟩
    exact ⟨hco,rfl⟩
  · rintro ⟨hco,rfl⟩
    exact ⟨_,⟨hco,rfl⟩,rfl⟩

lemma settleExact_settled (hf : event.status = .finalized)
    (h : settleExact ext db candidate event ids = .ok db') :
    SettledExactly ext db candidate event ids db' := by
  simp only [settleExact,do_ok] at h
  obtain ⟨⟨d₁,o⟩,had,d₂,hma,d₃,hp,d₄,hi,d₅,hca,hl⟩ := h
  obtain ⟨observations,rfl⟩ := advancePaymentObservation_finalized_frame hf had
  obtain ⟨hpo,-,hu,rfl⟩ := insertMatch_eq_ok.mp hma
  obtain ⟨hun,rfl⟩ := postLedger_eq_ok.mp hp
  obtain ⟨hco,rfl⟩ := settleIntent_eq_ok.mp hi
  obtain ⟨-,-,-,rfl⟩ := insertCallback_eq_ok.mp hca
  obtain ⟨-,rfl⟩ := linkObservationEvent_eq_ok.mp hl
  refine ⟨fun m hm => ⟨(hu m hm).1,fun hso => ?_⟩,hpo,
    fun tx htx => (hun tx htx).1,hco,_,_,_,_,rfl⟩
  by_contra hac
  cases (hu m hm).2 hso hac

end

abbrev recordedStatuses : List UnmatchedStatus := [.new,.candidatesReady,.ignored]

/-- The rows are stored ones, or the row of the transfer as a recording leaves it. -/
abbrev RowsOf (db : Database) (eventID : String) (rows : List UnmatchedPayment) : Prop :=
  ∀ u ∈ rows, u ∈ db.unmatched ∨ (u.eventID = eventID ∧ u.status ∈ recordedStatuses)

/-- Classifying a recorded transfer: at most its observation is noted, it becomes an unmatched
payment, or it settles a route. -/
inductive Classified (ext : Externals) (db : Database) (event : TransferEvent) (ids : IngestIDs) :
    Database → SettlementOutcome → Prop
  | noted (outcome : SettlementOutcome) (houtcome : outcome ≠ .settled)
      (observations : List PaymentObservation) (observationEvents : List ObservationEvent)
      (callbacks : List CallbackEvent) (intents : List PaymentIntent)
      (hkeys : intents.map (·.key) = db.intents.map (·.key)) :
      Classified ext db event ids { db with
        observations := observations
        observationEvents := observationEvents
        callbacks := callbacks
        intents := intents } outcome
  | unmatched (outcome : SettlementOutcome) (houtcome : outcome ≠ .settled)
      (rows : List UnmatchedPayment) (candidates : List MatchCandidate)
      (callbacks : List CallbackEvent) (intents : List PaymentIntent) (jobs : List MatchingJob)
      (hkeys : intents.map (·.key) = db.intents.map (·.key))
      (hrows : RowsOf db event.id rows) :
      Classified ext db event ids { db with
        unmatched := rows
        candidates := candidates
        callbacks := callbacks
        intents := intents
        jobs := jobs } outcome
  | settled (candidate : SettlementCandidate) (db' : Database) (hfinal : event.status = .finalized)
      (hcandidates : findSettlementCandidates db event = [candidate])
      (hfinality : candidate.requiredFinality ≤ event.confirmations)
      (hsettled : SettledExactly ext db candidate event ids db') :
      Classified ext db event ids db' .settled

variable {unmatchedID webhookID : String}

section
variable {now : ℤ} {ids : IngestIDs} {result : SettlementResult}

lemma recordExceptionIntent_frame {c : Candidate}
    (h : recordExceptionIntent db tenantID c webhookID = .ok db') :
    ∃ callbacks intents, intents.map (·.key) = db.intents.map (·.key) ∧
      db' = { db with callbacks := callbacks, intents := intents } := by
  unfold recordExceptionIntent at h
  simp only at h
  split at h
  · cases h
    exact ⟨_,_,rfl,rfl⟩
  · obtain ⟨-,-,-,rfl⟩ := insertCallback_eq_ok.mp h
    refine ⟨_,_,?_,rfl⟩
    exact map_update fun _ _ _ => rfl

lemma routeException_frame {potential : Potential}
    (h : routeException ext db event potential unmatchedID now webhookID = .ok db') :
    ∃ candidates callbacks intents jobs, intents.map (·.key) = db.intents.map (·.key) ∧
      db' = { db with
        candidates := candidates, callbacks := callbacks, intents := intents, jobs := jobs } := by
  unfold routeException at h
  split at h
  · cases h
    exact ⟨_,_,_,_,rfl,rfl⟩
  · simp only at h
    split at h
    · split at h
      · obtain ⟨d,hr,rfl⟩ := map_eq_ok.mp h
        obtain ⟨callbacks,intents,hk,rfl⟩ := recordExceptionIntent_frame hr
        obtain ⟨jobs,hj⟩ := enqueueAutomatedMatchingCandidates_frame _ _ _ now
        exact ⟨_,_,_,_,hk,hj⟩
      · obtain ⟨d,hr,rfl⟩ := map_eq_ok.mp h
        cases hr
        obtain ⟨jobs,hj⟩ := enqueueAutomatedMatchingCandidates_frame _ _ _ now
        exact ⟨_,_,_,_,rfl,hj⟩
    · split at h
      · cases h
        exact ⟨_,_,_,_,rfl,rfl⟩
      · obtain ⟨callbacks,intents,hk,rfl⟩ := recordExceptionIntent_frame h
        exact ⟨_,_,_,_,hk,rfl⟩

/-- Only the row of the payment itself is written, with one of the statuses given to it. -/
theorem upsertUnmatched_frame {row : UnmatchedPayment}
    (hst : row.status ∈ recordedStatuses) (h : upsertUnmatched db row = .ok (db',unmatchedID)) :
    ∃ rows, RowsOf db row.eventID rows ∧ db' = { db with unmatched := rows } := by
  unfold upsertUnmatched at h
  split at h
  · simp only [do_ok,insertUnique_eq_ok] at h
    obtain ⟨rows,⟨-,rfl⟩,hr⟩ := h
    exact ⟨_,forall_snoc (fun _ => .inl) (.inr ⟨rfl,hst⟩),(Prod.mk.inj hr).1.symm⟩
  · split at h
    · refine ⟨_,fun u hu => ?_,(Prod.mk.inj (Except.ok.inj h)).1.symm⟩
      rcases mem_update_iff.mp hu with ⟨hold,-⟩ | ⟨s,hs,he,rfl⟩
      · exact .inl hold
      · exact .inr ⟨he,hst⟩
    · cases h

lemma ignoreDust_frame (h : ignoreDust db event.id unmatchedID = .ok db') :
    ∃ rows, RowsOf db event.id rows ∧ db' = { db with unmatched := rows } := by
  unfold ignoreDust at h
  split at h
  · cases h
    exact ⟨_,fun u hu => .inl hu,rfl⟩
  · simp only [do_ok,insertUnique_eq_ok] at h
    obtain ⟨rows,⟨-,rfl⟩,rfl⟩ := h
    exact ⟨_,forall_snoc (fun _ => .inl) (.inr ⟨rfl,by simp⟩),rfl⟩

lemma recordUnmatched_classified {several : Bool} {outcome : SettlementOutcome}
    (h : recordUnmatched ext db event several now ids = .ok (db',outcome)) :
    Classified ext db event ids db' outcome := by
  simp only [recordUnmatched,do_ok] at h
  obtain ⟨dust,-,h⟩ := h
  split at h
  · simp only [do_ok] at h
    obtain ⟨d,hi,hre⟩ := h
    obtain ⟨rows,hr,rfl⟩ := ignoreDust_frame hi
    cases hre
    exact .unmatched _ (by decide) rows _ _ _ _ rfl hr
  · simp only [do_ok] at h
    obtain ⟨⟨d,unmatchedID⟩,hu,d',hro,hre⟩ := h
    have hst : (if (findPotentialCandidates db event now).candidates ≠ [] ∧
        (findPotentialCandidates db event now).tenantID ≠ "" then UnmatchedStatus.candidatesReady
        else .new) ∈ recordedStatuses := by
      split <;> simp
    obtain ⟨rows,hr,rfl⟩ := upsertUnmatched_frame hst hu
    obtain ⟨candidates,callbacks,intents,jobs,hk,rfl⟩ := routeException_frame hro
    cases hre
    refine .unmatched _ ?_ rows candidates callbacks intents jobs hk hr
    split <;> decide

lemma advancePaymentObservation_classified {c : SettlementCandidate} {o : PaymentObservation}
    {observationID : String}
    (h : advancePaymentObservation db c event observationID webhookID = .ok (db',o)) :
    Classified ext db event ids db' .observed := by
  obtain ⟨observations,events,callbacks,intents,hk,rfl⟩ := advancePaymentObservation_frame h
  exact .noted _ (by decide) observations events callbacks intents hk

lemma settleOrClassify_classified (h : settleOrClassify ext db event now ids = .ok (db',result)) :
    Classified ext db event ids db' result.outcome ∧ result.transferEventID = event.id := by
  unfold settleOrClassify at h
  simp only at h
  split at h
  · split at h
    · simp only [do_ok] at h
      obtain ⟨⟨d,o⟩,had,hre⟩ := h
      cases hre
      exact ⟨advancePaymentObservation_classified had,rfl⟩
    · cases h
      exact ⟨.noted _ (by simp) _ _ _ _ rfl,rfl⟩
  · have hf : event.status = .finalized := by simpa using ‹¬event.status ≠ .finalized›
    split at h
    · cases h
      exact ⟨.noted _ (by simp) _ _ _ _ rfl,rfl⟩
    · split at h
      · rename_i candidate hca
        split at h
        · simp only [do_ok] at h
          obtain ⟨⟨d,o⟩,had,hre⟩ := h
          cases hre
          exact ⟨advancePaymentObservation_classified had,rfl⟩
        · rename_i hfi
          simp only [do_ok] at h
          obtain ⟨d,hse,hre⟩ := h
          cases hre
          exact ⟨.settled candidate _ hf hca (not_lt.mp hfi) (settleExact_settled hf hse),rfl⟩
      · simp only [do_ok] at h
        obtain ⟨⟨d,outcome⟩,hr,hre⟩ := h
        cases hre
        exact ⟨recordUnmatched_classified hr,rfl⟩

/-- A committed `IngestAndSettle` records the transfer and, when that changed something,
classifies it. -/
theorem ingestAndSettle_effect (h : ingestAndSettle ext db event now ids = .ok (db',result)) :
    ∃ c, Recorded db event c ∧ result.transferEventID = c.event.id ∧
      ((c.actionable = true ∧ Classified ext c.db c.event ids db' result.outcome) ∨
        (c.actionable = false ∧ db' = c.db ∧ result.outcome = .duplicate)) := by
  simp only [ingestAndSettle,do_ok] at h
  obtain ⟨c,hr,h⟩ := h
  refine ⟨c,insertCanonicalTransfer_recorded hr,?_⟩
  split at h
  · obtain ⟨hcl,hid⟩ := settleOrClassify_classified h
    exact ⟨hid,.inl ⟨‹_›,hcl⟩⟩
  · cases pure_eq_ok.mp h
    exact ⟨rfl,.inr ⟨by simpa using ‹¬c.actionable = true›,rfl,rfl⟩⟩

end

end Ocrypt.IngestEffects
