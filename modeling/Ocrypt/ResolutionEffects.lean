import Ocrypt.IngestEffects
import Ocrypt.Workers

/-! What a claim of manual resolutions and a committed `ApplyFinalizedResolution` do. -/
namespace Ocrypt.ResolutionEffects
open Domain Fallible Table Store Writes Settlement Resolutions IngestEffects Scanner Reorg
  MatchingJobs MatchingStore HostedSettlement Workers

/-- A resolution settled the chosen route with the claimed copy of the transfer. -/
structure SettledManually (ext : Externals) (db : Database) (job : ResolutionJob) (clock : ℤ)
    (ids : ManualIDs) (m : ManualSettlement) (db' : Database) : Prop where
  final : job.expected.status = .finalized
  held : m.stored ∈ db.resolutions ∧
    HoldsResolution job.resolution.id job.resolution.claimToken clock m.stored
  route : m.route ∈ db.routes ∧ m.route.id = m.stored.targetRouteID ∧
    m.route.tenantID = m.stored.tenantID
  intent : m.intent ∈ db.intents ∧ m.intent.id = m.route.intentID ∧
    m.intent.tenantID = m.route.tenantID
  expected : db.transferEvents.find? (·.id = m.stored.transferEventID) = some m.expected
  choices : sameChoices m.stored job.resolution
  agrees : agreesWithStored ext m.expected job.expected = true
  unclaimed : ∀ p ∈ db.paymentMatches, p.id ≠ ids.matchID ∧
    (p.source = .transfer job.expected.id → p.state = .reversed)
  positive : 0 < job.expected.amount.n
  unposted : ∀ tx ∈ db.ledger, tx.id ≠ ids.settlement
  result : ∃ callbacks status, db' =
    { db with
      paymentMatches := db.paymentMatches ++ [manualMatch m job.expected ids.matchID]
      ledger := db.ledger ++ [transferLedger ext m.route.tenantID m.route.merchantID job.expected
        ids.settlement]
      intents := update (fun i => i.id = m.intent.id ∧ i.tenantID = m.route.tenantID ∧
          i.version = m.intent.version ∧ i.status ∈ openIntentStatuses)
        (fun i => { i with status := status, version := i.version+1 }) db.intents
      routes := (closeOwnRoute db m.route.id m.route.tenantID).routes
      reservations := (closeOwnRoute db m.route.id m.route.tenantID).reservations
      resolutions := update
        (HoldsResolution m.stored.id job.resolution.claimToken clock) (fun r => { r with
          status := .resolved
          verifierEvidenceHash := some job.expected.evidenceHash
          lockedBy := none
          lockedUntil := none
          leaseToken := none }) db.resolutions
      unmatched := update (fun u => u.id = m.stored.unmatchedPaymentID ∧
          u.tenantID = some m.route.tenantID)
        (fun u => { u with status := .resolved, selectedRouteID := some m.route.id }) db.unmatched
      callbacks := callbacks }

/-- A claim writes the resolutions only, and its jobs expect stored transfers. -/
theorem claimResolutions_frame {db db' : Database} {worker chainID : String} {now lease clock : ℤ}
    {limit : ℕ} {token : String → String} {claimed : List ResolutionJob}
    (h : claimResolutions db worker chainID now lease limit clock token = .ok (db',claimed)) :
    (∃ rows, db' = { db with resolutions := rows }) ∧
      ∀ job ∈ claimed, job.expected ∈ db.transferEvents := by
  simp only [claimResolutions,do_ok] at h
  obtain ⟨-,h⟩ := h
  refine traverse_invariant (P := fun c : Database × List ResolutionJob =>
    (∃ rows, c.1 = { db with resolutions := rows }) ∧
      ∀ job ∈ c.2, job.expected ∈ db.transferEvents) ?_ ?_ h
  · rintro ⟨mid,jobs⟩ id ⟨mid',jobs'⟩ - ⟨⟨rows,hr⟩,hj⟩ hst
    subst hr
    simp only [claimResolution,loadResolutionJob,do_ok,orFail_eq_ok] at hst
    obtain ⟨rows',-,job,⟨row,-,expected,he,rfl⟩,hre⟩ := hst
    cases hre
    exact ⟨⟨rows',rfl⟩,forall_snoc hj (mem_of_find? he).1⟩
  · exact ⟨⟨_,rfl⟩,by simp⟩

section
variable {ext : Externals} {db db' : Database} {clock : ℤ} {ids : ManualIDs} {job : ResolutionJob}
  {m : ManualSettlement}

lemma loadManualSettlement_eq_ok {resolutionID claimToken : String}
    (h : loadManualSettlement db resolutionID claimToken clock = .ok m) :
    (m.stored ∈ db.resolutions ∧ HoldsResolution resolutionID claimToken clock m.stored) ∧
      (m.route ∈ db.routes ∧ m.route.id = m.stored.targetRouteID ∧
        m.route.tenantID = m.stored.tenantID) ∧
      (m.intent ∈ db.intents ∧ m.intent.id = m.route.intentID ∧
        m.intent.tenantID = m.route.tenantID) ∧
      db.transferEvents.find? (·.id = m.stored.transferEventID) = some m.expected := by
  simp only [loadManualSettlement,do_ok,orFail_eq_ok] at h
  obtain ⟨stored,hst,route,hr,intent,hi,expected,he,-,rfl⟩ := h
  obtain ⟨hs,hho,-⟩ := mem_of_find? hst
  exact ⟨⟨hs,hho⟩,mem_of_find? hr,mem_of_find? hi,he⟩

lemma checkManualSettlement_eq_ok {resolution : ManualResolution}
    {verified : TransferEvent} (h : checkManualSettlement ext db m resolution verified = .ok ()) :
    sameChoices m.stored resolution ∧ agreesWithStored ext m.expected verified = true := by
  simp only [checkManualSettlement,do_ok] at h
  exact ⟨h.1,h.2.1⟩

lemma resolve_settled (h : resolve ext db job clock ids = .ok db') :
    ∃ m, SettledManually ext db job clock ids m db' := by
  simp only [resolve,applyFinalizedResolution,completeResolution,do_eq_ok,require_eq_ok,
    exists_const] at h
  obtain ⟨-,⟨-,-,-,hf⟩,-,m,hl,⟨⟩,hce,d₁,hma,d₂,hpo,d₃,hin,d₄,hco, hca⟩ := h
  obtain ⟨hhe,hr,hi,he⟩ := loadManualSettlement_eq_ok hl
  obtain ⟨hch,hag⟩ := checkManualSettlement_eq_ok hce
  obtain ⟨hps,-,hu,rfl⟩ := insertMatch_eq_ok.mp hma
  obtain ⟨hun,rfl⟩ := postLedger_eq_ok.mp hpo
  obtain ⟨-,rfl⟩ := settleIntent_eq_ok.mp hin
  obtain ⟨rows,hro,hco⟩ := hco
  obtain ⟨-,rfl⟩ := updateOne_eq_ok.mp hro
  rw [pure_eq_ok] at hco
  subst hco
  obtain ⟨-,-,-,rfl⟩ := insertCallback_eq_ok.mp hca
  refine ⟨m,hf,hhe,hr,hi,he,hch,hag,fun p hp => ?_,hps,
    fun tx htx => (hun tx htx).1,_,_,rfl⟩
  refine ⟨(hu p hp).1,fun hso => ?_⟩
  by_contra hac
  cases (hu p hp).2 hso hac

end

/-- A step writes what no payment depends on and claims resolutions of transfers as they are stored,
or it is a transaction that moves a payment. -/
inductive Step (ext : Externals) (capability : String) (w : World) : Action → World → Prop
  | quiet {a clock chainBlocks cursors transferQueue jobs resolutions resolutionJobs}
      (hclaimed : ∀ job ∈ resolutionJobs, job ∈ w.resolutionJobs ∨
        job.expected ∈ w.db.transferEvents) :
      Step ext capability w a ⟨{ w.db with
        chainBlocks := chainBlocks
        cursors := cursors
        transferQueue := transferQueue
        jobs := jobs
        resolutions := resolutions },clock,resolutionJobs⟩
  | rewindReorg {lease batch incidentHeight ids db}
      (hd : rewindReorg capability w.db lease batch incidentHeight w.clock ids = .ok db) :
      Step ext capability w (.rewindReorg lease batch incidentHeight ids) { w with db }
  | ingestAndSettle {event now ids r} (hd : ingestAndSettle ext w.db event now ids = .ok r) :
      Step ext capability w (.ingestAndSettle event now ids) { w with db := r.1 }
  | reconcileMatching {worker job now ids db}
      (hd : reconcileAutomatedMatching ext w.db worker job now w.clock ids = .ok db) :
      Step ext capability w (.reconcileMatching worker job now ids) { w with db }
  | resolve {job ids db} (hjob : job ∈ w.resolutionJobs)
      (hd : resolve ext w.db job w.clock ids = .ok db) :
      Step ext capability w (.resolve job ids) { w with db }
  | ingestProviderPayment {payment prebind ids r}
      (hd : ingestVerifiedProviderPayment ext w.db payment prebind w.clock ids = .ok r) :
      Step ext capability w (.ingestProviderPayment payment prebind ids) { w with db := r.1 }

section
variable {ext : Externals} {capability : String} {w w' : World} {a : Action}

/-- What every committed transaction does to the tables of the settlements. -/
lemma exec_step (h : exec ext capability w a = .ok w') : Step ext capability w a w' := by
  cases a with
  | tick duration =>
    cases h
    exact .quiet fun _ => .inl
  | acquire chainID shard owner duration =>
    obtain ⟨r,hr,rfl⟩ := map_eq_ok.mp h
    obtain ⟨cursors,hdb⟩ := acquire_frame hr
    rw [hdb]
    exact .quiet fun _ => .inl
  | release lease =>
    obtain ⟨d,hd,rfl⟩ := map_eq_ok.mp h
    obtain ⟨cursors,rfl⟩ := release_frame hd
    exact .quiet fun _ => .inl
  | commitRange lease batch =>
    obtain ⟨d,hd,rfl⟩ := map_eq_ok.mp h
    obtain ⟨queue,cursors,rfl⟩ := commitRange_frame hd
    exact .quiet fun _ => .inl
  | claimTransfers worker now lease limit token =>
    obtain ⟨r,hr,rfl⟩ := map_eq_ok.mp h
    obtain ⟨queue,hdb⟩ := claimTransfers_frame hr
    rw [hdb]
    exact .quiet fun _ => .inl
  | completeTransfer worker eventID claimToken =>
    obtain ⟨d,hd,rfl⟩ := map_eq_ok.mp h
    obtain ⟨queue,rfl⟩ := completeTransfer_frame hd
    exact .quiet fun _ => .inl
  | retryTransfer worker eventID claimToken next deadLetter =>
    obtain ⟨d,hd,rfl⟩ := map_eq_ok.mp h
    obtain ⟨queue,rfl⟩ := retryTransfer_frame hd
    exact .quiet fun _ => .inl
  | enqueueMatching tenantID candidates now =>
    cases h
    obtain ⟨jobs,hj⟩ := enqueueAutomatedMatchingCandidates_frame w.db tenantID candidates now
    rw [hj]
    exact .quiet fun _ => .inl
  | claimMatching worker now lease limit token =>
    obtain ⟨r,hr,rfl⟩ := map_eq_ok.mp h
    obtain ⟨jobs,hdb⟩ := claimAutomatedMatching_frame hr
    rw [hdb]
    exact .quiet fun _ => .inl
  | retryMatching worker job next dead =>
    obtain ⟨d,hd,rfl⟩ := map_eq_ok.mp h
    obtain ⟨jobs,rfl⟩ := retryAutomatedMatching_frame hd
    exact .quiet fun _ => .inl
  | rewindReorg lease batch incidentHeight ids =>
    obtain ⟨d,hd,rfl⟩ := map_eq_ok.mp h
    exact .rewindReorg hd
  | ingestAndSettle event now ids =>
    obtain ⟨r,hr,rfl⟩ := map_eq_ok.mp h
    exact .ingestAndSettle hr
  | reconcileMatching worker job now ids =>
    obtain ⟨d,hd,rfl⟩ := map_eq_ok.mp h
    exact .reconcileMatching hd
  | claimResolutions worker chainID now lease limit token =>
    obtain ⟨⟨d,claimed⟩,hd,rfl⟩ := map_eq_ok.mp h
    obtain ⟨⟨rows,rfl⟩,hcl⟩ := claimResolutions_frame hd
    refine .quiet fun job hjo => ?_
    exact (List.mem_append.mp hjo).imp id (hcl job)
  | resolve job ids =>
    simp only [exec,do_ok] at h
    obtain ⟨hjo,d,hd,rfl⟩ := h
    exact .resolve hjo hd
  | ingestProviderPayment payment prebind ids =>
    obtain ⟨r,hr,rfl⟩ := map_eq_ok.mp h
    exact .ingestProviderPayment hr

end

end Ocrypt.ResolutionEffects
