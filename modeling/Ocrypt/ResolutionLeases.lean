import Ocrypt.ReorgEffects
import Ocrypt.ResolutionEffects

/-! A resolution is applied to the copy of the transfer that was claimed with it. While the
lease lives, the copy agrees with the stored transfer as long as no rewind orphans it; the
transaction itself does not look at the stored status. -/
namespace Ocrypt.ResolutionLeases
open Domain Fallible Table Store Settlement Scanner Reorg Resolutions Transactions Workers
  ReorgEffects ResolutionEffects List

abbrev Live (clock : ℤ) (r : ResolutionRow) : Prop := ∃ u ∈ r.lockedUntil, clock < u

/-- The steps of the resolution worker and of the reorg worker: claim tokens are new, and a rewind
orphans no transfer of a resolution whose lease lives. -/
def LeaseRespecting (w : World) : Action → Prop
  | .tick _ | .acquire .. | .release _ | .resolve .. => True
  | .claimResolutions _ _ _ _ _ token =>
    ∀ job ∈ w.resolutionJobs, job.resolution.claimToken ≠ token job.resolution.id
  | .rewindReorg lease batch _ _ =>
    ∀ r ∈ w.db.resolutions, Live w.clock r →
      r.transferEventID ∉ replacedEvents w.db lease batch
  | _ => False

instance (w : World) (a : Action) : Decidable (LeaseRespecting w a) := by
  induction a using Workers.Action.casesOn <;> dsimp only [LeaseRespecting] <;> infer_instance

/-- A claimed copy names the transfer of its resolution, and under a live lease it has the
status of the stored transfer. -/
structure Copied (clock : ℤ) (db : Database) (job : ResolutionJob) : Prop where
  transfer : ∀ r ∈ db.resolutions, r.id = job.resolution.id → r.transferEventID = job.expected.id
  status : ∀ r ∈ db.resolutions,
    HoldsResolution job.resolution.id job.resolution.claimToken clock r →
      ∀ t ∈ db.transferEvents, t.id = job.expected.id → t.status = job.expected.status

structure Faithful (clock : ℤ) (db : Database) (jobs : List ResolutionJob) : Prop where
  ids : (db.transferEvents.map (·.id)).Nodup
  resolutionIDs : (db.resolutions.map (·.id)).Nodup
  copied : ∀ job ∈ jobs, Copied clock db job

variable {token : String → String} {worker : String} {now lease : ℤ}

section
variable {ext : Externals} {clock : ℤ} {db db' : Database} {jobs : List ResolutionJob}
  {claimed claimed' : List ResolutionJob} {capability : String}

section
variable (h : Faithful clock db jobs)
include h

lemma Faithful.of_same (he : db'.transferEvents = db.transferEvents)
    (hr : db'.resolutions = db.resolutions) : Faithful clock db' jobs := by
  refine ⟨by rw [he]; exact h.ids,by rw [hr]; exact h.resolutionIDs,
    fun job hj => ⟨?_,?_⟩⟩
  · rw [hr]
    exact (h.copied job hj).transfer
  · rw [hr,he]
    exact (h.copied job hj).status

lemma Faithful.tick {later : ℤ} (hl : clock ≤ later) : Faithful later db jobs := by
  refine ⟨h.ids,h.resolutionIDs,fun job hj => ⟨(h.copied job hj).transfer,?_⟩⟩
  rintro r hr ⟨hid,hto,u,hu,hli⟩
  exact (h.copied job hj).status r hr ⟨hid,hto,u,hu,lt_of_le_of_lt hl hli⟩

lemma Faithful.claimOne {id : String}
    (hn : ∀ job ∈ jobs, job.resolution.id = id → job.resolution.claimToken ≠ token id)
    (he : claimResolution worker now lease clock token (db,claimed) id = .ok (db',claimed')) :
    ∃ job, claimed' = claimed ++ [job] ∧ job.resolution.id = id ∧
      Faithful clock db' (jobs ++ [job]) := by
  simp only [claimResolution,loadResolutionJob,do_ok,updateOne_eq_ok,orFail_eq_ok] at he
  obtain ⟨rows,⟨-,hro⟩,job,⟨r,hr,t,ht,rfl⟩,hre⟩ := he
  cases hre
  obtain ⟨hr,hhe⟩ := mem_of_find? hr
  obtain ⟨ht,hti⟩ := mem_of_find? ht
  have hi : (rows.map (·.id)).Nodup := by
    rw [← hro]
    convert h.resolutionIDs using 1
    exact map_update fun _ _ _ => rfl
  refine ⟨_,rfl,hhe.1,h.ids,hi,fun job hj => ?_⟩
  rcases mem_snoc.mp hj with hj | rfl
  · have hold := h.copied job hj
    refine ⟨fun r' hr' hid => ?_,fun r' hr' hho => ?_⟩
    · rw [← hro] at hr'
      exact of_mem_update hr' hold.transfer (fun _ h => h) hid
    · rw [← hro] at hr'
      rcases mem_update_iff.mp hr' with ⟨hr',-⟩ | ⟨r₀,hr₀,hp,rfl⟩
      · exact hold.status r' hr' hho
      · -- The row carries the new token now, which no older copy was handed out under.
        have hid := hho.1.symm.trans hp.1
        exact absurd (Option.some.inj hho.2.1).symm (hn job hj hid)
  · refine ⟨fun r' hr' hid => ?_,fun _ _ _ t' ht' hti' => ?_⟩
    · have hsame : r' = r := inj_on_of_nodup_map hi hr' hr hid
      rw [hsame]
      exact hti.symm
    · have hsame : t' = t := inj_on_of_nodup_map h.ids ht' ht hti'
      rw [hsame]

lemma Faithful.claimAll {ids : List String} (hn : ids.Nodup)
    (hne : ∀ job ∈ jobs, job.resolution.id ∈ ids → job.resolution.claimToken ≠ token job.resolution.id)
    (he : Fallible.traverse (claimResolution worker now lease clock token) ids (db,claimed) =
      .ok (db',claimed')) :
    ∃ added, claimed' = claimed ++ added ∧ Faithful clock db' (jobs ++ added) := by
  induction ids generalizing db jobs claimed with
  | nil =>
    cases he
    exact ⟨[],by simp,by simpa using h⟩
  | cons id ids ih =>
    obtain ⟨ho,hr⟩ := nodup_cons.mp hn
    obtain ⟨⟨mid,claimed₁⟩,hon,he⟩ := traverse_cons_eq_ok.mp he
    have hid : ∀ job ∈ jobs, job.resolution.id = id → job.resolution.claimToken ≠ token id := by
      intro job hjo hid
      have := hne job hjo (hid ▸ mem_cons_self)
      rwa [hid] at this
    obtain ⟨job,rfl,hjo,hf⟩ := h.claimOne hid hon
    have hl : ∀ j ∈ jobs ++ [job], j.resolution.id ∈ ids →
        j.resolution.claimToken ≠ token j.resolution.id :=
      forall_snoc (fun j hj hm => hne j hj (mem_cons_of_mem id hm)) fun hm => absurd (hjo ▸ hm) ho
    obtain ⟨added,rfl,had⟩ := ih hf hr hl he
    exact ⟨job::added,by simp,by simpa using had⟩

lemma Faithful.claim {chainID : String} {limit : ℕ} {claimed : List ResolutionJob}
    (hne : ∀ job ∈ jobs, job.resolution.claimToken ≠ token job.resolution.id)
    (he : claimResolutions db worker chainID now lease limit clock token = .ok (db',claimed)) :
    Faithful clock db' (jobs ++ claimed) := by
  simp only [claimResolutions,do_ok] at he
  obtain ⟨-,he⟩ := he
  -- The rows to claim are distinct: they are a selection of the stored rows, sorted and cut.
  have hn : (((((db.resolutions.filter (claimableResolution db chainID now)).insertionSort
      fun a b => a.nextAttemptAt < b.nextAttemptAt ∨
        (a.nextAttemptAt = b.nextAttemptAt ∧ a.id ≤ b.id)).take limit).map (·.id))).Nodup := by
    rw [map_take]
    refine List.Nodup.sublist (take_sublist _ _) ?_
    refine (((perm_insertionSort _ _).map _).nodup_iff).mpr ?_
    exact h.resolutionIDs.sublist (filter_sublist.map _)
  obtain ⟨added,rfl,hf⟩ := h.claimAll hn (fun job hj _ => hne job hj) he
  simpa using hf

lemma Faithful.rewind {lease : Lease} {batch : RangeBatch} {incidentHeight : ℕ} {ids : ReorgIDs}
    (hrs : ∀ r ∈ db.resolutions, Live clock r → r.transferEventID ∉ replacedEvents db lease batch)
    (hee : rewindReorg capability db lease batch incidentHeight clock ids = .ok db') :
    Faithful clock db' jobs := by
  obtain ⟨d,cursors,ho,rfl⟩ := rewindReorg_effect hee
  obtain ⟨has,-⟩ := traverse_orphaned ho
  have he := has.transferEvents
  have hre := has.resolutions
  refine ⟨?_,?_,fun job hj => ⟨?_,?_⟩⟩
  · convert h.ids using 1
    rw [← he]
    exact map_update fun _ _ _ => rfl
  · show (d.resolutions.map (·.id)).Nodup
    rw [hre]
    exact h.resolutionIDs
  · show ∀ r ∈ d.resolutions, _
    rw [hre]
    exact (h.copied job hj).transfer
  · intro r hr hho t ht hid
    change r ∈ d.resolutions at hr
    rw [hre] at hr
    rcases mem_update_iff.mp ht with ⟨ht,-⟩ | ⟨t₀,-,hrp,rfl⟩
    · rw [he] at ht
      exact (h.copied job hj).status r hr hho t ht hid
    · have htr := (h.copied job hj).transfer r hr hho.1
      have hou := hrs r hr hho.2.2
      rw [htr,← hid] at hou
      exact absurd hrp.1 hou

lemma Faithful.resolve {job : ResolutionJob} {ids : ManualIDs}
    (he : Resolutions.resolve ext db job clock ids = .ok db') : Faithful clock db' jobs := by
  obtain ⟨m,hse⟩ := resolve_settled he
  obtain ⟨callbacks,status,rfl⟩ := hse.result
  refine ⟨h.ids,?_,fun job hj => ⟨fun r hr hid => ?_,fun r hr hho => ?_⟩⟩
  · convert h.resolutionIDs using 1
    exact map_update fun _ _ _ => rfl
  · exact of_mem_update hr (h.copied job hj).transfer (fun _ h => h) hid
  · rcases mem_update_iff.mp hr with ⟨hr,-⟩ | ⟨r₀,-,-,rfl⟩
    · exact (h.copied job hj).status r hr hho
    · cases hho.2.1

end

/-- A transaction that respects the leases keeps the claimed copies up to date. -/
lemma Faithful.step {w w' : World} {a : Action}
    (h : Faithful w.clock w.db w.resolutionJobs) (hre : LeaseRespecting w a)
    (he : exec ext capability w a = .ok w') : Faithful w'.clock w'.db w'.resolutionJobs := by
  cases a with
  | tick duration =>
    cases he
    exact h.tick (by simp)
  | acquire chainID shard owner duration =>
    obtain ⟨r,hr,rfl⟩ := map_eq_ok.mp he
    obtain ⟨cursors,hdb⟩ := acquire_frame hr
    exact h.of_same (by rw [hdb]) (by rw [hdb])
  | release lease =>
    obtain ⟨d,hd,rfl⟩ := map_eq_ok.mp he
    obtain ⟨cursors,rfl⟩ := release_frame hd
    exact h.of_same rfl rfl
  | rewindReorg lease batch incidentHeight ids =>
    obtain ⟨d,hd,rfl⟩ := map_eq_ok.mp he
    exact h.rewind hre hd
  | claimResolutions worker chainID now lease limit token =>
    obtain ⟨⟨d,claimed⟩,hd,rfl⟩ := map_eq_ok.mp he
    exact h.claim hre hd
  | resolve job ids =>
    simp only [exec,do_ok] at he
    obtain ⟨-,d,hd,rfl⟩ := he
    exact h.resolve hd
  | commitRange | claimTransfers | completeTransfer | retryTransfer | ingestAndSettle
  | enqueueMatching | claimMatching | reconcileMatching | retryMatching
  | ingestProviderPayment => exact hre.elim

end

/-- Along every run that respects the leases, a resolution that commits settles a transfer that
is stored as finalized. -/
theorem resolve_transfer_finalized (ext : Externals) (capability : String) (w : World)
    (as : List Action) (job : ResolutionJob) (ids : ManualIDs) (w' : World)
    (hevents : (w.db.transferEvents.map (·.id)).Nodup)
    (hresolutions : (w.db.resolutions.map (·.id)).Nodup) (hjobs : w.resolutionJobs = [])
    (hrun : Along (exec ext capability) LeaseRespecting w as)
    (hexec : exec ext capability (run (exec ext capability) w as) (.resolve job ids) = .ok w') :
    ∀ t ∈ (run (exec ext capability) w as).db.transferEvents, t.id = job.expected.id →
      t.status = .finalized := by
  have hst : Faithful w.clock w.db w.resolutionJobs :=
    ⟨hevents,hresolutions,by simp [hjobs]⟩
  have hf := run_invariant (P := fun w : World => Faithful w.clock w.db w.resolutionJobs)
    (fun w a w' h hc hexec => h.step hc hexec) hst hrun
  simp only [exec,do_eq_ok,exists_require] at hexec
  obtain ⟨hj,d,hd,-⟩ := hexec
  obtain ⟨m,hse⟩ := resolve_settled hd
  intro t ht hid
  rw [(hf.copied job hj).status m.stored hse.held.1 hse.held.2 t ht hid]
  exact hse.final

def sampleResolution : ResolutionRow where
  id := "00000000-0000-4000-8000-000000000001"
  tenantID := "tenant"
  unmatchedPaymentID := "unmatched"
  transferEventID := "paid"
  targetRouteID := "route"
  candidateSetVersion := 1
  requestedBy := "operator"
  approvedBy := "approver"
  acceptShortfall := true
  acceptLatePayment := false
  acceptCrossAsset := false
  reason := "agreed with the customer"
  status := .verificationRequested
  verifierEvidenceHash := none
  nextAttemptAt := 0
  attemptCount := 0
  lockedBy := none
  lockedUntil := none
  leaseToken := none

def sampleToken : String := "00000000-0000-4000-8000-000000000002"

def sampleShortfall : TransferEvent := samplePayment "paid" 90 "block-7"

def sampleJob : ResolutionJob :=
  ⟨{ claimedCopy sampleResolution sampleToken with attempt := 1 },sampleShortfall⟩

def sampleUnmatched : World where
  db := { sampleStart.db with
    chainBlocks := [⟨"tron",6,"block-6",.safe,0⟩,⟨"tron",7,"block-7",.safe,0⟩]
    cursors := [⟨"tron","shard","transfers",7,"block-7",none,none,3⟩]
    transferEvents := [sampleShortfall]
    unmatched := [⟨"unmatched",some "tenant","paid","partial",.verificationRequested,
      some "route",1⟩]
    candidates := [⟨"tenant","unmatched","route",1,80,.partialPayment,[],[],1⟩]
    resolutions := [sampleResolution] }

def sampleClaim : Action := .claimResolutions "resolver" "tron" 1 minute 10 fun _ => sampleToken

theorem resolve_transfer_finalized_sample : ∃ w', exec sampleExternals "transfers"
        (run (exec sampleExternals "transfers") sampleUnmatched [sampleClaim])
        (.resolve sampleJob ⟨"settlement","match","webhook"⟩) = .ok w' ∧
      ∀ t ∈ (run (exec sampleExternals "transfers") sampleUnmatched [sampleClaim]).db.transferEvents,
        t.id = sampleJob.expected.id → t.status = .finalized := by
  have hco : ∃ w', exec sampleExternals "transfers"
      (run (exec sampleExternals "transfers") sampleUnmatched [sampleClaim])
      (.resolve sampleJob ⟨"settlement","match","webhook"⟩) = .ok w' ∧
        w'.db.ledger.length = 1 := by
    decide +kernel
  obtain ⟨w',hw',-⟩ := hco
  exact ⟨w',hw',resolve_transfer_finalized sampleExternals "transfers" sampleUnmatched
    [sampleClaim] sampleJob _ w' (by decide) (by decide) rfl (by decide +kernel) hw'⟩

def sampleReorgUnderLease : List Action :=
  [.acquire "tron" "shard" "scanner" minute,sampleClaim,
    .rewindReorg (sampleLease 4 7 "block-7") (sampleBatch "rival-7" []) 7 (sampleReorgIDs "1")]

/-- The resolution still commits: it credits a transfer that is stored as reorged. -/
theorem resolve_transfer_reorged : ∃ w', exec sampleExternals "transfers"
        (run (exec sampleExternals "transfers") sampleUnmatched sampleReorgUnderLease)
        (.resolve sampleJob ⟨"settlement","match","webhook"⟩) = .ok w' ∧
      (∃ m ∈ w'.db.paymentMatches, m.source = .transfer "paid" ∧ m.state = .finalized) ∧
      ∃ t ∈ w'.db.transferEvents, t.id = "paid" ∧ t.status = .reorged := by
  decide +kernel

end Ocrypt.ResolutionLeases
