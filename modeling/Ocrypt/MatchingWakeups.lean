import Ocrypt.MatchingEffects
import Ocrypt.Workers

/-! The job rows of automated matching as a protocol: requests, claims, evaluations and retries,
with time passing between them. A worker that crashes takes no further step, so its lease runs out.
A lease that runs out is never taken over, and a row that is given up drops the requests it has
collected; a requested route without these two is always evaluated again. -/
namespace Ocrypt.MatchingWakeups
open Domain Matching Fallible Table Store Candidates MatchingJobs MatchingStore Transactions Workers
  MatchingEffects List

/-- The shared database and the clock, with a record of what was requested and how it ended. -/
structure Watched where
  db : Database
  clock : ℤ := 0
  /-- The routes that were requested after their last completed evaluation was claimed. -/
  wanted : List String := []
  /-- The routes that were requested after they were last claimed. -/
  late : List String := []
  /-- The routes whose last claim was not ended by its worker. -/
  unended : List String := []
  /-- The routes that were given up after they were last requested. -/
  givenUp : List String := []

inductive JobAction
  | elapse (duration : ℕ)
  /-- Transactions of other workers, which may change any table but the jobs. -/
  | others (db : Database)
  | enqueue (tenantID : String) (candidates : List Candidate) (now : ℤ)
  | claim (worker : String) (now lease : ℤ) (limit : ℕ) (token : String → String)
  | reconcile (worker : String) (job : AutomatedMatchingJob) (now : ℤ) (ids : ReconcileIDs)
  | retry (worker : String) (job : AutomatedMatchingJob) (next : ℤ) (dead : Bool)

/-- The route exists for the tenant and has a policy, so that a request for it is stored. -/
abbrev Bound (db : Database) (tenantID routeID : String) : Prop :=
  ∃ r ∈ db.routes.find? fun r => r.id = routeID ∧ r.tenantID = tenantID,
    ∃ b ∈ db.bindings, b.routeID = r.id ∧ b.tenantID = r.tenantID

def requestedRoutes (db : Database) (tenantID : String) (candidates : List Candidate) : List String :=
  ((candidates.filter enqueueable).map (·.routeID)).eraseDups.filter (Bound db tenantID)

def execJob (ext : Externals) (w : Watched) : JobAction → Except Failure Watched
  | .elapse duration => .ok { w with clock := w.clock+duration }
  | .others db => .ok { w with db := { db with jobs := w.db.jobs } }
  | .enqueue tenantID candidates now =>
    let requested := requestedRoutes w.db tenantID candidates
    .ok { w with
      db := enqueueAutomatedMatchingCandidates w.db tenantID candidates now
      wanted := requested ++ w.wanted
      late := requested ++ w.late
      givenUp := w.givenUp.filter (· ∉ requested) }
  | .claim worker now lease limit token =>
    (claimAutomatedMatching w.db worker now lease limit token).map fun r => { w with
      db := r.1
      late := w.late.filter (· ∉ r.2.map (·.routeID))
      unended := r.2.map (·.routeID) ++ w.unended }
  | .reconcile worker job now ids =>
    (reconcileAutomatedMatching ext w.db worker job now w.clock ids).map fun db => { w with
      db
      wanted := w.wanted.filter fun routeID => routeID ≠ job.routeID ∨ routeID ∈ w.late
      unended := w.unended.filter (· ≠ job.routeID) }
  | .retry worker job next dead =>
    (retryAutomatedMatching w.db worker job next dead w.clock).map fun db => { w with
      db
      unended := w.unended.filter (· ≠ job.routeID)
      givenUp := if dead then job.routeID::w.givenUp else w.givenUp }

/-- The time a row waits for: its next attempt, or the deadline of its lease. -/
def wakesAt (job : MatchingJob) : Option ℤ :=
  match job.status with
  | .pending | .retry => some job.nextAttemptAt
  | .leased => job.lockedUntil
  | .completed | .deadLetter => none

/-- The row can be claimed whenever the time that it waits for has passed. -/
def Wakes (job : MatchingJob) : Prop := ∃ t ∈ wakesAt job, ∀ later, t ≤ later → Claimable later job

lemma wakes_iff (job : MatchingJob) : Wakes job ↔ job.status = .pending ∨ job.status = .retry := by
  constructor
  · rintro ⟨t,-,hcl⟩
    exact (hcl t le_rfl).1
  · intro hst
    refine ⟨job.nextAttemptAt,?_,fun later hl => ⟨hst,hl⟩⟩
    rcases hst with hst | hst <;> simp [wakesAt,hst]

instance (job : MatchingJob) : Decidable (Wakes job) := decidable_of_iff _ (wakes_iff job).symm

/-- What is recorded of the routes, as sets. -/
structure Record where
  (wanted late unended givenUp : Set String)

/-- The row of a route is in the state that the record gives. A wanted route is not completed, and a
late request is flagged in its leased row. -/
structure Agrees (rec : Record) (job : MatchingJob) : Prop where
  leased : job.status = .leased ↔ job.routeID ∈ rec.unended
  dead : job.status = .deadLetter ↔ job.routeID ∈ rec.givenUp
  unfinished : job.routeID ∈ rec.wanted → job.status ≠ .completed
  flagged : job.routeID ∈ rec.late → job.status = .leased → job.rescheduleRequested = true

structure Tended (jobs : List MatchingJob) (rec : Record) : Prop where
  unique : (jobs.map (·.routeID)).Nodup
  known : ∀ r ∈ rec.wanted ∪ rec.unended, ∃ job ∈ jobs, job.routeID = r
  rows : ∀ job ∈ jobs, Agrees rec job

variable {clock now : ℤ} {rec rec' : Record}

section
variable {jobs : List MatchingJob} {job : MatchingJob} {routeID : String}

lemma Agrees.congr (h : Agrees rec job)
    (hw : job.routeID ∈ rec'.wanted → job.routeID ∈ rec.wanted)
    (hl : job.routeID ∈ rec'.late → job.routeID ∈ rec.late)
    (hu : job.routeID ∈ rec'.unended ↔ job.routeID ∈ rec.unended)
    (hg : job.routeID ∈ rec'.givenUp ↔ job.routeID ∈ rec.givenUp) : Agrees rec' job where
  leased := h.leased.trans hu.symm
  dead := h.dead.trans hg.symm
  unfinished := fun hr => h.unfinished (hw hr)
  flagged := fun hr => h.flagged (hl hr)

section
variable (h : Tended jobs rec)
include h

lemma Tended.congr (hw : rec'.wanted ⊆ rec.wanted) (hl : rec'.late ⊆ rec.late)
    (hu : ∀ r, r ∈ rec'.unended ↔ r ∈ rec.unended)
    (hg : ∀ r, r ∈ rec'.givenUp ↔ r ∈ rec.givenUp) : Tended jobs rec' where
  unique := h.unique
  known := fun r hr => h.known r (hr.imp (@hw r) (hu r).mp)
  rows := fun job hj => (h.rows job hj).congr (@hw _) (@hl _) (hu _) (hg _)

lemma Tended.wakes_iff (hr : routeID ∈ rec.wanted) :
    (∃ job ∈ jobs, job.routeID = routeID ∧ Wakes job) ↔
      routeID ∉ rec.unended ∧ routeID ∉ rec.givenUp := by
  obtain ⟨row,hrow,rfl⟩ := h.known routeID (.inl hr)
  have ha := h.rows row hrow
  have hun := ha.unfinished hr
  rw [← ha.leased,← ha.dead]
  constructor
  · rintro ⟨job,hj,hid,hwa⟩
    have hsame : job = row := inj_on_of_nodup_map h.unique hj hrow hid
    subst hsame
    rcases (MatchingWakeups.wakes_iff job).mp hwa with hst | hst <;> simp [hst]
  · rintro ⟨hl,hd⟩
    refine ⟨row,hrow,rfl,(MatchingWakeups.wakes_iff row).mpr ?_⟩
    cases hst : row.status <;> simp_all

/-- A write to some rows keeps the agreement if it does so for every row, written or not. -/
lemma Tended.update {p : MatchingJob → Prop} [DecidablePred p] {f : MatchingJob → MatchingJob}
    (hro : ∀ job, (f job).routeID = job.routeID)
    (hk : ∀ r ∈ rec'.wanted ∪ rec'.unended, ∃ job ∈ jobs, job.routeID = r)
    (ho : ∀ job ∈ jobs, ¬p job → Agrees rec' job)
    (hf : ∀ job ∈ jobs, p job → Agrees rec' (f job)) : Tended (update p f jobs) rec' := by
  refine ⟨?_,fun r hr => ?_,forall_mem_update ho hf⟩
  · rw [map_update fun job _ _ => hro job]
    exact h.unique
  · obtain ⟨job,hj,hid⟩ := hk r hr
    exact exists_mem_update hj (fun _ => (hro job).trans hid) fun _ => hid

omit h in
/-- An update that holds one row of a route holds the only one. -/
lemma route_ne_of_updateOne {p : MatchingJob → Prop} [DecidablePred p]
    {f : MatchingJob → MatchingJob} {e : Failure} {rows : List MatchingJob}
    (hu : (jobs.map (·.routeID)).Nodup) (he : updateOne p f e jobs = .ok rows)
    (hp : ∀ row, p row → row.routeID = routeID) (hj : job ∈ jobs) (hn : ¬p job) :
    job.routeID ≠ routeID := by
  intro hid
  obtain ⟨held,hhe,hse⟩ := countP_pos_iff.mp ((updateOne_eq_ok.mp he).1.symm ▸ Nat.one_pos)
  have hse := of_decide_eq_true hse
  have hsame : job = held := inj_on_of_nodup_map hu hj hhe (hid.trans (hp held hse).symm)
  exact hn (hsame ▸ hse)

/-- The worker of a claim ends it: only the row of its route changes. -/
lemma Tended.ended {p : MatchingJob → Prop} [DecidablePred p] {f : MatchingJob → MatchingJob}
    {e : Failure} {rows : List MatchingJob} (he : updateOne p f e jobs = .ok rows)
    (hp : ∀ row, p row → row.routeID = routeID) (hro : ∀ job, (f job).routeID = job.routeID)
    (hw : rec'.wanted ⊆ rec.wanted) (hu : rec'.unended ⊆ rec.unended)
    (ho : ∀ row, row.routeID ≠ routeID → Agrees rec row → Agrees rec' row)
    (hf : ∀ row, p row → Agrees rec row → Agrees rec' (f row)) : Tended rows rec' := by
  obtain ⟨-,rfl⟩ := updateOne_eq_ok.mp he
  exact h.update hro (fun r hr => h.known r (hr.imp (@hw r) (@hu r)))
    (fun row hrow hn => ho row (route_ne_of_updateOne h.unique he hp hrow hn) (h.rows row hrow))
    fun row hrow hr => hf row hr (h.rows row hrow)

end

lemma requestJob_routeID (job : MatchingJob) (now : ℤ) :
    (requestJob job now).routeID = job.routeID := by
  unfold requestJob
  split <;> rfl

/-- The record after requests for the routes were stored. -/
def Record.requested (rec : Record) (routeIDs : Set String) : Record where
  wanted := routeIDs ∪ rec.wanted
  late := routeIDs ∪ rec.late
  unended := rec.unended
  givenUp := rec.givenUp \ routeIDs

lemma Record.requested_requested (rec : Record) (s t : Set String) :
    (rec.requested s).requested t = rec.requested (s ∪ t) := by
  simp only [Record.requested,Set.union_comm s t,Set.union_assoc,Set.sdiff_sdiff]

lemma Agrees.other (h : Agrees rec job) (hne : job.routeID ≠ routeID) :
    Agrees (rec.requested {routeID}) job :=
  h.congr (fun hr => hr.resolve_left hne) (fun hr => hr.resolve_left hne) Iff.rfl
    (by simp [Record.requested,hne])

lemma Agrees.request (h : Agrees rec job) (hid : job.routeID = routeID) :
    Agrees (rec.requested {routeID}) (requestJob job now) := by
  subst hid
  have hl := h.leased
  unfold requestJob
  split <;> constructor <;> simp_all [Record.requested]

lemma Tended.request (h : Tended jobs rec) (hid : job.routeID = routeID)
    (hp : job.status = .pending) :
    Tended (upsertJob jobs job (requestJob · now)) (rec.requested {routeID}) := by
  unfold upsertJob
  split
  · rename_i he
    refine h.update (fun row => requestJob_routeID row now) (fun r hr => ?_)
      (fun row hrow hne => (h.rows row hrow).other (hid ▸ hne))
      fun row hrow hr => (h.rows row hrow).request (hr.trans hid)
    rcases hr with (rfl | hr) | hr
    · exact hid ▸ he
    · exact h.known r (.inl hr)
    · exact h.known r (.inr hr)
  · rename_i hn
    have hne : ∀ row ∈ jobs, row.routeID ≠ job.routeID := fun row hrow hr => hn ⟨row,hrow,hr⟩
    refine ⟨nodup_map_append h.unique hne,fun r hr => ?_,forall_snoc
      (fun row hrow => (h.rows row hrow).other (hid ▸ hne row hrow)) ?_⟩
    · by_cases heq : r = routeID
      · exact ⟨job,mem_concat_self,hid.trans heq.symm⟩
      · obtain ⟨row,hrow,hre⟩ := h.known r (hr.imp (fun hr => hr.resolve_left heq) id)
        exact ⟨row,mem_append_left _ hrow,hre⟩
    · have hun : job.routeID ∉ rec.unended := fun hr => by
        obtain ⟨row,hrow,hre⟩ := h.known _ (.inr hr)
        exact hne row hrow hre
      subst hid
      constructor <;> simp [hp,hun,Record.requested]

end

variable {ext : Externals}

section
variable {db db' : Database} {worker : String} {job : AutomatedMatchingJob} {next : ℤ}
  {ids : ReconcileIDs}

lemma requestRoute_cases (db : Database) (tenantID routeID : String) (now : ℤ) :
    (¬Bound db tenantID routeID ∧ requestRoute db tenantID routeID now = db) ∨
      ∃ job : MatchingJob, Bound db tenantID routeID ∧ job.routeID = routeID ∧
        job.status = .pending ∧ job.attemptCount = 0 ∧ requestRoute db tenantID routeID now =
          { db with jobs := upsertJob db.jobs job (requestJob · now) } := by
  unfold requestRoute Bound
  cases hf : db.routes.find? fun r => r.id = routeID ∧ r.tenantID = tenantID with
  | none => exact .inl ⟨by simp,rfl⟩
  | some r =>
    by_cases hbo : ∃ b ∈ db.bindings, b.routeID = r.id ∧ b.tenantID = r.tenantID
    · simp only [if_pos hbo]
      exact .inr ⟨newJob r.id r.tenantID r.merchantID now,⟨r,rfl,hbo⟩,(mem_of_find? hf).2.1,rfl,rfl,
        rfl⟩
    · simp only [if_neg hbo]
      refine .inl ⟨?_,trivial⟩
      rintro ⟨s,⟨⟩,hb⟩
      exact hbo hb

lemma tended_requests (tenantID : String) (now : ℤ) (routeIDs : List String)
    (h : Tended db.jobs rec) :
    Tended (routeIDs.foldl (fun db r => requestRoute db tenantID r now) db).jobs
      (rec.requested {r | r ∈ routeIDs.filter (Bound db tenantID)}) := by
  induction routeIDs generalizing db rec with
  | nil => simpa [Record.requested] using h
  | cons routeID rest ih =>
    rw [foldl_cons]
    rcases requestRoute_cases db tenantID routeID now with ⟨hu,heq⟩ | ⟨job,hbo,hid,hp,-,heq⟩
    · rw [heq,filter_cons_of_neg (by simpa using hu)]
      exact ih h
    · have hre : Tended { db with
          jobs := upsertJob db.jobs job (requestJob · now) }.jobs (rec.requested {routeID}) :=
        h.request hid hp
      have hall := ih hre
      rw [Record.requested_requested] at hall
      rw [heq,filter_cons_of_pos (by simpa using hbo)]
      have hcons : {r | r ∈ routeID::rest.filter (Bound db tenantID)} =
          {routeID} ∪ {r | r ∈ rest.filter (Bound db tenantID)} := Set.ext fun _ => mem_cons
      rw [hcons]
      exact hall

/-- The row as it is leased to a worker. -/
def leasedTo (worker : String) (deadline : ℤ) (token : String → String) (row : MatchingJob) :
    MatchingJob :=
  { row with
    status := .leased
    lockedBy := some worker
    lockedUntil := some deadline
    leaseToken := some (token row.routeID)
    attemptCount := row.attemptCount+1 }

lemma claimAutomatedMatching_claimed {lease : ℤ} {limit : ℕ} {token : String → String}
    {claimed : List AutomatedMatchingJob} (hu : (db.jobs.map (·.routeID)).Nodup)
    (he : claimAutomatedMatching db worker now lease limit token = .ok (db',claimed)) :
    (∀ job ∈ claimed, ∃ row ∈ db.jobs, row.routeID = job.routeID ∧
        job.attempt = row.attemptCount+1) ∧
      (∀ row ∈ db.jobs, row.routeID ∈ claimed.map (·.routeID) → Claimable now row) ∧
      db'.jobs = update (·.routeID ∈ claimed.map (·.routeID))
        (leasedTo worker (now+wholeMilliseconds lease) token) db.jobs := by
  simp only [claimAutomatedMatching,do_ok] at he
  obtain ⟨-,hre⟩ := he
  cases hre
  have hch : ∀ r ∈ ((claimableJobs db.jobs now).take limit).map (·.routeID),
      ∃ row ∈ db.jobs, row.routeID = r ∧ Claimable now row := by
    intro r hr
    obtain ⟨row,hrow,rfl⟩ := mem_map.mp hr
    obtain ⟨hrow,hcl⟩ := mem_filter.mp ((mem_insertionSort _).mp (mem_of_mem_take hrow))
    exact ⟨row,hrow,rfl,of_decide_eq_true hcl⟩
  generalize ((claimableJobs db.jobs now).take limit).map (·.routeID) = chosen at hch
  have hmem : ∀ r, r ∈ (((update (·.routeID ∈ chosen) (leasedTo worker (now+wholeMilliseconds lease)
      token) db.jobs).filter (·.routeID ∈ chosen)).map fun j =>
        (⟨j.routeID,token j.routeID,j.attemptCount⟩ : AutomatedMatchingJob)).map (·.routeID) ↔
      r ∈ chosen := by
    intro r
    rw [map_map,mem_map]
    constructor
    · rintro ⟨row,hrow,rfl⟩
      exact of_decide_eq_true (mem_filter.mp hrow).2
    · intro hr
      obtain ⟨row,hrow,rfl,-⟩ := hch r hr
      exact ⟨_,mem_filter.mpr ⟨mem_update_self hrow hr,decide_eq_true hr⟩,rfl⟩
  refine ⟨fun job hj => ?_,fun row hrow hr => ?_,?_⟩
  · obtain ⟨row,hrow,rfl⟩ := mem_map.mp hj
    obtain ⟨hrow,hin⟩ := mem_filter.mp hrow
    rcases mem_update_iff.mp hrow with ⟨-,hno⟩ | ⟨old,hold,-,rfl⟩
    · exact absurd (of_decide_eq_true hin) hno
    · exact ⟨old,hold,rfl,rfl⟩
  · obtain ⟨job,hj,hid,hcl⟩ := hch _ ((hmem _).mp hr)
    have hsame : job = row := inj_on_of_nodup_map hu hj hrow hid
    exact hsame ▸ hcl
  · exact update_congr fun row _ => (hmem row.routeID).symm

lemma tended_claim {lease : ℤ} {limit : ℕ} {token : String → String}
    {claimed : List AutomatedMatchingJob}
    (he : claimAutomatedMatching db worker now lease limit token = .ok (db',claimed))
    (h : Tended db.jobs rec) :
    Tended db'.jobs ⟨rec.wanted,{r | r ∈ rec.late ∧ r ∉ claimed.map (·.routeID)},
      {r | r ∈ claimed.map (·.routeID)} ∪ rec.unended,rec.givenUp⟩ := by
  obtain ⟨hk,hcl,hjo⟩ := claimAutomatedMatching_claimed h.unique he
  rw [hjo]
  refine h.update (fun _ => rfl) (fun r hr => ?_) (fun row hrow hn => ?_) fun row hrow hp => ?_
  · rcases hr with hr | hr | hr
    · exact h.known r (.inl hr)
    · obtain ⟨job,hj,rfl⟩ := mem_map.mp hr
      obtain ⟨row,hrow,hid,-⟩ := hk job hj
      exact ⟨row,hrow,hid⟩
    · exact h.known r (.inr hr)
  · exact (h.rows row hrow).congr id (fun hr => hr.1) (or_iff_right hn) Iff.rfl
  · have hd : row.routeID ∉ rec.givenUp := by
      rw [← (h.rows row hrow).dead]
      rcases (hcl row hrow hp).1 with hst | hst <;> simp [hst]
    exact ⟨iff_of_true rfl (.inl hp),iff_of_false (by simp [leasedTo]) hd,by simp [leasedTo],
      fun hr => absurd hp hr.2⟩

/-- A job that ends has served its route, unless a request came while it ran. -/
theorem tended_finish {status : JobStatus} (hst : status = .pending ∨ status = .completed)
    (he : finishAutomatedMatchingJob db worker job status next clock = .ok db')
    (h : Tended db.jobs rec) :
    Tended db'.jobs ⟨{r | r ∈ rec.wanted ∧ (r ≠ job.routeID ∨ r ∈ rec.late)},rec.late,
      rec.unended \ {job.routeID},rec.givenUp⟩ := by
  simp only [finishAutomatedMatchingJob,do_ok] at he
  obtain ⟨rows,hro,rfl⟩ := he
  refine h.ended hro (fun row hp => hp.1) (fun _ => rfl) (fun r hr => hr.1) Set.sdiff_subset
    (fun row hne ha => ha.congr (fun hr => hr.1) id (by simp [hne]) Iff.rfl) fun row hp ha => ?_
  have hd : row.routeID ∉ rec.givenUp := by
    rw [← ha.dead,hp.2.1]
    simp
  have hs : (finishJob status next row).status = .pending ∨
      ((finishJob status next row).status = .completed ∧ row.rescheduleRequested = false) := by
    rcases hst with rfl | rfl <;> cases hre : row.rescheduleRequested <;> simp [finishJob,hre]
  have hl : (finishJob status next row).status ≠ .leased := by
    rcases hs with hs | ⟨hs,-⟩ <;> simp [hs]
  have hn : (finishJob status next row).status ≠ .deadLetter := by
    rcases hs with hs | ⟨hs,-⟩ <;> simp [hs]
  refine ⟨iff_of_false hl fun hr => hr.2 hp.1,iff_of_false hn hd,fun hr hco => ?_,
    fun _ hst => absurd hst hl⟩
  have hfl := ha.flagged (hr.2.resolve_left (not_not.mpr hp.1)) hp.2.1
  simp [hco,hfl] at hs

lemma tended_retry {dead : Bool}
    (he : retryAutomatedMatching db worker job next dead clock = .ok db')
    (h : Tended db.jobs rec) :
    Tended db'.jobs ⟨rec.wanted,rec.late,rec.unended \ {job.routeID},
      if dead then insert job.routeID rec.givenUp else rec.givenUp⟩ := by
  simp only [retryAutomatedMatching,do_ok] at he
  obtain ⟨rows,hro,rfl⟩ := he
  refine h.ended hro (fun row hp => hp.1) (fun _ => rfl) subset_rfl Set.sdiff_subset
    (fun row hne ha => ha.congr id id (by simp [hne]) ?_) fun row hp ha => ?_
  · cases dead <;> simp [hne]
  · have hd : row.routeID ∉ rec.givenUp := by
      rw [← ha.dead,hp.2.1]
      simp
    cases dead <;> constructor <;> simp [hp.1,hp.1 ▸ hd]

lemma applied_jobs {r : AutomatedMatchingRoute} {aggregateID : String}
    {d : AutomatedMatchDecision} (h : Applied ext db r aggregateID d ids db') :
    db'.jobs = db.jobs := by
  cases h <;> rfl

lemma finishAs_status (r : AutomatedMatchingRoute) (d : AutomatedMatchDecision) (now : ℤ) :
    (finishAs r d now).1 = .pending ∨ (finishAs r d now).1 = .completed := by
  unfold finishAs
  split <;> simp

lemma tended_reconcile (he : reconcileAutomatedMatching ext db worker job now clock ids = .ok db')
    (h : Tended db.jobs rec) :
    Tended db'.jobs ⟨{r | r ∈ rec.wanted ∧ (r ≠ job.routeID ∨ r ∈ rec.late)},rec.late,
      rec.unended \ {job.routeID},rec.givenUp⟩ := by
  obtain ⟨r,d,aggregateID,aggregates,d',jobs,-,-,-,hap,hf,rfl⟩ :=
    reconcileAutomatedMatching_effect he
  refine tended_finish (finishAs_status r d now) hf ?_
  rw [applied_jobs hap]
  exact h

end

def Watched.record (w : Watched) : Record :=
  ⟨{r | r ∈ w.wanted},{r | r ∈ w.late},{r | r ∈ w.unended},{r | r ∈ w.givenUp}⟩

/-- One transaction keeps the jobs in agreement with the record of the requests. -/
lemma Tended.step {w w' : Watched} {a : JobAction} (h : Tended w.db.jobs w.record)
    (he : execJob ext w a = .ok w') : Tended w'.db.jobs w'.record := by
  cases a with
  | elapse duration | others db =>
    cases he
    exact h
  | enqueue tenantID candidates now =>
    cases he
    refine (tended_requests tenantID now _ h).congr ?_ ?_ (fun _ => Iff.rfl) fun r => ?_
    · exact fun r hr => mem_append.mp hr
    · exact fun r hr => mem_append.mp hr
    · simp [Watched.record,Record.requested,requestedRoutes]
  | claim worker now lease limit token =>
    obtain ⟨⟨d,claimed⟩,hd,rfl⟩ := map_eq_ok.mp he
    refine (tended_claim hd h).congr subset_rfl (fun r hr => ?_) (fun r => ?_) fun _ => Iff.rfl
    · obtain ⟨hl,ho⟩ := mem_filter.mp hr
      exact ⟨hl,of_decide_eq_true ho⟩
    · exact mem_append
  | reconcile worker job now ids =>
    obtain ⟨d,hd,rfl⟩ := map_eq_ok.mp he
    refine (tended_reconcile hd h).congr (fun r hr => ?_) subset_rfl (fun r => ?_) fun _ => Iff.rfl
    · obtain ⟨hwa,hl⟩ := mem_filter.mp hr
      exact ⟨hwa,by simpa [Watched.record] using hl⟩
    · simp [Watched.record]
  | retry worker job next dead =>
    obtain ⟨d,hd,rfl⟩ := map_eq_ok.mp he
    refine (tended_retry hd h).congr subset_rfl subset_rfl (fun r => ?_) fun r => ?_
    · simp [Watched.record]
    · cases dead <;> simp [Watched.record]

/-- Nothing has been requested yet, and the record of claims agrees with the rows. -/
structure Idle (w : Watched) : Prop where
  wanted : w.wanted = []
  late : w.late = []
  unique : (w.db.jobs.map (·.routeID)).Nodup
  claimed : ∀ routeID ∈ w.unended, ∃ job ∈ w.db.jobs, job.routeID = routeID
  leased : ∀ job ∈ w.db.jobs, job.status = .leased ↔ job.routeID ∈ w.unended
  dead : ∀ job ∈ w.db.jobs, job.status = .deadLetter ↔ job.routeID ∈ w.givenUp

lemma Idle.tended {w : Watched} (h : Idle w) : Tended w.db.jobs w.record := by
  refine ⟨h.unique,fun r hr => ?_,fun job hj => ⟨h.leased job hj,h.dead job hj,?_,?_⟩⟩
  · rcases hr with hr | hr
    · simp [Watched.record,h.wanted] at hr
    · exact h.claimed r hr
  · simp [Watched.record,h.wanted]
  · simp [Watched.record,h.late]

/-- In every state of a run, a route that was requested after its last completed evaluation was
claimed has a row that can be claimed whenever the time it waits for has passed, exactly if its last
claim was ended by the worker and the route was not given up after the request. -/
theorem requested_route_wakes_iff (ext : Externals) (w : Watched) (as : List JobAction)
    (hidle : Idle w) : ∀ routeID ∈ (run (execJob ext) w as).wanted,
      (∃ job ∈ (run (execJob ext) w as).db.jobs, job.routeID = routeID ∧ Wakes job) ↔
        routeID ∉ (run (execJob ext) w as).unended ∧
          routeID ∉ (run (execJob ext) w as).givenUp := by
  have hen : Tended (run (execJob ext) w as).db.jobs (run (execJob ext) w as).record :=
    run_keeps (P := fun w : Watched => Tended w.db.jobs w.record) (fun _ _ _ h he => h.step he)
      hidle.tended
  exact fun routeID hro => hen.wakes_iff hro

def sampleRequest : JobAction :=
  .enqueue "tenant" [⟨"route","intent",.underpaid,90,some (-3),[]⟩] 60

def sampleWatched : Watched := { db := sampleBound.db, clock := 60 }

/-- A request while the row is leased is served after the retry of the first one. -/
theorem requested_route_wakes_sample :
    ∃ job ∈ (run (execJob sampleExternals) sampleWatched [sampleRequest,
        .claim "matcher" 60 minute 10 (fun _ => "lease"),sampleRequest,
        .retry "matcher" ⟨"route","lease",1⟩ 61 false]).db.jobs,
      job.routeID = "route" ∧ Wakes job :=
  (requested_route_wakes_iff sampleExternals sampleWatched [sampleRequest,
      .claim "matcher" 60 minute 10 (fun _ => "lease"),sampleRequest,
      .retry "matcher" ⟨"route","lease",1⟩ 61 false]
    ⟨rfl,rfl,by decide,by decide,by decide,by decide⟩ "route" (by decide +kernel)).mpr
    (by decide +kernel)

/-- The worker crashes after its claim: a minute later its lease has run out, and the requested route
has no row that could ever be claimed. -/
theorem requested_route_lost :
    let w := run (execJob sampleExternals) sampleWatched [sampleRequest,
      .claim "matcher" 60 minute 10 (fun _ => "lease"),.elapse 60000000000]
    "route" ∈ w.wanted ∧ (∀ job ∈ w.db.jobs, ∀ t ∈ wakesAt job, t ≤ w.clock) ∧
      ¬∃ job ∈ w.db.jobs, job.routeID = "route" ∧ Wakes job := by
  decide +kernel

end Ocrypt.MatchingWakeups
