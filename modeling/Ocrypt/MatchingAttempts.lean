import Ocrypt.MatchingWakeups

/-! The attempts of automated matching. A row counts its claims and is never reset, and a failure
at the limit of that count gives the row up, although the evaluations before it may have
succeeded. -/
namespace Ocrypt.MatchingAttempts
open Domain Fallible Table Store Candidates MatchingJobs MatchingStore MatchingEffects
  MatchingWakeups Reorg Transactions Workers List

/-- The shared database and the clock, with the claims that workers hold and what came of them. -/
structure Tried where
  db : Database
  clock : ℤ := 0
  claimed : List AutomatedMatchingJob := []
  /-- The routes of the attempts that are over, newest first, and whether they succeeded. -/
  history : List (String × Bool) := []

inductive AttemptAction
  | elapse (duration : ℕ)
  /-- Transactions of other workers, which may change any table but the jobs. -/
  | others (db : Database)
  | enqueue (tenantID : String) (candidates : List Candidate) (now : ℤ)
  /-- A reorg reverses an aggregate and has its route evaluated again. -/
  | reopen (routeID tenantID merchantID : String) (now : ℤ)
  | claim (worker : String) (now lease : ℤ) (limit : ℕ) (token : String → String)
  | reconcile (worker : String) (job : AutomatedMatchingJob) (now : ℤ) (ids : ReconcileIDs)
  /-- The evaluation of a claimed job returned an error. -/
  | fail (worker : String) (job : AutomatedMatchingJob) (now : ℤ)

def maxAttempts (configured : ℤ) : ℕ := if configured < 1 then 20 else configured.toNat

def nextAfter (now : ℤ) (job : AutomatedMatchingJob) : ℤ :=
  now+job.attempt*job.attempt*1000000000

def execAttempt (ext : Externals) (configured : ℤ) (w : Tried) :
    AttemptAction → Except Failure Tried
  | .elapse duration => .ok { w with clock := w.clock+duration }
  | .others db => .ok { w with db := { db with jobs := w.db.jobs } }
  | .enqueue tenantID candidates now =>
    .ok { w with db := enqueueAutomatedMatchingCandidates w.db tenantID candidates now }
  | .reopen routeID tenantID merchantID now =>
    .ok { w with db := { w.db with
      jobs := upsertJob w.db.jobs (newJob routeID tenantID merchantID now) (reopenJob · now) } }
  | .claim worker now lease limit token =>
    (claimAutomatedMatching w.db worker now lease limit token).map fun r =>
      { w with db := r.1, claimed := r.2 ++ w.claimed }
  | .reconcile worker job now ids => do
    require (job ∈ w.claimed) ⟨.notFound,""⟩
    let db ← reconcileAutomatedMatching ext w.db worker job now w.clock ids
    pure { w with db, history := (job.routeID,true)::w.history }
  | .fail worker job now => do
    require (job ∈ w.claimed) ⟨.notFound,""⟩
    let db ← retryAutomatedMatching w.db worker job (nextAfter now job)
      (maxAttempts configured ≤ job.attempt) w.clock
    pure { w with db, history := (job.routeID,false)::w.history }

def attempts (routeID : String) (history : List (String × Bool)) : ℕ :=
  history.countP (·.1 = routeID)

def streak (routeID : String) : List (String × Bool) → ℕ
  | [] => 0
  | (route,succeeded)::rest =>
    if route ≠ routeID then streak routeID rest
    else if succeeded then 0 else streak routeID rest+1

def NeverServed (configured : ℤ) (w : Tried) : AttemptAction → Prop
  | .fail _ job _ => maxAttempts configured ≤ job.attempt → (job.routeID,true) ∉ w.history
  | _ => True

instance (configured : ℤ) (w : Tried) : ∀ a, Decidable (NeverServed configured w a)
  | .fail .. => inferInstanceAs (Decidable (_ → _))
  | .elapse _ | .others _ | .enqueue .. | .reopen .. | .claim .. | .reconcile .. => .isTrue trivial

/-- The row counts the attempts that are over and the one that runs, and it was given up only after
the limit of failures. -/
structure Fair (max : ℕ) (history : List (String × Bool)) (row : MatchingJob) : Prop where
  counts : row.attemptCount ≤ attempts row.routeID history+if row.status = .leased then 1 else 0
  earned : row.status = .deadLetter → max ≤ streak row.routeID history

structure Accounted (max : ℕ) (jobs : List MatchingJob) (claimed : List AutomatedMatchingJob)
    (history : List (String × Bool)) : Prop where
  unique : (jobs.map (·.routeID)).Nodup
  fair : ∀ row ∈ jobs, Fair max history row
  handed : ∀ job ∈ claimed, ∃ row ∈ jobs, row.routeID = job.routeID ∧
    job.attempt ≤ row.attemptCount

variable {max : ℕ} {history : List (String × Bool)} {db : Database}

section
variable {jobs : List MatchingJob} {claimed : List AutomatedMatchingJob} {p : MatchingJob → Prop}
  [DecidablePred p] {f : MatchingJob → MatchingJob} {worker : String}

lemma Accounted.update {history' : List (String × Bool)} (h : Accounted max jobs claimed history)
    (hr : ∀ row, (f row).routeID = row.routeID)
    (hg : ∀ row, row.attemptCount ≤ (f row).attemptCount)
    (hk : ∀ row ∈ jobs, ¬p row → Fair max history row → Fair max history' row)
    (hn : ∀ row ∈ jobs, p row → Fair max history row → Fair max history' (f row)) :
    Accounted max (update p f jobs) claimed history' := by
  refine ⟨?_,?_,?_⟩
  · rw [map_update fun row _ _ => hr row]
    exact h.unique
  · exact forall_mem_update (fun row hro hp => hk row hro hp (h.fair row hro))
      fun row hro hp => hn row hro hp (h.fair row hro)
  · intro job hj
    obtain ⟨row,hro,hid,hat⟩ := h.handed job hj
    exact exists_mem_update hro (fun _ => ⟨(hr row).trans hid,hat.trans (hg row)⟩) fun _ => ⟨hid,hat⟩

lemma Accounted.request {job : MatchingJob} (h : Accounted max jobs claimed history)
    (hcu : job.attemptCount = 0) (hst : job.status = .pending)
    (hf : ∀ row, (f row).routeID = row.routeID ∧ (f row).attemptCount = row.attemptCount ∧
      (f row).status = if row.status = .leased then .leased else .pending) :
    Accounted max (upsertJob jobs job f) claimed history := by
  unfold upsertJob
  split_ifs with he
  · apply h.update (fun row => (hf row).1) (fun row => (hf row).2.1.ge) (fun _ _ _ => id)
    intro row _ _ hfa
    obtain ⟨hr,hsame,hn⟩ := hf row
    have hco := hfa.counts
    refine ⟨?_,fun hd => ?_⟩
    · rw [hr,hsame,hn]
      by_cases hl : row.status = .leased <;> simpa [hl] using hco
    · rw [hn] at hd
      split_ifs at hd
  · push Not at he
    refine ⟨nodup_map_append h.unique he,?_,?_⟩
    · exact forall_snoc h.fair ⟨by simp [hcu],by simp [hst]⟩
    · intro claim hcl
      obtain ⟨row,hro,hat⟩ := h.handed claim hcl
      exact ⟨row,mem_append_left _ hro,hat⟩

lemma accounted_claim {db' : Database} {now lease : ℤ} {limit : ℕ}
    {token : String → String} {handed : List AutomatedMatchingJob}
    (he : claimAutomatedMatching db worker now lease limit token = .ok (db',handed))
    (h : Accounted max db.jobs claimed history) :
    Accounted max db'.jobs (handed ++ claimed) history := by
  obtain ⟨hha,hca,hjo⟩ := claimAutomatedMatching_claimed h.unique he
  rw [hjo]
  have hcl : Accounted max (update _ (leasedTo worker (now+wholeMilliseconds lease) token) db.jobs)
      claimed history := h.update (fun _ => rfl) (fun _ => Nat.le_succ _) (fun _ _ _ => id)
    fun row hro hm hfa => by
      have hl : row.status ≠ .leased := by rcases (hca row hro hm).1 with hst | hst <;> simp [hst]
      have hco := hfa.counts
      rw [if_neg hl] at hco
      exact ⟨by simpa [leasedTo] using hco,by simp [leasedTo]⟩
  refine ⟨hcl.unique,hcl.fair,fun job hj => ?_⟩
  rcases mem_append.mp hj with hj | hj
  · obtain ⟨row,hro,hid,hat⟩ := hha job hj
    exact ⟨_,mem_update_self hro (hid ▸ mem_map_of_mem hj),hid,hat.le⟩
  · exact hcl.handed job hj

lemma Fair.cons {row : MatchingJob} {routeID : String} {succeeded : Bool}
    (h : Fair max history row) (ho : routeID ≠ row.routeID) :
    Fair max ((routeID,succeeded)::history) row := by
  obtain ⟨hco,he⟩ := h
  exact ⟨by simpa [attempts,ho] using hco,by simpa [streak,ho] using he⟩

lemma accounted_end {jobs' : List MatchingJob} {job : AutomatedMatchingJob}
    {clock : ℤ} {failure : Failure} {succeeded : Bool} (h : Accounted max jobs claimed history)
    (hee : updateOne (HoldsLease worker job clock) f failure jobs = .ok jobs')
    (hf : ∀ row, (f row).routeID = row.routeID ∧ (f row).attemptCount = row.attemptCount)
    (he : ∀ row ∈ jobs, HoldsLease worker job clock row → Fair max history row →
      (f row).status = .deadLetter → max ≤ streak job.routeID ((job.routeID,succeeded)::history)) :
    Accounted max jobs' claimed ((job.routeID,succeeded)::history) := by
  obtain ⟨-,rfl⟩ := updateOne_eq_ok.mp hee
  apply h.update (fun row => (hf row).1) (fun row => (hf row).2.ge)
  · intro row hro hp hfa
    exact hfa.cons (route_ne_of_updateOne h.unique hee (fun _ hp => hp.1) hro hp).symm
  · intro row hro hp hfa
    have hco := hfa.counts
    rw [if_pos hp.2.1] at hco
    refine ⟨?_,fun hd => ?_⟩
    · rw [(hf row).1,(hf row).2,attempts,countP_cons,if_pos (by simp [hp.1])]
      unfold attempts at hco
      omega
    · rw [(hf row).1,hp.1]
      exact he row hro hp hfa hd

end

lemma accounted_requests {claimed : List AutomatedMatchingJob} (tenantID : String) (now : ℤ)
    (routeIDs : List String) (h : Accounted max db.jobs claimed history) :
    Accounted max (routeIDs.foldl (fun db r => requestRoute db tenantID r now) db).jobs claimed
      history := by
  induction routeIDs generalizing db with
  | nil => exact h
  | cons routeID rest ih =>
    rw [foldl_cons]
    apply ih
    rcases requestRoute_cases db tenantID routeID now with ⟨-,heq⟩ | ⟨job,-,-,hst,hcu,heq⟩ <;> rw [heq]
    · exact h
    · refine h.request hcu hst fun row => ?_
      unfold requestJob
      split_ifs with hl <;> simp [hl]

lemma streak_of_unserved {routeID : String}
    (h : (routeID,true) ∉ history) : streak routeID history = attempts routeID history := by
  induction history with
  | nil => rfl
  | cons attempt rest ih =>
    obtain ⟨route,succeeded⟩ := attempt
    simp only [mem_cons,Prod.mk.injEq,not_or,not_and] at h
    have hre := ih h.2
    unfold attempts at hre ⊢
    rw [countP_cons,← hre,streak]
    by_cases hr : route = routeID
    · have hf : succeeded = false := by
        cases succeeded
        · rfl
        · exact absurd rfl (h.1 hr.symm)
      simp [hr,hf]
    · simp [hr]

/-- One transaction keeps the attempt counts fair. -/
lemma Accounted.step {ext : Externals} {configured : ℤ} {w w' : Tried} {a : AttemptAction}
    (h : Accounted (maxAttempts configured) w.db.jobs w.claimed w.history)
    (hn : NeverServed configured w a) (he : execAttempt ext configured w a = .ok w') :
    Accounted (maxAttempts configured) w'.db.jobs w'.claimed w'.history := by
  cases a with
  | elapse duration | others db =>
    cases he
    exact h
  | enqueue tenantID candidates now =>
    cases he
    exact accounted_requests tenantID now _ h
  | reopen routeID tenantID merchantID now =>
    cases he
    exact h.request rfl rfl fun row => ⟨rfl,rfl,rfl⟩
  | claim worker now lease limit token =>
    obtain ⟨⟨d,handed⟩,hd,rfl⟩ := map_eq_ok.mp he
    exact accounted_claim hd h
  | reconcile worker job now ids =>
    simp only [execAttempt,do_ok] at he
    obtain ⟨-,db',hd,rfl⟩ := he
    obtain ⟨r,d,aggregateID,aggregates,d',jobs,-,-,-,hap,hf,rfl⟩ :=
      reconcileAutomatedMatching_effect hd
    simp only [finishAutomatedMatchingJob,do_ok] at hf
    obtain ⟨rows,hro,hj⟩ := hf
    rw [applied_jobs hap] at hro
    rw [← hj]
    apply accounted_end h hro (fun _ => ⟨rfl,rfl⟩)
    -- an evaluation that succeeds never gives a row up
    intro row _ _ _ hde
    have hst : (finishAs r d now).1 ≠ .deadLetter := by
      unfold finishAs
      split <;> simp
    simp only [finishJob] at hde
    split_ifs at hde
    exact absurd hde hst
  | fail worker job now =>
    simp only [execAttempt,do_ok,retryAutomatedMatching] at he
    obtain ⟨hjo,db',⟨rows,hro,rfl⟩,rfl⟩ := he
    apply accounted_end h hro (fun _ => ⟨rfl,rfl⟩)
    intro row hrw hho hfa hde
    have hl : maxAttempts configured ≤ job.attempt := by
      by_contra hfe
      simp [hfe] at hde
    obtain ⟨other,ho,hid,hat⟩ := h.handed job hjo
    rw [inj_on_of_nodup_map h.unique ho hrw (hid.trans hho.1.symm)] at hat
    have hco := hfa.counts
    rw [if_pos hho.2.1,hho.1] at hco
    rw [streak,if_neg (by simp),if_neg (by simp),streak_of_unserved (hn hl)]
    omega

/-- In every run that gives up no route that was evaluated successfully before, a route is given up
after the limit of failures in a row. -/
theorem given_up_after_failures (ext : Externals) (configured : ℤ) (w : Tried)
    (as : List AttemptAction) (hjobs : w.db.jobs = []) (hclaimed : w.claimed = [])
    (hrun : Along (execAttempt ext configured) (NeverServed configured) w as) :
    ∀ row ∈ (run (execAttempt ext configured) w as).db.jobs, row.status = .deadLetter →
      maxAttempts configured ≤
        streak row.routeID (run (execAttempt ext configured) w as).history := by
  have hst : Accounted (maxAttempts configured) w.db.jobs w.claimed w.history := by
    rw [hjobs,hclaimed]
    exact ⟨nodup_nil,by simp,by simp⟩
  have hen := run_invariant (P := fun w : Tried =>
    Accounted (maxAttempts configured) w.db.jobs w.claimed w.history)
    (fun _ _ _ h hn he => h.step hn he) hst hrun
  exact fun row hr => (hen.fair row hr).earned

def sampleAttempt (now : ℤ) (token : String) : List AttemptAction :=
  [.enqueue "tenant" [⟨"route","intent",.underpaid,90,some (-3),[]⟩] now,
    .claim "matcher" now minute 10 (fun _ => token)]

def sampleFailures : List AttemptAction :=
  sampleAttempt 60 "first" ++ [.fail "matcher" ⟨"route","first",1⟩ 60] ++
    sampleAttempt 1000000060 "second" ++ [.fail "matcher" ⟨"route","second",2⟩ 1000000060]

theorem given_up_after_failures_sample :
    let w := run (execAttempt sampleExternals 2) ⟨sampleBound.db,60,[],[]⟩ sampleFailures
    (∃ row ∈ w.db.jobs, row.status = .deadLetter) ∧
      ∀ row ∈ w.db.jobs, row.status = .deadLetter → maxAttempts 2 ≤ streak row.routeID w.history :=
  ⟨by decide +kernel,given_up_after_failures sampleExternals 2 ⟨sampleBound.db,60,[],[]⟩
    sampleFailures rfl rfl (by decide +kernel)⟩

/-- Under a limit of two attempts a success and one failure give the sample route up. -/
theorem given_up_after_success :
    let w := run (execAttempt sampleExternals 2) ⟨sampleBound.db,60,[],[]⟩
      (sampleAttempt 60 "first" ++
        [.reconcile "matcher" ⟨"route","first",1⟩ 60 (sampleReconcileIDs "1")] ++
        sampleAttempt 61 "second" ++ [.fail "matcher" ⟨"route","second",2⟩ 61])
    ∃ row ∈ w.db.jobs, row.status = .deadLetter ∧ streak row.routeID w.history < maxAttempts 2 ∧
      w.history = [("route",false),("route",true)] := by
  decide +kernel

end Ocrypt.MatchingAttempts
