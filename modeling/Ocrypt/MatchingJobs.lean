import Ocrypt.Candidates

/-! The job row that drives the automated matching of a route: it is requested, leased by a
worker, and finished, retried or given up under the lease. A request that arrives while the row
is leased is remembered in its reschedule flag. -/
namespace Ocrypt.MatchingJobs
open Domain Fallible Table Store Candidates

/-- `ON CONFLICT (route_id)` of a request: a leased row is only flagged. -/
def requestJob (job : MatchingJob) (now : ℤ) : MatchingJob :=
  if job.status = .leased then { job with rescheduleRequested := true }
  else { job with status := .pending, nextAttemptAt := min job.nextAttemptAt now }

def newJob (routeID tenantID merchantID : String) (now : ℤ) : MatchingJob where
  routeID := routeID
  tenantID := tenantID
  merchantID := merchantID
  status := .pending
  nextAttemptAt := now
  attemptCount := 0
  lockedBy := none
  lockedUntil := none
  leaseToken := none
  rescheduleRequested := false

def upsertJob (jobs : List MatchingJob) (job : MatchingJob) (onConflict : MatchingJob → MatchingJob) :
    List MatchingJob :=
  if ∃ j ∈ jobs, j.routeID = job.routeID then update (·.routeID = job.routeID) onConflict jobs
  else jobs ++ [job]

def enqueueable (c : Candidate) : Bool :=
  c.exceptionClass ≠ .wrongAsset && c.exceptionClass ≠ .ambiguous && c.exceptionClass ≠ .unmatched

variable (db : Database) (workerID : String)

def requestRoute (tenantID routeID : String) (now : ℤ) : Database :=
  match db.routes.find? fun r => r.id = routeID ∧ r.tenantID = tenantID with
  | none => db
  | some r =>
    let job := newJob r.id r.tenantID r.merchantID now
    if ∃ b ∈ db.bindings, b.routeID = r.id ∧ b.tenantID = r.tenantID then
      { db with jobs := upsertJob db.jobs job (requestJob · now) }
    else db

def enqueueAutomatedMatchingCandidates (tenantID : String) (candidates : List Candidate) (now : ℤ) : Database :=
  let routeIDs := ((candidates.filter enqueueable).map (·.routeID)).eraseDups
  routeIDs.foldl (fun db routeID => requestRoute db tenantID routeID now) db

/-- A row that ClaimAutomatedMatching may lease at `now`. -/
abbrev Claimable (now : ℤ) (job : MatchingJob) : Prop :=
  (job.status = .pending ∨ job.status = .retry) ∧ job.nextAttemptAt ≤ now

structure AutomatedMatchingJob where
  (routeID leaseToken : String)
  attempt : ℕ
  deriving DecidableEq, Repr

def claimableJobs (jobs : List MatchingJob) (now : ℤ) : List MatchingJob :=
  (jobs.filter (Claimable now)).insertionSort fun a b =>
    a.nextAttemptAt < b.nextAttemptAt ∨ (a.nextAttemptAt = b.nextAttemptAt ∧ a.routeID ≤ b.routeID)

/-- A duration in whole milliseconds, as `lease.Milliseconds()` passes it. -/
def wholeMilliseconds (duration : ℤ) : ℤ := duration / 1000000*1000000

/-- Lease up to `limit` claimable rows; `token` is the UUID drawn for each route. -/
def claimAutomatedMatching (now lease : ℤ) (limit : ℕ) (token : String → String) :
    Except Failure (Database × List AutomatedMatchingJob) := do
  require (workerID ≠ "" ∧ 0 < lease ∧ 1 ≤ limit ∧ limit ≤ 500) ⟨.validation,""⟩
  let claim := ((claimableJobs db.jobs now).take limit).map (·.routeID)
  let jobs := update (·.routeID ∈ claim) (fun j => { j with
    status := .leased
    lockedBy := some workerID
    lockedUntil := some (now+wholeMilliseconds lease)
    leaseToken := some (token j.routeID)
    attemptCount := j.attemptCount+1 }) db.jobs
  let claimed := (jobs.filter (·.routeID ∈ claim)).map fun j =>
    ⟨j.routeID,token j.routeID,j.attemptCount⟩
  pure ({ db with jobs },claimed)

variable (job : AutomatedMatchingJob)

/-- The worker still holds the row under this token, and the lease has not run out. -/
abbrev HoldsLease (clock : ℤ) (row : MatchingJob) : Prop :=
  row.routeID = job.routeID ∧ row.status = .leased ∧ row.lockedBy = some workerID ∧
    row.leaseToken = some job.leaseToken ∧ ∃ u ∈ row.lockedUntil, clock < u

def retryAutomatedMatching (next : ℤ) (dead : Bool) (clock : ℤ) : Except Failure Database := do
  let jobs ← updateOne (HoldsLease workerID job clock) (fun j => { j with
    status := if dead then .deadLetter else .retry
    nextAttemptAt := next
    lockedBy := none
    lockedUntil := none
    leaseToken := none }) (versionConflict "") db.jobs
  pure { db with jobs }

/-- The row after a completed evaluation: a request that came meanwhile keeps it pending. -/
def finishJob (status : JobStatus) (next : ℤ) (job : MatchingJob) : MatchingJob :=
  { job with
    status := if job.rescheduleRequested && status = .completed then .pending else status
    nextAttemptAt := if job.rescheduleRequested then min job.nextAttemptAt next else next
    lockedBy := none
    lockedUntil := none
    leaseToken := none
    rescheduleRequested := false }

def finishAutomatedMatchingJob (status : JobStatus) (next clock : ℤ) : Except Failure Database := do
  let jobs ← updateOne (HoldsLease workerID job clock) (finishJob status next)
    (versionConflict "") db.jobs
  pure { db with jobs }

lemma requestRoute_frame (tenantID routeID : String) (now : ℤ) :
    ∃ jobs, requestRoute db tenantID routeID now = { db with jobs := jobs } := by
  unfold requestRoute
  split
  · exact ⟨_,rfl⟩
  · split
    · exact ⟨_,rfl⟩
    · exact ⟨_,rfl⟩

lemma enqueueAutomatedMatchingCandidates_frame (tenantID : String) (candidates : List Candidate)
    (now : ℤ) : ∃ jobs, enqueueAutomatedMatchingCandidates db tenantID candidates now =
      { db with jobs := jobs } := by
  unfold enqueueAutomatedMatchingCandidates
  -- Each route of the list writes the jobs of the database that the routes before it left.
  induction ((candidates.filter enqueueable).map (·.routeID)).eraseDups generalizing db with
  | nil => exact ⟨_,rfl⟩
  | cons routeID rest ih =>
    obtain ⟨jobs,hj⟩ := requestRoute_frame db tenantID routeID now
    simp only [List.foldl_cons,hj]
    exact ih _

lemma claimAutomatedMatching_frame {db : Database} {worker : String} {now lease : ℤ} {limit : ℕ}
    {token : String → String} {r : Database × List AutomatedMatchingJob}
    (h : claimAutomatedMatching db worker now lease limit token = .ok r) :
    ∃ jobs, r.1 = { db with jobs := jobs } := by
  simp only [claimAutomatedMatching,do_ok] at h
  obtain ⟨-,-,rfl⟩ := h
  exact ⟨_,rfl⟩

lemma retryAutomatedMatching_frame {db db' : Database} {worker : String}
    {job : AutomatedMatchingJob} {next clock : ℤ} {dead : Bool}
    (h : retryAutomatedMatching db worker job next dead clock = .ok db') :
    ∃ jobs, db' = { db with jobs := jobs } := by
  simp only [retryAutomatedMatching,do_ok] at h
  obtain ⟨jobs,-,rfl⟩ := h
  exact ⟨jobs,rfl⟩

end Ocrypt.MatchingJobs
