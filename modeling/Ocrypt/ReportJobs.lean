import Ocrypt.Domain
import Ocrypt.Table
import Ocrypt.Transactions

/-! The jobs of reconciliation reports. A worker claims a report under a lease, renews the lease
while it generates the report, and ends the job as completed or failed. -/
namespace Ocrypt.ReportJobs
open Domain Fallible Table Transactions List

inductive ReportStatus
  | queued
  | processing
  | retry
  | ready
  | deadLetter
  deriving DecidableEq, Repr

/-- A row of reconciliation_reports, without the columns of the report itself. -/
structure Report where
  (id tenantID merchantID : String)
  status : ReportStatus
  attemptCount : ℕ
  nextAttemptAt : ℤ
  lockedBy : Option String
  lockedUntil : Option ℤ
  leaseToken : Option String
  deriving DecidableEq, Repr

structure Claim where
  (id tenantID merchantID : String)
  attemptCount : ℕ
  leaseToken : String
  deriving DecidableEq, Repr

structure Worker where
  workerID : String
  lease : ℤ
  maxAttempts : ℕ
  (baseBackoff maxBackoff : ℤ)
  deriving DecidableEq, Repr

variable (w : Worker) (c : Claim) (clock : ℤ) (r : Report)

abbrev Claimable : Prop :=
  (r.status = .queued ∨ r.status = .retry) ∧ r.nextAttemptAt ≤ clock ∧
    ∀ u ∈ r.lockedUntil, u < clock

variable (reports : List Report)

def candidate (clock : ℤ) : Option Report :=
  ((reports.filter (Claimable clock)).insertionSort fun a b => a.nextAttemptAt < b.nextAttemptAt ∨
    (a.nextAttemptAt = b.nextAttemptAt ∧ a.id ≤ b.id)).head?

def claimed (token : String) (r : Report) : Report :=
  { r with
    status := .processing
    attemptCount := r.attemptCount+1
    lockedBy := some w.workerID
    lockedUntil := some (clock+w.lease)
    leaseToken := some token }

abbrev HoldsClaim : Prop :=
  r.id = c.id ∧ r.tenantID = c.tenantID ∧ r.merchantID = c.merchantID ∧ r.status = .processing ∧
    r.leaseToken = some c.leaseToken ∧ r.lockedBy = some w.workerID

abbrev HoldsLease : Prop :=
  HoldsClaim w c r ∧ ∃ u ∈ r.lockedUntil, clock ≤ u

def lostLease : Failure := ⟨.unwrapped,"reconciliation worker lost its fenced lease"⟩

def renewed (deadline : ℤ) (r : Report) : Report := { r with lockedUntil := some deadline }

/-- One tick of `keepLease`. -/
def renew (c : Claim) (clock : ℤ) : Except Failure (List Report) :=
  updateOne (HoldsLease w c clock) (renewed (clock+w.lease)) lostLease reports

def released (status : ReportStatus) (r : Report) : Report :=
  { r with status, lockedBy := none, lockedUntil := none, leaseToken := none }

def complete (c : Claim) (clock : ℤ) : Except Failure (List Report) :=
  updateOne (HoldsLease w c clock) (released .ready) lostLease reports

def backoff : ℤ :=
  min (w.baseBackoff*2^min (c.attemptCount - 1) 16) w.maxBackoff

def fail (c : Claim) (permanent : Bool) (clock : ℤ) : Except Failure (List Report) :=
  let status : ReportStatus :=
    if permanent ∨ w.maxAttempts ≤ c.attemptCount then .deadLetter else .retry
  updateOne (HoldsClaim w c) (fun r =>
    { released status r with nextAttemptAt := clock+backoff w c }) lostLease reports

/-- The table, the clock, and the reports whose last claim was not ended by its worker. -/
structure World where
  reports : List Report := []
  clock : ℤ := 0
  unended : List String := []

inductive Action
  | elapse (duration : ℕ)
  | request (id tenantID merchantID : String)
  | claim (w : Worker) (token : String)
  | renew (w : Worker) (c : Claim)
  | complete (w : Worker) (c : Claim)
  | fail (w : Worker) (c : Claim) (permanent : Bool)

def exec (s : World) : Action → Except Failure World
  | .elapse duration => .ok { s with clock := s.clock+duration }
  | .request id tenantID merchantID => do
    let reports ← insertUnique (·.id = id)
      ⟨id,tenantID,merchantID,.queued,0,s.clock,none,none,none⟩ ⟨.database,""⟩ s.reports
    pure { s with reports }
  | .claim w token =>
    match candidate s.reports s.clock with
    | none => .ok s
    | some r => .ok { s with
        reports := update (·.id = r.id) (claimed w s.clock token) s.reports
        unended := r.id::s.unended }
  | .renew w c => (renew w s.reports c s.clock).map fun reports => { s with reports }
  | .complete w c => (complete w s.reports c s.clock).map fun reports =>
      { s with reports, unended := s.unended.filter (· ≠ c.id) }
  | .fail w c permanent => (fail w s.reports c permanent s.clock).map fun reports =>
      { s with reports, unended := s.unended.filter (· ≠ c.id) }

/-- The reports in processing are those whose claim was not ended. -/
structure Tracked (s : World) : Prop where
  unique : (s.reports.map (·.id)).Nodup
  known : ∀ id ∈ s.unended, ∃ r ∈ s.reports, r.id = id
  processing : ∀ r ∈ s.reports, r.status = .processing ↔ r.id ∈ s.unended

section
variable {s : World} {f : Report → Report} {p : Report → Prop} {id : String}

lemma Tracked.started (h : Tracked s) {r : Report} (hr : r ∈ s.reports)
    (hid : ∀ r, (f r).id = r.id) (hf : ∀ r, (f r).status = .processing) : Tracked { s with
      reports := update (·.id = r.id) f s.reports
      unended := r.id::s.unended } := by
  refine ⟨?_,?_,?_⟩
  · rw [map_update fun r _ _ => hid r]
    exact h.unique
  · intro id hm
    refine exists_update (fun r _ _ => hid r) ?_
    rcases mem_cons.mp hm with rfl | hm
    · exact ⟨r,hr,rfl⟩
    · exact h.known id hm
  · intro t ht
    rcases mem_update_iff.mp ht with ⟨ht,ho⟩ | ⟨old,-,hold,rfl⟩
    · rw [h.processing t ht]
      simp [ho]
    · simp [hf,hid,hold]

lemma Tracked.ended (h : Tracked s) [DecidablePred p] {e : Failure}
    {reports : List Report} (hee : updateOne p f e s.reports = .ok reports)
    (hp : ∀ r, p r → r.id = id) (hid : ∀ r, (f r).id = r.id)
    (hf : ∀ r, (f r).status ≠ .processing) :
    Tracked { s with reports, unended := s.unended.filter (· ≠ id) } := by
  obtain ⟨hon,rfl⟩ := updateOne_eq_ok.mp hee
  obtain ⟨held,hhe,hse⟩ := countP_pos_iff.mp (hon.symm ▸ Nat.one_pos)
  have hse := of_decide_eq_true hse
  refine ⟨?_,?_,?_⟩
  · rw [map_update fun r _ _ => hid r]
    exact h.unique
  · intro other hm
    exact exists_update (fun r _ _ => hid r) (h.known other (mem_of_mem_filter hm))
  · intro t ht
    rcases mem_update_iff.mp ht with ⟨ht,ho⟩ | ⟨old,-,hold,rfl⟩
    · have hne : t.id ≠ id := by
        intro heq
        have hsame := inj_on_of_nodup_map h.unique ht hhe (heq.trans (hp held hse).symm)
        exact ho (hsame ▸ hse)
      simp [h.processing t ht,hne]
    · simp [hf,hid,hp old hold]

end

/-- One transaction keeps track of the reports in processing. -/
lemma Tracked.step {s t : World} {a : Action} (h : Tracked s) (he : exec s a = .ok t) :
    Tracked t := by
  cases a with
  | elapse duration =>
    cases he
    exact ⟨h.unique,h.known,h.processing⟩
  | request id tenantID merchantID =>
    simp only [exec,do_ok,insertUnique_eq_ok] at he
    obtain ⟨_,⟨hn,rfl⟩,rfl⟩ := he
    refine ⟨nodup_map_append h.unique hn,?_,?_⟩
    · intro other hm
      obtain ⟨r,hr,hid⟩ := h.known other hm
      exact ⟨r,mem_append_left _ hr,hid⟩
    · refine forall_snoc h.processing (iff_of_false (by simp) fun hm => ?_)
      obtain ⟨old,hold,hid⟩ := h.known id hm
      exact hn old hold hid
  | claim w token =>
    simp only [exec] at he
    split at he
    · cases he
      exact h
    · next r hr =>
      cases he
      have hm := (mem_insertionSort _).mp (mem_of_mem_head? hr)
      exact h.started (mem_of_mem_filter hm) (fun _ => rfl) (fun _ => rfl)
  | renew w c =>
    obtain ⟨reports,hre,rfl⟩ := map_eq_ok.mp he
    obtain ⟨-,rfl⟩ := updateOne_eq_ok.mp hre
    refine ⟨?_,fun id hm => exists_update (fun _ _ _ => rfl) (h.known id hm),?_⟩
    · have hid : ∀ r, (renewed (s.clock+w.lease) r).id = r.id := fun _ => rfl
      rw [map_update fun r _ _ => hid r]
      exact h.unique
    · exact forall_update h.processing fun r _ _ htr => htr
  | complete w c =>
    obtain ⟨reports,hre,rfl⟩ := map_eq_ok.mp he
    exact h.ended hre (fun r hr => hr.1.1) (fun _ => rfl) (fun _ => by simp [released])
  | fail w c permanent =>
    obtain ⟨reports,hre,rfl⟩ := map_eq_ok.mp he
    refine h.ended hre (fun r hr => hr.1) (fun _ => rfl) (fun _ => ?_)
    simp only [released]
    split_ifs <;> simp

/-- The report is finished, or can be claimed once its next attempt is due and its lease has run
out. -/
def NeverStuck : Prop :=
  r.status = .ready ∨ r.status = .deadLetter ∨
    ∀ later, clock ≤ later → r.nextAttemptAt ≤ later → (∀ u ∈ r.lockedUntil, u < later) →
      Claimable later r

/-- In every run, the reports that do not get stuck are those whose every claim was ended by its
worker. -/
theorem report_never_stuck_iff (as : List Action) : ∀ r ∈ (run exec {} as).reports,
      NeverStuck (run exec {} as).clock r ↔ r.id ∉ (run exec {} as).unended := by
  have htr : Tracked (run exec {} as) :=
    run_keeps (fun _ _ _ h he => h.step he) ⟨by simp,by simp,by simp⟩
  intro r hr
  rw [← htr.processing r hr]
  unfold NeverStuck Claimable
  cases hst : r.status with
  | processing =>
    -- there is a time at which the report is due and its lease has run out
    refine iff_of_false (fun hn => ?_) (by simp)
    obtain ⟨later,hl⟩ : ∃ later, (run exec {} as).clock ≤ later ∧ r.nextAttemptAt ≤ later ∧
        ∀ u ∈ r.lockedUntil, u < later := by
      refine ⟨max (max (run exec {} as).clock r.nextAttemptAt) (r.lockedUntil.getD 0+1),?_,?_,?_⟩
      · omega
      · omega
      · intro u hu
        rw [Option.mem_def.mp hu,Option.getD_some]
        omega
    rcases hn with hre | hd | hn
    · cases hre
    · cases hd
    · simpa using (hn later hl.1 hl.2.1 hl.2.2).1
  | _ => simp +contextual

def sampleWorker : Worker := ⟨"worker",30*1000000000,3,1000000000,minute⟩

theorem failed_report_not_stuck :
    let s := run exec {} [.request "report" "tenant" "merchant",.claim sampleWorker "token",
      .fail sampleWorker ⟨"report","tenant","merchant",1,"token"⟩ false]
    ∃ r ∈ s.reports, r.status = .retry ∧ NeverStuck s.clock r :=
  ⟨_,mem_cons_self,by decide +kernel,
    (report_never_stuck_iff _ _ mem_cons_self).mpr (by decide +kernel)⟩

/-- The worker crashes after its claim: an hour later the report is due, its lease has run out, and
it cannot be claimed. -/
theorem crashed_report_stuck :
    let s := run exec {} [.request "report" "tenant" "merchant",.claim sampleWorker "token",
      .elapse (60*60*1000000000)]
    ∃ r ∈ s.reports, r.status ≠ .ready ∧ r.status ≠ .deadLetter ∧ r.nextAttemptAt ≤ s.clock ∧
      (∀ u ∈ r.lockedUntil, u < s.clock) ∧ ¬Claimable s.clock r := by
  decide +kernel

end Ocrypt.ReportJobs
