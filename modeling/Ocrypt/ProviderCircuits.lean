import Ocrypt.ProviderHealth

/-! The circuit breaker of a provider, which the service and the database both compute: a claim
leases a probe and half-opens a circuit whose pause is over, a completion closes or opens it. -/
namespace Ocrypt.ProviderCircuits
open ProviderHealth List

inductive CircuitState
  | closed | opened | halfOpen
  deriving DecidableEq

structure Circuit where
  state : CircuitState := .closed
  consecutiveFailures : ℕ := 0
  halfOpenSuccesses : ℕ := 0
  openedUntil : Option ℤ := none
  leaseOwner : Option String := none
  leaseToken : ℤ := 0
  leaseUntil : Option ℤ := none
  lastSuccessAt : Option ℤ := none
  lastObservedAt : Option ℤ := none
  fenceToken : ℤ := 1
  version : ℤ := 1
  deriving DecidableEq

/-- Times are in milliseconds. -/
structure Policy where
  timeout : ℤ
  maxAttempts : ℕ
  backoff : ℤ
  failureThreshold : ℕ
  openFor : ℤ
  halfOpenSuccesses : ℕ
  bounded : halfOpenSuccesses ≤ 20

def nextCircuit (current : Circuit) (policy : Policy) (success : Bool) (observedAt : ℤ) : Circuit :=
  let next := { current with
    lastObservedAt := some observedAt
    version := current.version+1
    leaseOwner := none
    leaseUntil := none }
  if success then
    let next := { next with lastSuccessAt := some observedAt, consecutiveFailures := 0 }
    if current.state = .halfOpen then
      let next := { next with halfOpenSuccesses := current.halfOpenSuccesses+1 }
      if policy.halfOpenSuccesses ≤ next.halfOpenSuccesses then
        { next with state := .closed, halfOpenSuccesses := 0, openedUntil := none,
                    fenceToken := current.fenceToken+1 }
      else next
    else { next with state := .closed, halfOpenSuccesses := 0, openedUntil := none }
  else
    let next := { next with
      halfOpenSuccesses := 0
      consecutiveFailures := current.consecutiveFailures+1 }
    if current.state = .halfOpen ∨ policy.failureThreshold ≤ next.consecutiveFailures then
      { next with state := .opened, openedUntil := some (observedAt+policy.openFor),
                  fenceToken := current.fenceToken+1 }
    else next

structure Completion where
  owner : String
  (lease fence : ℤ)
  success : Bool
  category : ErrorCategory
  latency : ℤ
  lag : Option ℤ
  (observed clock : ℤ)

variable (p : Policy) (r : Completion) (c : Circuit)

/-- The circuit has no lease that runs and is not in its pause. -/
def Due (now : ℤ) : Prop :=
  (∀ u ∈ c.leaseUntil, u < now) ∧ (c.state = .opened → ∃ u ∈ c.openedUntil, u ≤ now)

instance (c : Circuit) (now : ℤ) : Decidable (Due c now) := inferInstanceAs (Decidable (_ ∧ _))

/-- A claim that selects the circuit. -/
def claim (owner : String) (now : ℤ) (c : Circuit) : Circuit :=
  { c with
    state := if c.state = .opened then .halfOpen else c.state
    openedUntil := none
    leaseOwner := some owner
    leaseToken := c.leaseToken+1
    leaseUntil := some (now+min 600000
      (p.timeout*p.maxAttempts+p.backoff*(2^(p.maxAttempts - 1) - 1)+5000))
    fenceToken := if c.state = .opened then c.fenceToken+1 else c.fenceToken
    version := c.version+1 }

def Completion.Current : Prop :=
  c.leaseOwner = some r.owner ∧ c.leaseToken = r.lease ∧ c.fenceToken = r.fence ∧
    ∀ u ∈ c.leaseUntil, max r.observed r.clock ≤ u

def Completion.Valid : Prop :=
  (r.success = true ↔ r.category = .none) ∧ 0 ≤ r.latency ∧ r.latency ≤ 30000 ∧ ∀ n ∈ r.lag, 0 ≤ n

instance (r : Completion) (c : Circuit) : Decidable (r.Current c) :=
  inferInstanceAs (Decidable (_ ∧ _))

instance (r : Completion) : Decidable r.Valid := inferInstanceAs (Decidable (_ ∧ _))

def completed : Circuit :=
  let failures := if r.success then 0 else c.consecutiveFailures+1
  let half := if r.success = true ∧ c.state = .halfOpen then c.halfOpenSuccesses+1 else 0
  let closes := r.success = true ∧ c.state = .halfOpen ∧ p.halfOpenSuccesses ≤ half
  let opens := r.success = false ∧ (c.state = .halfOpen ∨ p.failureThreshold ≤ failures)
  let state := if closes then .closed else if opens then .opened else c.state
  { c with
    state
    consecutiveFailures := failures
    halfOpenSuccesses := if closes then 0 else half
    openedUntil := if opens then some (r.observed+p.openFor) else none
    leaseOwner := none
    leaseUntil := none
    lastSuccessAt := if r.success then some r.observed else c.lastSuccessAt
    lastObservedAt := some r.observed
    fenceToken := if c.state ≠ state then c.fenceToken+1 else c.fenceToken
    version := c.version+1 }

/-- The counts of a row are at most a million; an update beyond aborts the transaction. -/
def Stored : Prop := c.consecutiveFailures ≤ 1000000 ∧ c.halfOpenSuccesses ≤ 1000000

/-- The completion takes effect; otherwise it is refused or its transaction is aborted. -/
def Accepted : Prop :=
  r.Current c ∧ r.Valid ∧ Stored (completed p r c)

instance (p : Policy) (r : Completion) (c : Circuit) : Decidable (Accepted p r c) :=
  inferInstanceAs (Decidable (_ ∧ _ ∧ _ ∧ _))

def complete : Circuit :=
  if Accepted p r c then completed p r c else c

inductive Action
  | claim (owner : String) (now : ℤ)
  | complete (r : Completion)

/-- The circuit with the time of its last claim, the end of its last pause and the claim times of
the successes without a failure in between. -/
structure History where
  circuit : Circuit := {}
  claimedAt : Option ℤ := none
  opened : Option ℤ := none
  streak : List (Option ℤ) := []

def step (s : History) : Action → History
  | .claim owner now =>
    if Due s.circuit now then
      { s with circuit := claim p owner now s.circuit, claimedAt := some now }
    else s
  | .complete r =>
    if Accepted p r s.circuit then
      let c := complete p r s.circuit
      { s with
        circuit := c
        opened := if c.state = .opened then c.openedUntil else s.opened
        streak := if r.success then s.streak ++ [s.claimedAt] else [] }
    else s

def claimTimes : List Action → List ℤ
  | [] => []
  | .claim _ now::actions => now::claimTimes actions
  | .complete _::actions => claimTimes actions

def Sustained (s : History) : Prop :=
  ∃ u, s.opened = some u ∧ p.halfOpenSuccesses ≤ s.streak.length ∧
    ∀ x ∈ s.streak, ∃ now, x = some now ∧ u ≤ now

structure Kept (s : History) : Prop where
  pause : s.circuit.state = .opened → s.circuit.leaseOwner = none ∧
    s.circuit.halfOpenSuccesses = 0 ∧ s.streak = [] ∧ s.opened = s.circuit.openedUntil
  probes : s.circuit.state = .halfOpen → s.circuit.halfOpenSuccesses = s.streak.length ∧
    ∃ u, s.opened = some u ∧ ∀ x ∈ s.claimedAt::s.streak, ∃ now, x = some now ∧ u ≤ now

variable {p : Policy} {s : History} {a : Action} {c : Circuit} {r : Completion} {owner : String}
  {now : ℤ} {actions : List Action}

lemma completed_eq_next (hs : c.state ≠ .opened) (ho : c.openedUntil = none) :
    completed p r c = nextCircuit c p r.success r.observed := by
  cases hr : r.success <;> cases hc : c.state <;> simp_all [completed,nextCircuit] <;>
    split_ifs <;> simp_all

lemma stored_completed :
    Stored (completed p r c) ↔ r.success = true ∨ c.consecutiveFailures < 1000000 := by
  have hb := p.bounded
  cases hr : r.success
  · simp [Stored,completed,hr]
  · by_cases hc : c.state = .halfOpen
    · simp only [Stored,completed,hr,hc,true_and,true_or,iff_true]
      split_ifs <;> omega
    · simp [Stored,completed,hr,hc]

lemma Kept.claimed (h : Kept s) (hd : Due s.circuit now) (hn : ∀ x ∈ s.claimedAt, x ≤ now) :
    Kept { s with circuit := claim p owner now s.circuit, claimedAt := some now } := by
  cases hst : s.circuit.state with
  | closed => exact ⟨by simp [claim,hst],by simp [claim,hst]⟩
  | opened =>
    obtain ⟨u,hu,hle⟩ := hd.2 hst
    obtain ⟨-,hh,hs,ho⟩ := h.pause hst
    refine ⟨by simp [claim,hst],fun _ => ⟨by simp [claim,hh,hs],u,ho.trans hu,?_⟩⟩
    simp [hs,hle]
  | halfOpen =>
    obtain ⟨hh,u,ho,hx⟩ := h.probes hst
    refine ⟨by simp [claim,hst],fun _ => ⟨hh,u,ho,fun x hm => ?_⟩⟩
    obtain ⟨n,hc,hu⟩ := hx _ mem_cons_self
    rcases mem_cons.mp hm with rfl | hm
    · exact ⟨now,rfl,hu.trans (hn n hc)⟩
    · exact hx x (mem_cons_of_mem _ hm)

lemma Kept.not_opened (h : Kept s) (ha : Accepted p r s.circuit) : s.circuit.state ≠ .opened := by
  intro ho
  have hl := ha.1.1
  simp [(h.pause ho).1] at hl

lemma Kept.completes (h : Kept s) (ha : Accepted p r s.circuit) : Kept (step p s (.complete r)) := by
  rw [step,if_pos ha,complete,if_pos ha]
  have hn := h.not_opened ha
  cases hr : r.success with
  | false =>
    -- a failure ends the streak, and a half-open circuit opens again
    refine ⟨fun ho => ?_,fun ho => ?_⟩
    · simp_all [completed]
    · cases hst : s.circuit.state <;> simp [completed,hr,hst] at ho
      split_ifs at ho
  | true =>
    cases hst : s.circuit.state with
    | opened => exact absurd hst hn
    | closed => exact ⟨by simp [completed,hr,hst],by simp [completed,hr,hst]⟩
    | halfOpen =>
      by_cases hq : p.halfOpenSuccesses ≤ s.circuit.halfOpenSuccesses+1
      · exact ⟨by simp [completed,hr,hst,hq],by simp [completed,hr,hst,hq]⟩
      obtain ⟨hh,u,ho,hx⟩ := h.probes hst
      refine ⟨by simp [completed,hr,hst,hq],fun _ => ⟨?_,u,?_,?_⟩⟩
      · simp [completed,hr,hst,hq,← hh]
      · simpa [completed,hr,hst,hq] using ho
      · simpa [or_imp,and_comm] using hx

lemma Kept.closes (h : Kept s) (hs : s.circuit.state ≠ .closed)
    (ht : (step p s a).circuit.state = .closed) :
    s.circuit.state = .halfOpen ∧ Sustained p (step p s a) := by
  cases a with
  | claim owner now =>
    rw [step] at ht
    split_ifs at ht
    · simp only [claim] at ht
      split_ifs at ht
      exact absurd ht hs
    · exact absurd ht hs
  | complete r =>
    by_cases ha : Accepted p r s.circuit
    swap
    · rw [step,if_neg ha] at ht
      exact absurd ht hs
    have hst : s.circuit.state = .halfOpen := by
      have hn := h.not_opened ha
      cases hc : s.circuit.state <;> simp_all
    rw [step,if_pos ha,complete,if_pos ha] at ht ⊢
    obtain ⟨hh,u,ho,hx⟩ := h.probes hst
    cases hr : r.success with
    | false => simp [completed,hr,hst] at ht
    | true =>
      have hq : p.halfOpenSuccesses ≤ s.circuit.halfOpenSuccesses+1 := by
        by_contra hq
        simp [completed,hr,hst,hq] at ht
      refine ⟨hst,u,?_,?_,?_⟩
      · simpa [completed,hr,hst,hq] using ho
      · simpa [hh] using hq
      · simpa [or_imp,and_comm] using hx

lemma foldl_kept (h : Kept s) (ht : (claimTimes actions).Pairwise (· ≤ ·))
    (hc : ∀ x ∈ s.claimedAt, ∀ y ∈ claimTimes actions, x ≤ y) : Kept (actions.foldl (step p) s) := by
  induction actions generalizing s with
  | nil => exact h
  | cons a actions ih =>
    cases a with
    | claim owner now =>
      obtain ⟨hle,ht⟩ := pairwise_cons.mp ht
      rw [foldl_cons,step]
      split_ifs with hd
      · refine ih (h.claimed hd fun x hx => hc x hx now mem_cons_self) ht fun x hx => ?_
        cases hx
        exact hle
      · exact ih h ht fun x hx y hy => hc x hx y (mem_cons_of_mem _ hy)
    | complete r =>
      rw [foldl_cons]
      by_cases ha : Accepted p r s.circuit
      · refine ih (h.completes ha) ht fun x hx => hc x ?_
        rwa [step,if_pos ha] at hx
      · rw [step,if_neg ha]
        exact ih h ht hc

/-- A circuit closes again only after the successes that the policy asks for, of probes that were
claimed behind its pause, if the times of the claims do not go back. A completion without the
current lease changes nothing; any other is the service's transition exactly while the failures
can be counted. -/
theorem circuit_breaker (p : Policy) : (∀ actions a, (claimTimes actions).Pairwise (· ≤ ·) →
      let s : History := actions.foldl (step p) {}
      s.circuit.state ≠ .closed → (step p s a).circuit.state = .closed →
        s.circuit.state = .halfOpen ∧ Sustained p (step p s a)) ∧
    (∀ c r, (r.lease ≠ c.leaseToken ∨ r.fence ≠ c.fenceToken ∨
      (∃ u ∈ c.leaseUntil, u < max r.observed r.clock)) → complete p r c = c) ∧
    ∀ c owner now r, r.Current (claim p owner now c) → r.Valid →
      (complete p r (claim p owner now c) =
          nextCircuit (claim p owner now c) p r.success r.observed ↔
        r.success = true ∨ c.consecutiveFailures < 1000000) := by
  refine ⟨fun actions a ht => ?_,fun c r h => if_neg fun ha => ?_,fun c owner now r hr hv => ?_⟩
  · have hk : Kept (actions.foldl (step p) {}) :=
      foldl_kept ⟨fun h => (nomatch h),fun h => (nomatch h)⟩ ht fun _ hx => (nomatch hx)
    exact hk.closes
  · obtain ⟨⟨-,hl,hf,hu⟩,-⟩ := ha
    rcases h with h | h | ⟨u,hm,hlt⟩
    · exact h hl.symm
    · exact h hf.symm
    · exact absurd (hu u hm) (not_le.mpr hlt)
  · have heq := completed_eq_next (p := p) (r := r) (c := claim p owner now c)
      (by cases h : c.state <;> simp [claim,h]) rfl
    rw [show c.consecutiveFailures = (claim p owner now c).consecutiveFailures from rfl,
      ← stored_completed (p := p),← heq]
    refine ⟨fun h => ?_,fun h => if_pos ⟨hr,hv,h⟩⟩
    by_contra hn
    rw [complete,if_neg fun ha => hn ha.2.2] at h
    have hve : (claim p owner now c).version = (claim p owner now c).version+1 :=
      congrArg Circuit.version h
    omega

def samplePolicy : Policy := ⟨1000,1,0,1,1000,2,by decide⟩

def sampleCompletion (lease fence : ℤ) (success : Bool) (observed clock : ℤ) : Completion :=
  ⟨"worker",lease,fence,success,if success then .none else .timeout,10,none,observed,clock⟩

/-- The second probe of a half-open circuit is claimed by a process whose clock is behind the end
of the pause, while the clock of the database moves on; and after a million failures the next one
of a half-open circuit is aborted. -/
theorem early_probe_closes :
    let s : History := [.claim "worker" 0,.complete (sampleCompletion 1 1 false 5 5),
      .claim "worker" 1005,.complete (sampleCompletion 2 3 true 1006 1006),.claim "worker" 950,
      .complete (sampleCompletion 3 3 true 951 1010)].foldl (step samplePolicy) {}
    (s.circuit.state = .closed ∧ s.opened = some 1005 ∧ s.streak = [some 1005,some 950]) ∧
      let c := claim samplePolicy "worker" 1005
        { state := .opened, consecutiveFailures := 1000000, openedUntil := some 1005 }
      c.state = .halfOpen ∧ complete samplePolicy (sampleCompletion 1 2 false 1006 1006) c = c := by
  decide +kernel

end Ocrypt.ProviderCircuits
