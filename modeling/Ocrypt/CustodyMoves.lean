import Ocrypt.Custody

/-! What one call can do to an aggregate. Every service operation and every advance of the
execution worker that ends in an update is one of six moves of the row it read. -/
namespace Ocrypt.Custody
open Money Fallible Authentication OptimisticUpdates

variable {τ σ ρ : Type} {r s : Aggregate τ} {identity : MutationIdentity} {c : TransitionCommand}
  {current : Aggregate τ} {u : UnsignedTransaction σ}

inductive Moves (r : Aggregate τ) : Aggregate τ → Prop
  | approve (actor reason : String) (now : ℤ) (hstatus : r.status = .approvalRequired)
      (hother : r.creatorID ≠ actor) :
      Moves r { r.step .approved now with approvals := r.approvals ++ [⟨actor,now,reason⟩] }
  | cancel (now : ℤ) (hstatus : r.status ∈ [.approvalRequired,.approved,.awaitingSignature]) :
      Moves r (r.step .cancelled now)
  | prepare {σ : Type} (u : UnsignedTransaction σ) (now : ℤ) (hstatus : r.status = .approved) :
      Moves r (r.prepared u now)
  | sign (s : SignedTransaction) (now : ℤ) (hstatus : r.status = .awaitingSignature) :
      Moves r (r.withSignature s now)
  | broadcast (receipt : BroadcastReceipt) (now : ℤ) (hstatus : r.status = .signed) :
      Moves r (r.withReceipt receipt now)
  | record (status : Status) (now : ℤ) (hstatus : chainResultAllowed status r.status = true) :
      Moves r (r.step status now)

def versioning (τ : Type) : Versioning (Aggregate τ) String where
  key := fun r => r.id
  version := fun r => r.version

lemma Moves.keeps (h : Moves r s) : s.toRequest = r.toRequest ∧ s.version = r.version+1 := by
  cases h <;> exact ⟨rfl,rfl⟩

lemma moves_advance : (versioning τ).Advances Moves := by
  intro r s h
  obtain ⟨hre,hv⟩ := h.keeps
  have hid : s.id = r.id := congrArg Request.id hre
  have hlt : r.version < s.version := by omega
  exact ⟨hid,hlt⟩

lemma keeps_request (h : Relation.ReflTransGen Moves r s) : s.toRequest = r.toRequest := by
  induction h with
  | refl => rfl
  | tail _ hl ih => exact hl.keeps.1.trans ih

lemma chainResultAllowed_iff {status current : Status} : chainResultAllowed status current = true ↔
      (status = .confirmed ∧ current = .broadcast) ∨ (status = .finalized ∧ current = .confirmed) ∨
        (status = .reorged ∧ current ∈ [.broadcast,.confirmed,.finalized]) ∨
        (status = .failed ∧ current = .broadcast) := by
  cases status <;> simp [chainResultAllowed,or_assoc]

/-- The status changes of a custody aggregate. -/
def transitions : List (Status × Status) :=
  [(.approvalRequired,.approved),(.approvalRequired,.cancelled),(.approved,.cancelled),
    (.awaitingSignature,.cancelled),(.approved,.awaitingSignature),(.awaitingSignature,.signed),
    (.signed,.broadcast),(.broadcast,.confirmed),(.confirmed,.finalized),(.broadcast,.reorged),
    (.confirmed,.reorged),(.finalized,.reorged),(.broadcast,.failed)]

lemma statuses_of_move (h : Moves r s) : (r.status,s.status) ∈ transitions := by
  cases h with
  | approve actor reason now hst ho => simp [transitions,hst,Aggregate.step]
  | cancel now hst =>
    simp only [List.mem_cons,List.not_mem_nil] at hst
    rcases hst with hst | hst | hst <;> simp [transitions,hst,Aggregate.step]
  | prepare u now hst => simp [transitions,hst,Aggregate.prepared,Aggregate.step]
  | sign signature now hst => simp [transitions,hst,Aggregate.withSignature,Aggregate.step]
  | broadcast receipt now hst => simp [transitions,hst,Aggregate.withReceipt,Aggregate.step]
  | record status now hal =>
    simp only [chainResultAllowed_iff,List.mem_cons,List.not_mem_nil] at hal
    rcases hal with ⟨rfl,h⟩ | ⟨rfl,h⟩ | ⟨rfl,h | h | h⟩ | ⟨rfl,h⟩ <;>
      simp [transitions,h,Aggregate.step]

structure Planned (p : Profile τ σ ρ) (current : Aggregate τ) (m : UpdateMutation τ ρ) : Prop where
  tenantID : m.tenantID = current.tenantID
  aggregateID : m.aggregateID = current.id
  expectedVersion : m.expectedVersion = current.version
  moves : Moves current m.next
  ledger : ∃ ids now, m.ledger = p.postings current m.next.status ids now
  release : m.release = p.release current m.next.status

/-- An update is planned from the stored aggregate. -/
abbrev PlannedFrom (p : Profile τ σ ρ) (repo : Repository τ) (tenantID id : String)
    (m : UpdateMutation τ ρ) : Prop :=
  ∃ current, repo.get tenantID id = some current ∧ Planned p current m

variable {p : Profile τ σ ρ} {repo : Repository τ} {ids : PostingIDs} {now : ℤ}
  {m : UpdateMutation τ ρ}

lemma planned_update {current next : Aggregate τ} (h : Moves current next)
    (actor action reason : String) (now : ℤ) (ids : PostingIDs) (decision : Option Decision) :
    Planned p current (p.update current next actor action reason now ids decision) :=
  ⟨rfl,rfl,rfl,h,⟨ids,now,rfl⟩,rfl⟩

/-- One call of a service or of the execution worker, with its clock and the answers that it
gets from the ports. -/
inductive Call (σ : Type)
  | approve (now : ℤ) (identity : MutationIdentity) (command : ApproveCommand)
  | cancel (now : ℤ) (identity : MutationIdentity) (command : TransitionCommand) (reason : String)
  | prepare (now : ℤ) (command : TransitionCommand) (response : Option (UnsignedTransaction σ))
  | sign (now : ℤ) (command : TransitionCommand) (response : Option SignedTransaction)
  | broadcast (now : ℤ) (command : TransitionCommand) (response : Option BroadcastReceipt)
  | recordChainResult (now : ℤ) (command : ChainResultCommand)
  | advance (now : ℤ) (workload : WorkloadContext) (tenantID id : String) (expected : ℤ)
      (responses : PortResponses σ)

namespace Call

def target : Call σ → String × String
  | .approve _ _ c => (c.tenantID,c.aggregateID)
  | .cancel _ _ c _ => (c.tenantID,c.aggregateID)
  | .prepare _ c _ => (c.tenantID,c.aggregateID)
  | .sign _ c _ => (c.tenantID,c.aggregateID)
  | .broadcast _ c _ => (c.tenantID,c.aggregateID)
  | .recordChainResult _ c => (c.tenantID,c.aggregateID)
  | .advance _ _ tenantID id _ _ => (tenantID,id)

def built : Call σ → Option (UnsignedTransaction σ)
  | .prepare _ _ response => response
  | .advance _ _ _ _ _ responses => responses.unsigned
  | _ => none

end Call

def Profile.plan [DecidableEq σ] (p : Profile τ σ ρ) (repo : Repository τ) (ids : PostingIDs) :
    Call σ → Except Refusal (Plan τ ρ)
  | .approve now identity c => p.approve repo now identity c ids
  | .cancel now identity c reason => p.cancel repo now identity c reason ids
  | .prepare now c response => p.prepare repo now c response ids
  | .sign now c response => p.sign repo now c response ids
  | .broadcast now c response => p.broadcast repo now c response ids
  | .recordChainResult now c => p.recordChainResult repo now c ids
  | .advance now workload tenantID id expected responses =>
    p.advance repo now workload tenantID id expected responses ids

lemma approve_planned {c : ApproveCommand}
    (h : p.approve repo now identity c ids = .ok (.update m)) :
    PlannedFrom p repo c.tenantID c.aggregateID m := by
  simp only [Profile.approve,do_eq_ok] at h
  obtain ⟨-,-,-,-,replay,-,h⟩ := h
  cases replay with
  | some response => simp at h
  | none =>
    simp only [do_ok,orFail_eq_ok,Plan.update.injEq] at h
    obtain ⟨current,hg,-,hst,ho,rfl⟩ := h
    exact ⟨current,hg,planned_update (.approve _ _ now hst ho) ..⟩

lemma cancel_planned {reason : String}
    (h : p.cancel repo now identity c reason ids = .ok (.update m)) :
    PlannedFrom p repo c.tenantID c.aggregateID m := by
  simp only [Profile.cancel,do_eq_ok] at h
  obtain ⟨-,-,-,-,replay,-,h⟩ := h
  cases replay with
  | some response => simp at h
  | none =>
    simp only [do_ok,orFail_eq_ok,Plan.update.injEq] at h
    obtain ⟨current,hg,-,hst,rfl⟩ := h
    exact ⟨current,hg,planned_update (.cancel now hst) ..⟩

lemma load_eq_ok {expected : Status} (h : p.load repo c expected = .ok current) :
    repo.get c.tenantID c.aggregateID = some current ∧ current.status = expected := by
  simp only [Profile.load,do_ok,orFail_eq_ok] at h
  obtain ⟨-,r,hg,-,hst,rfl⟩ := h
  exact ⟨hg,hst⟩

lemma prepare_planned {response : Option (UnsignedTransaction σ)}
    (h : p.prepare repo now c response ids = .ok (.update m)) :
    ∃ current u, repo.get c.tenantID c.aggregateID = some current ∧ current.status = .approved ∧
      response = some u ∧ p.validateUnsigned current u = .ok () ∧
      m.next = current.prepared u now ∧ m.decision = none ∧ Planned p current m := by
  simp only [Profile.prepare,do_ok,orFail_eq_ok,Plan.update.injEq] at h
  obtain ⟨-,-,current,hl,u,hu,⟨⟩,hv,rfl⟩ := h
  obtain ⟨hg,hst⟩ := load_eq_ok hl
  exact ⟨current,u,hg,hst,hu,hv,rfl,rfl,planned_update (.prepare u now hst) ..⟩

lemma sign_planned {response : Option SignedTransaction}
    (h : p.sign repo now c response ids = .ok (.update m)) :
    PlannedFrom p repo c.tenantID c.aggregateID m := by
  simp only [Profile.sign,do_ok,Plan.update.injEq] at h
  obtain ⟨-,-,current,hl,s,-,-,rfl⟩ := h
  obtain ⟨hg,hst⟩ := load_eq_ok hl
  exact ⟨current,hg,planned_update (.sign s now hst) ..⟩

lemma broadcast_planned {response : Option BroadcastReceipt}
    (h : p.broadcast repo now c response ids = .ok (.update m)) :
    PlannedFrom p repo c.tenantID c.aggregateID m := by
  simp only [Profile.broadcast,do_ok,Plan.update.injEq] at h
  obtain ⟨-,-,current,hl,receipt,-,-,rfl⟩ := h
  obtain ⟨hg,hst⟩ := load_eq_ok hl
  exact ⟨current,hg,planned_update (.broadcast receipt now hst) ..⟩

lemma recordChainResult_planned {c : ChainResultCommand}
    (h : p.recordChainResult repo now c ids = .ok (.update m)) :
    PlannedFrom p repo c.tenantID c.aggregateID m := by
  simp only [Profile.recordChainResult,do_ok,orFail_eq_ok,Plan.update.injEq] at h
  obtain ⟨-,-,-,current,hg,-,-,hal,rfl⟩ := h
  exact ⟨current,hg,planned_update (.record c.status now hal) ..⟩

def Profile.Accepts (p : Profile τ σ ρ) (current : Aggregate τ) (u : UnsignedTransaction σ) : Prop :=
  p.Agrees current u ∧ u.fee.n ≤ (p.feeLimit current.terms).n

lemma Profile.Agrees.congr (h : p.Agrees r u) (hre : s.toRequest = r.toRequest) : p.Agrees s u := by
  unfold Profile.Agrees
  rw [hre]
  exact h

lemma Profile.unsignedFor_eq {r : Aggregate τ} (h : p.Agrees r u)
    (hdi : r.unsignedDigest = u.digest) (hre : r.unsignedReference = u.opaqueReference) :
    p.unsignedFor r = { u with fee := p.fee r.terms } := by
  obtain ⟨hid,hte,hsc,has,hch,hd,ham⟩ := h
  simp [Profile.unsignedFor,hid,hte,hsc,has,hch,hd,ham,hdi,hre]

lemma advance_planned [DecidableEq σ] {workload : WorkloadContext} {tenantID id : String}
    {expected : ℤ} {responses : PortResponses σ}
    (h : p.advance repo now workload tenantID id expected responses ids = .ok (.update m)) :
    ∃ current, repo.get tenantID id = some current ∧ Planned p current m ∧
      (current.status = .approved → ∃ u, responses.unsigned = some u ∧ p.Accepts current u ∧
        m.next = current.prepared u now ∧ m.decision = none) := by
  simp only [Profile.advance,do_ok,orFail_eq_ok] at h
  obtain ⟨current,hg,-,h⟩ := h
  refine ⟨current,hg,?_⟩
  split at h
  · rename_i hst
    simp only [do_ok,orFail_eq_ok,Plan.update.injEq,ne_eq,Amount.cmp_eq_gt,not_lt] at h
    obtain ⟨-,-,u,hu,⟨hag,hf,-⟩,rfl⟩ := h
    exact ⟨planned_update (.prepare u now hst) ..,fun _ => ⟨u,hu,⟨hag,hf⟩,rfl,rfl⟩⟩
  · rename_i hst
    simp only [do_ok,Plan.update.injEq] at h
    obtain ⟨-,-,s,-,-,rfl⟩ := h
    exact ⟨planned_update (.sign s now hst) ..,fun hap => by simp [hst] at hap⟩
  · rename_i hst
    simp only [do_ok,Plan.update.injEq] at h
    obtain ⟨-,-,receipt,-,-,rfl⟩ := h
    exact ⟨planned_update (.broadcast receipt now hst) ..,
      fun hap => by simp [hst] at hap⟩
  · cases h

/-- Whatever the call, an update that it plans moves the stored aggregate by one transition. -/
lemma plan_planned [DecidableEq σ] {call : Call σ} (h : p.plan repo ids call = .ok (.update m)) :
    PlannedFrom p repo call.target.1 call.target.2 m := by
  cases call with
  | approve now identity c => exact approve_planned h
  | cancel now identity c reason => exact cancel_planned h
  | prepare now c response =>
    obtain ⟨current,-,hg,-,-,-,-,-,hpl⟩ := prepare_planned h
    exact ⟨current,hg,hpl⟩
  | sign now c response => exact sign_planned h
  | broadcast now c response => exact broadcast_planned h
  | recordChainResult now c => exact recordChainResult_planned h
  | advance now workload tenantID id expected responses =>
    obtain ⟨current,hg,hpl,-⟩ := advance_planned h
    exact ⟨current,hg,hpl⟩

/-- What the two packages have to say about their checks and postings for the workflow to be
sound. -/
structure Profile.Lawful (p : Profile τ σ ρ) : Prop where
  validateUnsigned : ∀ r u, p.validateUnsigned r u = .ok () → p.Accepts r u
  postings : ∀ r status ids now, ∀ l ∈ p.postings r status ids now, l.aggregateID = r.id

/-- A payout is prepared only with a transaction that its profile accepts. -/
theorem plan_accepts [DecidableEq σ] (hp : p.Lawful) {call : Call σ}
    (h : p.plan repo ids call = .ok (.update m))
    (hg : repo.get call.target.1 call.target.2 = some current)
    (hst : current.status = .approved) (hbu : call.built = some u) :
    p.Accepts current u ∧ m.decision = none ∧ ∃ now, m.next = current.prepared u now := by
  cases call with
  | prepare now c response =>
    obtain ⟨r,v,hr,-,hv,hva,hn,hd,-⟩ := prepare_planned h
    have hcu : r = current := Option.some.inj (hr.symm.trans hg)
    have hre : v = u := Option.some.inj (hv.symm.trans hbu)
    subst hcu hre
    exact ⟨hp.validateUnsigned _ _ hva,hd,now,hn⟩
  | advance now workload tenantID id expected responses =>
    obtain ⟨r,hr,-,hae⟩ := advance_planned h
    have hcu : r = current := Option.some.inj (hr.symm.trans hg)
    subst hcu
    obtain ⟨v,hv,hac,hn,hd⟩ := hae hst
    have hre : v = u := Option.some.inj (hv.symm.trans hbu)
    subst hre
    exact ⟨hac,hd,now,hn⟩
  | approve | cancel | sign | broadcast | recordChainResult => cases hbu

end Ocrypt.Custody
