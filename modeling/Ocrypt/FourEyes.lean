import Ocrypt.FinancialEffects

/-! Four eyes on every payout: a request that its policy wanted approved gets past the approval
only with the approval of an actor who did not create it, whatever calls race for it. -/
namespace Ocrypt.FourEyes
open Custody FinancialWorkers FinancialRuns FinancialEffects Relation Transactions

variable {π τ σ ρ : Type} {r s : Aggregate τ}

def ApprovedByOther (r : Aggregate τ) : Prop := ∃ a ∈ r.approvals, a.actorID ≠ r.creatorID

def released : List Status :=
  [.approved,.awaitingSignature,.signed,.broadcast,.confirmed,.finalized,.reorged,.failed]

/-- The request still waits for its approval, was given up, or was approved by another actor. -/
def Reviewed (r : Aggregate τ) : Prop :=
  r.status = .approvalRequired ∨ r.status = .cancelled ∨ ApprovedByOther r

lemma reviewed_move (h : Moves r s) (hr : Reviewed r) : Reviewed s := by
  cases h with
  | approve actor reason now hst ho =>
    have har : (⟨actor,now,reason⟩ : Approval) ∈ r.approvals ++ [⟨actor,now,reason⟩] := by
      simp
    exact .inr (.inr ⟨_,har,ho.symm⟩)
  | cancel now hst => exact .inr (.inl rfl)
  | prepare u now hst | sign signature now hst | broadcast receipt now hst =>
    have hap : ApprovedByOther r := by simpa [Reviewed,hst] using hr
    exact .inr (.inr hap)
  | record status now hal =>
    have hn : r.status ≠ .approvalRequired ∧ r.status ≠ .cancelled := by
      constructor <;> intro hst <;> simp [chainResultAllowed_iff,hst] at hal
    have hap : ApprovedByOther r := by simpa [Reviewed,hn.1,hn.2] using hr
    exact .inr (.inr hap)

lemma reviewed_moves (h : ReflTransGen Moves r s) (hr : Reviewed r) : Reviewed s := by
  induction h with
  | refl => exact hr
  | tail _ hl ih => exact reviewed_move hl ih

lemma Reviewed.approvedByOther {r : Aggregate τ} (h : Reviewed r) (hst : r.status ∈ released) :
    ApprovedByOther r := by
  rcases h with h | h | h
  · simp [h,released] at hst
  · simp [h,released] at hst
  · exact h

lemma Sound.reviewed {p : Profile τ σ ρ} {Required : π → Aggregate τ → Prop}
    {rows : List (Aggregate τ)} {log : Log π τ σ} (h : Sound p Required rows log)
    {q : π × Aggregate τ} (hq : q ∈ log.requests) (hre : Required q.1 q.2) {r : Aggregate τ}
    (hr : r ∈ rows) (hid : r.id = q.2.id) : Reviewed r := by
  obtain ⟨hse,hst⟩ := h.requested q hq
  obtain ⟨t,ht,hk,hm⟩ := h.coherent.leads hse
  have htr : t = r := h.coherent.eq_of_key ht hr (hk.trans hid.symm)
  subst htr
  exact reviewed_moves hm (.inl (hst hre))

/-- In every run, a refund or sweep whose policy asked for approval when it was requested is past
the approval only if it carries the approval of an actor who did not create it. -/
theorem payouts_have_four_eyes (env : Environment) (core : Workers.World) (actions : List Action) :
    (∀ q ∈ (run (exec env) (start core) actions).refundLog.requests,
      q.1.RequiresApproval q.2.terms.grossAmount →
      ∀ r ∈ (run (exec env) (start core) actions).db.refunds, r.id = q.2.id →
        r.status ∈ released → ApprovedByOther r) ∧
    ∀ q ∈ (run (exec env) (start core) actions).sweepLog.requests,
      q.1.RequiresApproval q.2.terms.amount →
      ∀ r ∈ (run (exec env) (start core) actions).db.sweeps, r.id = q.2.id →
        r.status ∈ released → ApprovedByOther r := by
  have hso := run_systemSound env core actions
  constructor
  · intro q hq hre r hr hid hst
    exact (Sound.reviewed hso.refunds hq hre hr hid).approvedByOther hst
  · intro q hq hre r hr hid hst
    exact (Sound.reviewed hso.sweeps hq hre hr hid).approvedByOther hst

theorem payouts_have_four_eyes_sample : ApprovedByOther sampleApproved :=
  (payouts_have_four_eyes sampleEnvironment Workers.sampleStart sampleApproval).1
    (samplePolicy,sampleRequested) (by decide +kernel) (by decide) sampleApproved
    (by decide +kernel) rfl (by decide)

end Ocrypt.FourEyes
