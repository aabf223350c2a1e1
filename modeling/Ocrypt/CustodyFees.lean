import Ocrypt.FinancialEffects

/-! The fee of a payout. The builder answers with a transaction whose fee is only bounded by the
request; the transaction that is signed and the fee that is posted are rebuilt from the request. -/
namespace Ocrypt.CustodyFees
open Money Custody Refunds Treasury FinancialStore RefundStore FinancialWorkers FinancialRuns
  FinancialEffects Relation Transactions List

variable {π τ σ ρ : Type} {r s : Aggregate τ} {rows : List (Aggregate τ)} {p : Profile τ σ ρ}
  {Required : π → Aggregate τ → Prop} {log : Log π τ σ} {u : UnsignedTransaction σ}
  {ledger : List LedgerRow}

def Built (r : Aggregate τ) : Prop := r.status ≠ .approvalRequired ∧ r.status ≠ .approved

lemma built_move (h : Moves r s) (hr : Built r) :
    Built s ∧ s.unsignedDigest = r.unsignedDigest ∧ s.unsignedReference = r.unsignedReference := by
  have hbu : ∀ x ∈ transitions, x.1 ≠ .approvalRequired ∧ x.1 ≠ .approved →
      x.2 ≠ .approvalRequired ∧ x.2 ≠ .approved := by decide
  refine ⟨hbu _ (statuses_of_move h) hr,?_⟩
  cases h with
  | approve actor reason now hst ho => exact absurd hst hr.1
  | prepare u now hst => exact absurd hst hr.2
  | _ => exact ⟨rfl,rfl⟩

lemma built_moves (h : ReflTransGen Moves r s) (hr : Built r) :
    Built s ∧ s.unsignedDigest = r.unsignedDigest ∧ s.unsignedReference = r.unsignedReference := by
  induction h with
  | refl => exact ⟨hr,rfl,rfl⟩
  | tail _ hl ih =>
    obtain ⟨hbu,hd,hre⟩ := ih
    obtain ⟨hbu',hd',hre'⟩ := built_move hl hbu
    exact ⟨hbu',hd'.trans hd,hre'.trans hre⟩

lemma Sound.sameReferences (h : Sound p Required rows log) (hr : r ∈ log.seen) (hs : s ∈ log.seen)
    (hid : r.id = s.id)
    (hrb : Built r) (hsb : Built s) :
    s.unsignedDigest = r.unsignedDigest ∧ s.unsignedReference = r.unsignedReference ∧
      s.toRequest = r.toRequest := by
  rcases le_total r.version s.version with hle | hle
  · have hm := h.coherent.chain r hr s hs hid hle
    obtain ⟨-,hd,hre⟩ := built_moves hm hrb
    exact ⟨hd,hre,keeps_request hm⟩
  · have hm := h.coherent.chain s hs r hr hid.symm hle
    obtain ⟨-,hd,hre⟩ := built_moves hm hsb
    exact ⟨hd.symm,hre.symm,(keeps_request hm).symm⟩

lemma Sound.handed_eq (h : Sound p Required rows log) (hu : u ∈ log.accepted) : ∃ r ∈ rows, r.id = u.requestID ∧
      ∀ v ∈ log.handed, v.requestID = u.requestID → v = { u with fee := p.fee r.terms } := by
  obtain ⟨current,hcu,now,-,hac,hn⟩ := h.accepted u hu
  obtain ⟨r,hr,hk,hm⟩ := h.coherent.leads hcu
  have hre := keeps_request hm
  have hid := hac.1.1.symm
  refine ⟨r,hr,Eq.trans (congrArg Request.id hre) hid,fun v hv hsame => ?_⟩
  obtain ⟨d,hd,hst,rfl⟩ := h.handed v hv
  have hbu : Built (current.prepared u now) :=
    ⟨by simp [Aggregate.prepared,Aggregate.step],by simp [Aggregate.prepared,Aggregate.step]⟩
  have hi := hid.trans hsame.symm
  obtain ⟨hdi,hrf,hd'⟩ := Sound.sameReferences h hn hd hi hbu
    ⟨by simp [hst],by simp [hst]⟩
  have hte : d.terms = r.terms := congrArg Request.terms (Eq.trans hd' hre.symm)
  rw [← hte]
  exact Profile.unsignedFor_eq (hac.1.congr hd') hdi hrf

def IsFee (kind id : String) (l : LedgerRow) : Prop :=
  l.aggregateType = kind ∧ l.entryType = kind ++ ".network_fee" ∧ l.aggregateID = id

instance (kind id : String) : DecidablePred (IsFee kind id) :=
  fun _ => inferInstanceAs (Decidable (_ ∧ _))

def postedFee (kind : String) (ledger : List LedgerRow) (id : String) : ℕ :=
  ((ledger.filter (IsFee kind id)).map fun l => l.amount.n).sum

lemma postedFee_eq_zero {kind id : String}
    (h : ∀ l ∈ ledger, ¬IsFee kind id l) : postedFee kind ledger id = 0 := by
  have hn : ledger.filter (IsFee kind id) = [] := filter_eq_nil_iff.mpr (by simpa using h)
  simp [postedFee,hn]

lemma postedFee_append (kind : String) (a b : List LedgerRow) (id : String) :
    postedFee kind (a ++ b) id = postedFee kind a id+postedFee kind b id := by
  simp [postedFee]

def paid : List Status := [.broadcast,.confirmed,.finalized,.reorged,.failed]

def feeOf (p : Profile τ σ ρ) (r : Aggregate τ) : ℕ :=
  if r.status ∈ paid then (p.fee r.terms).n else 0

/-- The fee of the request is posted once it is broadcast, and never again. -/
abbrev FeesPosted (p : Profile τ σ ρ) : List (Aggregate τ) → List LedgerRow → Prop :=
  Posted (postedFee p.kind) (feeOf p)

lemma FeesPosted.created
    (h : FeesPosted p rows ledger) {r : Aggregate τ} (hf : ∀ s ∈ rows, s.id ≠ r.id)
    (hst : r.status ∉ paid) : FeesPosted p (rows ++ [r]) ledger := by
  have hcr : FeesPosted p (rows ++ [r]) (ledger ++ []) :=
    Posted.created (postedFee_append p.kind) h hf (if_neg hst).symm fun _ _ => rfl
  rwa [append_nil] at hcr

lemma paid_move (h : Moves r s) : (s.status = .broadcast ∧ r.status ∉ paid) ∨
      (s.status ≠ .broadcast ∧ (s.status ∈ paid ↔ r.status ∈ paid)) := by
  have hpa : ∀ x ∈ transitions, (x.2 = .broadcast ∧ x.1 ∉ paid) ∨
      (x.2 ≠ .broadcast ∧ (x.2 ∈ paid ↔ x.1 ∈ paid)) := by decide
  exact hpa _ (statuses_of_move h)

def PostsFee (p : Profile τ σ ρ) : Prop :=
  ∀ r status ids now id, postedFee p.kind ((p.postings r status ids now).map fun l => ⟨l,p.kind⟩) id =
    if r.id = id ∧ status = .broadcast then (p.fee r.terms).n else 0

lemma FeesPosted.updated (hf : PostsFee p) (h : FeesPosted p rows ledger) {current : Aggregate τ}
    {m : UpdateMutation τ ρ} (hpl : Planned p current m) (hcu : current ∈ rows)
    (hu : ∀ r ∈ rows, r.id = current.id → r = current) (hv : AtVersion m current) :
    FeesPosted p (Table.update (AtVersion m) (fun _ => m.next) rows)
      (ledger ++ m.ledger.map fun l => ⟨l,p.kind⟩) := by
  obtain ⟨ids,now,hle⟩ := hpl.ledger
  have hte := congrArg Request.terms hpl.moves.keeps.1
  refine Posted.updated (postedFee_append p.kind) h hpl hcu hu hv ?_ fun id hne => ?_
  · rw [hle,hf,feeOf,feeOf,hte]
    rcases paid_move hpl.moves with ⟨ho,hbe⟩ | ⟨ho,hi⟩
    · have haf : m.next.status ∈ paid := by simp [ho,paid]
      rw [if_neg hbe,if_pos haf,if_pos ⟨rfl,ho⟩,Nat.zero_add]
    · simp [ho,hi]
  · rw [hle,hf,if_neg fun hc => hne hc.1]

lemma postedFee_other {kind other : String} (h : other ≠ kind) (commands : List LedgerCommand)
    (id : String) : postedFee kind (commands.map fun l => ⟨l,other⟩) id = 0 := by
  refine postedFee_eq_zero fun l hl hf => ?_
  obtain ⟨c,-,rfl⟩ := mem_map.mp hl
  exact h hf.1

lemma PostsFee.intro {p : Profile τ σ ρ} (hp : p.Lawful) (h : ∀ r status ids now,
      postedFee p.kind ((p.postings r status ids now).map fun l => ⟨l,p.kind⟩) r.id =
        if status = .broadcast then (p.fee r.terms).n else 0) : PostsFee p := by
  intro r status ids now id
  by_cases hid : r.id = id
  · subst hid
    simp [h]
  · rw [if_neg fun hc => hid hc.1]
    refine postedFee_eq_zero fun l hl hf => hid ?_
    obtain ⟨c,hc,rfl⟩ := mem_map.mp hl
    exact (hp.postings r status ids now c hc).symm.trans hf.2.2

lemma refund_postsFee : PostsFee Refunds.profile := by
  refine PostsFee.intro Refunds.profile_lawful fun r status ids now => ?_
  cases status with
  | broadcast =>
    by_cases hz : r.terms.networkFee.isZero = true
    · simp [postedFee,IsFee,Refunds.profile,Refunds.postings,Amount.isZero_iff.mp hz]
    · simp [postedFee,IsFee,Refunds.profile,Refunds.postings,hz]
  | _ => simp [postedFee,IsFee,Refunds.profile,Refunds.postings]

lemma sweep_postsFee : PostsFee Treasury.profile := by
  refine PostsFee.intro Treasury.profile_lawful fun r status ids now => ?_
  by_cases hst : status = .broadcast
  · by_cases hz : r.terms.quotedFee.isZero = true
    · simp [postedFee,Treasury.profile,Treasury.postings,Amount.isZero_iff.mp hz]
    · simp [postedFee,IsFee,Treasury.profile,Treasury.postings,hz,hst]
  · simp [postedFee,Treasury.profile,Treasury.postings,hst]

/-- The fees of both kinds of request are posted by their broadcasts. -/
structure FeeBooks (db : FinancialDatabase) : Prop where
  refunds : FeesPosted Refunds.profile db.refunds db.ledger
  sweeps : FeesPosted Treasury.profile db.sweeps db.ledger

lemma Effect.feeBooks {env : Environment} {s : System} {a : Action} {core : Workers.World}
    {db : FinancialDatabase} (hso : SystemSound s) (h : FeeBooks s.db)
    (he : Effect env s a core db) : FeeBooks db := by
  obtain ⟨hre,hsw⟩ := h
  cases he with
  | core hco => exact ⟨hre,hsw⟩
  | configured hdb =>
    rw [hdb]
    exact ⟨hre,hsw⟩
  | synced hsy =>
    rw [syncSettlements_frame hsy]
    exact ⟨hre,hsw⟩
  | @refundCreated _ _ _ _ _ _ m _ hrq hcr =>
    have hrs : ∀ id, postedFee "refund" (m.ledger.map fun l => ⟨l,"refund"⟩) id = 0 := by
      refine fun id => postedFee_eq_zero fun l hl hf => ?_
      obtain ⟨c,hc,rfl⟩ := mem_map.mp hl
      have hen := (request_ledger hrq c hc).symm.trans hf.2.1
      simp at hen
    rw [hcr.written]
    refine ⟨FeesPosted.created (hre.append (postedFee_append "refund") hrs)
        (fun s hs => (hcr.fresh s hs).1) ?_,
      hsw.append (postedFee_append _) (postedFee_other (by decide) _)⟩
    rw [(request_status hrq).1]
    split <;> simp [paid]
  | sweepCreated hrq hcr =>
    rw [hcr.written]
    refine ⟨hre,FeesPosted.created hsw hcr.fresh ?_⟩
    rw [(requestSweep_status hrq).1]
    split <;> simp [paid]
  | refundUpdated hp hu =>
    rw [hu.written]
    refine ⟨FeesPosted.updated refund_postsFee hre hp hu.stored ?_ hu.atVersion,
      hsw.append (postedFee_append _) (postedFee_other (by decide) _)⟩
    exact fun r hr hid => hso.refunds.coherent.eq_of_key hr hu.stored hid
  | sweepUpdated hp hu =>
    rw [hu.written]
    refine ⟨hre.append (postedFee_append _) (postedFee_other (by decide) _),
      FeesPosted.updated sweep_postsFee hsw hp hu.stored ?_ hu.atVersion⟩
    exact fun r hr hid => hso.sweeps.coherent.eq_of_key hr hu.stored hid

lemma run_feeBooks (env : Environment) (core : Workers.World) (actions : List Action) :
    FeeBooks (run (exec env) (start core) actions).db :=
  run_tables (I := fun _ db => FeeBooks db) ⟨⟨by simp,fun _ _ => rfl⟩,⟨by simp,fun _ _ => rfl⟩⟩
    fun _ _ _ _ hso h he => Effect.feeBooks hso h he

/-- An accepted transaction reaches the signer and the ledger with its own fee exactly when its
fee is the one of the request. -/
def CarriedIff (p : Profile τ σ ρ) (rows : List (Aggregate τ)) (ledger : List LedgerRow)
    (log : Log π τ σ) (u : UnsignedTransaction σ) : Prop :=
  ∃ r ∈ rows, r.id = u.requestID ∧
    (∀ v ∈ log.handed, v.requestID = u.requestID → (v = u ↔ u.fee = p.fee r.terms)) ∧
    (r.status ∈ paid → (postedFee p.kind ledger u.requestID = u.fee.n ↔ u.fee = p.fee r.terms))

lemma Sound.carriedIff (h : Sound p Required rows log) (hf : FeesPosted p rows ledger)
    (hu : u ∈ log.accepted) : CarriedIff p rows ledger log u := by
  obtain ⟨r,hr,hid,hha⟩ := Sound.handed_eq h hu
  refine ⟨r,hr,hid,fun v hv hsame => ?_,fun hpa => ?_⟩
  · rw [hha v hv hsame]
    constructor
    · intro heq
      exact (congrArg UnsignedTransaction.fee heq).symm
    · intro heq
      rw [← heq]
  · rw [← hid,hf.stored r hr,feeOf,if_pos hpa,Amount.ext_iff]
    exact eq_comm

/-- In every run, for every transaction that was accepted from the builder: what is handed to the
signer is that transaction, and its fee is what the broadcast posts, exactly when its fee is the
network fee of the refund or the quoted fee of the sweep. -/
theorem accepted_fee_carried_iff (env : Environment) (core : Workers.World)
    (actions : List Action) : (∀ u ∈ (run (exec env) (start core) actions).refundLog.accepted,
      CarriedIff Refunds.profile (run (exec env) (start core) actions).db.refunds
        (run (exec env) (start core) actions).db.ledger
        (run (exec env) (start core) actions).refundLog u) ∧
    ∀ u ∈ (run (exec env) (start core) actions).sweepLog.accepted,
      CarriedIff Treasury.profile (run (exec env) (start core) actions).db.sweeps
        (run (exec env) (start core) actions).db.ledger
        (run (exec env) (start core) actions).sweepLog u := by
  have hso := run_systemSound env core actions
  have hbo := run_feeBooks env core actions
  exact ⟨fun u hu => Sound.carriedIff hso.refunds hbo.refunds hu,
    fun u hu => Sound.carriedIff hso.sweeps hbo.sweeps hu⟩

def samplePaid (fee : Amount) : System :=
  run (exec sampleEnvironment) (start Workers.sampleStart) (samplePayout fee)

theorem accepted_fee_carried_sample :
    CarriedIff Refunds.profile (samplePaid ⟨5,by decide⟩).db.refunds
      (samplePaid ⟨5,by decide⟩).db.ledger (samplePaid ⟨5,by decide⟩).refundLog
      (sampleBuilt ⟨5,by decide⟩) :=
  (accepted_fee_carried_iff sampleEnvironment Workers.sampleStart (samplePayout ⟨5,by decide⟩)).1
    (sampleBuilt ⟨5,by decide⟩) (by decide +kernel)

/-- A builder asks for 3 of the 5 units of the request: the signer gets a transaction at a fee of
5, and 5 units are posted. -/
theorem lower_fee_not_carried :
    sampleBuilt ⟨3,by decide⟩ ∈ (samplePaid ⟨3,by decide⟩).refundLog.accepted ∧
      (samplePaid ⟨3,by decide⟩).refundLog.handed = [sampleBuilt ⟨5,by decide⟩] ∧
      (samplePaid ⟨3,by decide⟩).db.refunds.map (·.status) = [.broadcast] ∧
      postedFee "refund" (samplePaid ⟨3,by decide⟩).db.ledger "refund-1" = 5 := by
  decide +kernel

end Ocrypt.CustodyFees
