import Ocrypt.RefundHistory

/-! A request for a refund that is sent again. `Service.Request` measures the amount against the
settlement before `Create` looks for the refund of an earlier request with the same key. -/
namespace Ocrypt.RefundReplays
open Money Fallible Table Store Custody Refunds FinancialStore RefundStore FinancialWorkers
  FinancialRuns RefundHistory Transactions

/-- `Service.Request` with the reads of the state `reads` and the `Create` in the state `s`. -/
def serviceRequest (env : Environment) (reads s : System) (now : ℤ) (identity : MutationIdentity)
    (c : RequestCommand) (ids : RequestIDs) : Except Refusal (FinancialDatabase × Refund × Bool) := do
  let (_,m) ← request env.refundHash (evidence reads.db reads.core.clock) now identity c ids
  createRefund s.core.db s.db s.core.clock m

def afterRequest (env : Environment) (reads s : System) (now : ℤ) (identity : MutationIdentity)
    (c : RequestCommand) (ids : RequestIDs) : System :=
  commit (exec env) s (.requestRefund (evidence reads.db reads.core.clock) now identity c ids)

/-- The row as `Settlement` returns it. -/
def view (x : SettlementRow) : Settlement :=
  ⟨x.id,x.tenantID,x.assetID,x.chainID,x.intentID,x.chainEventID,
    ⟨x.chainID,x.observedSender⟩,x.receivedAmount,x.refundedAmount,x.finalized,x.riskHold⟩

variable {db : FinancialDatabase} {x : SettlementRow} {p : Policy} {m : CreateMutation}
  {core : Database} {clock : ℤ} {r : Refund} {c : RequestCommand}

lemma settlement_eq_some {tenantID id : String} {s : Settlement}
    (h : settlement db tenantID id = some s) :
    ∃ x ∈ db.settlements, x.tenantID = tenantID ∧ x.id = id ∧ s = view x := by
  obtain ⟨x,hf,rfl⟩ := Option.map_eq_some_iff.mp h
  obtain ⟨hx,hte,hid⟩ := mem_of_find? hf
  exact ⟨x,hx,hte,hid,rfl⟩

lemma settlement_later {db db' : FinancialDatabase} (hst : Stored db') (hl : Later db db')
    (hx : x ∈ db.settlements) :
    ∃ y ∈ db'.settlements, entry y = entry x ∧ settlement db' x.tenantID x.id = some (view y) := by
  obtain ⟨y,hy,he⟩ := hl.settlements x hx
  obtain ⟨hid,hte,-⟩ := entry_fields he
  refine ⟨y,hy,he,?_⟩
  have hf := find?_unique (p := fun s : SettlementRow => s.tenantID = x.tenantID ∧ s.id = x.id)
    hy ⟨hte,hid⟩ fun s hs hk =>
      List.inj_on_of_nodup_map hst.settlementIDs hs hy (hk.2.trans hid.symm)
  simp only [settlement,hf]
  rfl

lemma availableRefundable_eq_ok (hf : x.finalized = !x.riskHold)
    (hh : x.riskHold = false) {available : Amount} : (view x).availableRefundable = .ok available ↔
      x.refundedAmount.n+available.n = x.receivedAmount.n := by
  have hsu : (view x).availableRefundable = .ok available ↔
      x.receivedAmount.sub x.refundedAmount = .ok available := by
    simp only [Settlement.availableRefundable,view,hf,hh]
    cases x.receivedAmount.sub x.refundedAmount <;> simp
  rw [hsu,Amount.sub_eq_ok]
  omega

lemma grossAmount_again {available left refundAmount networkFee gross : Amount}
    (h : grossAmount p available refundAmount networkFee = .ok gross) (again : Amount) :
    (refundAmount.n ≤ left.n ∧ grossAmount p left refundAmount networkFee = .ok again) ↔
      (gross.n ≤ left.n ∧ again = gross) := by
  unfold grossAmount at h ⊢
  split_ifs at h ⊢ with hbe
  · cases had : refundAmount.add networkFee with
    | error e => simp [had] at h
    | ok total =>
      simp only [had,do_ok,ne_eq,Amount.cmp_eq_gt,not_lt] at h ⊢
      obtain ⟨⟨-,hm⟩,rfl⟩ := h
      have hsu := Amount.add_eq_ok.mp had
      constructor
      · rintro ⟨-,⟨hl,-⟩,rfl⟩
        exact ⟨hl,rfl⟩
      · rintro ⟨hl,rfl⟩
        exact ⟨by omega,⟨hl,hm⟩,rfl⟩
  · cases h
    simp [eq_comm]

lemma createRefund_found (hk : (db.refunds.map fun r => (r.tenantID,r.idempotencyKey)).Nodup)
    (hr : r ∈ db.refunds) (hte : r.tenantID = m.refund.tenantID)
    (hke : r.idempotencyKey = m.refund.idempotencyKey) (hh : r.requestHash = m.refund.requestHash)
    (hco : m.refund.tenantID ≠ "" ∧ m.refund.id ≠ "" ∧ m.refund.terms.settlementID ≠ "" ∧
      m.refund.assetID ≠ "" ∧ m.refund.version = 1 ∧ m.audit.tenantID = m.refund.tenantID) :
    createRefund core db clock m = .ok (db,r,false) := by
  have hf := find?_unique (p := fun s : Refund => s.tenantID = m.refund.tenantID ∧
      s.idempotencyKey = m.refund.idempotencyKey) hr ⟨hte,hke⟩ fun s hs hsame =>
    List.inj_on_of_nodup_map hk hs hr
      (Prod.ext (hsame.1.trans hte.symm) (hsame.2.trans hke.symm))
  simp only [createRefund,require_pos hco,hf,require_pos hh]
  rfl

lemma admitted_again {reads again : System} {now now' : ℤ} {auth : AuthContext}
    {v : VerifiedDestination} {x y : SettlementRow}
    (h : Admitted (evidence reads.db reads.core.clock) now c (view x) p v)
    (he : entry y = entry x) (hse : settlement again.db x.tenantID x.id = some (view y))
    (hau : auth.authorize "treasury:refunds:create" now' "" = .ok ())
    (hpo : (evidence again.db again.core.clock).activePolicy c.tenantID x.assetID =
      (evidence reads.db reads.core.clock).activePolicy c.tenantID x.assetID)
    (hd : verifiedDestination again.db c.tenantID c.destinationVerificationID =
      verifiedDestination reads.db c.tenantID c.destinationVerificationID) (hu : v.IsUsable now') :
    Admitted (evidence again.db again.core.clock) now' { c with auth } (view y) p v := by
  obtain ⟨hid,hte,has,hch,-,hsn,-⟩ := entry_fields he
  have hsr := h.serves
  have hco := h.covers
  have ho := h.origin
  refine ⟨hau,h.complete,?_,?_,?_,h.valid,?_,hd.trans h.verified,?_,?_,h.amount,h.fee⟩
  · rw [← h.owned.1,← h.owned.2]
    exact hse
  · exact ⟨hte.trans h.owned.1,hid.trans h.owned.2⟩
  · have hr := h.policy
    simp only [view,has] at hr ⊢
    exact hpo.trans hr
  · simpa only [Policy.Covers,view,hte,has,hch] using hco
  · simp only [view,hte,hid,has,hch] at hsr ⊢
    exact ⟨hu,hsr.2⟩
  · simpa only [view,hch,hsn] using ho

lemma createRefund_complete {result : FinancialDatabase × Refund × Bool}
    (h : createRefund core db clock m = .ok result) :
    m.refund.tenantID ≠ "" ∧ m.refund.id ≠ "" ∧ m.refund.terms.settlementID ≠ "" ∧
      m.refund.assetID ≠ "" ∧ m.refund.version = 1 ∧ m.audit.tenantID = m.refund.tenantID := by
  simp only [createRefund,do_ok] at h
  exact h.1

lemma created_stays {env : Environment} {reads s t : System} {now : ℤ} {identity : MutationIdentity}
    {ids : RequestIDs} (hs : Reached s)
    (hce : (serviceRequest env reads s now identity c ids).map (·.2) = .ok (r,true))
    (hru : Reaches env (afterRequest env reads s now identity c ids) t) :
    ∃ p m, request env.refundHash (evidence reads.db reads.core.clock) now identity c ids =
        .ok (p,m) ∧ r = m.refund ∧ (r.tenantID ≠ "" ∧ r.terms.settlementID ≠ "" ∧ r.assetID ≠ "") ∧
      Reached t ∧ Later s.db t.db ∧ ∃ r' ∈ t.db.refunds, r'.toRequest = r.toRequest := by
  obtain ⟨⟨db,r',created⟩,hse,hpa⟩ := map_eq_ok.mp hce
  simp only [Prod.mk.injEq] at hpa
  obtain ⟨rfl,rfl⟩ := hpa
  simp only [serviceRequest,do_ok] at hse
  obtain ⟨⟨p,m⟩,hre,hst⟩ := hse
  obtain ⟨hte,-,hsl,has,-,-⟩ := createRefund_complete hst
  have he : exec env s (.requestRefund (evidence reads.db reads.core.clock) now identity c ids) =
      .ok { s with db, refundLog := s.refundLog.created p r' } := by
    simp [exec,hre,hst]
  have haf := hs.exec he
  rw [afterRequest,commit_of_ok he] at hru
  obtain ⟨ht,hl⟩ := haf.1.reaches hru
  rcases createRefund_eq_ok hst with ⟨hf,-⟩ | ⟨-,rfl,hcr⟩
  · cases hf
  · have hme : m.refund ∈ db.refunds := by
      rw [hcr.written]
      exact List.mem_concat_self
    exact ⟨p,m,hre,rfl,⟨hte,hsl,has⟩,ht,haf.2.trans hl, hl.refunds m.refund hme⟩

/-- After a request has created a refund, an identical one returns that refund and changes
nothing, in any later state with the same policy and destination and without a hold, exactly
when the settlement could bear the refund once more. -/
theorem request_replays_iff {env : Environment} {core : Workers.World} {s₀ s₁ s₂ s₃ : System}
    {now later : ℤ} {identity : MutationIdentity} {c : RequestCommand} {ids ids' : RequestIDs}
    {auth : AuthContext} {r : Refund} (h₀ : Reaches env (start core) s₀) (h₁ : Reaches env s₀ s₁)
    (hcreate : (serviceRequest env s₀ s₁ now identity c ids).map (·.2) = .ok (r,true))
    (h₂ : Reaches env (afterRequest env s₀ s₁ now identity c ids) s₂) (h₃ : Reaches env s₂ s₃)
    (hauth : auth.authorize "treasury:refunds:create" later "" = .ok ()) (hids : ids'.refund ≠ "")
    (hpolicy : (evidence s₂.db s₂.core.clock).activePolicy r.tenantID r.assetID =
      (evidence s₀.db s₀.core.clock).activePolicy r.tenantID r.assetID)
    (hdestination : verifiedDestination s₂.db c.tenantID c.destinationVerificationID =
      verifiedDestination s₀.db c.tenantID c.destinationVerificationID)
    (husable : ∀ v, verifiedDestination s₂.db c.tenantID c.destinationVerificationID = some v →
      v.IsUsable later)
    (hhold : ∀ x ∈ s₂.db.settlements, x.tenantID = r.tenantID → x.id = r.terms.settlementID →
      x.riskHold = false) : (∃ again, serviceRequest env s₂ s₃ later identity { c with auth } ids' =
        .ok (s₃.db,again,false) ∧ again.id = r.id) ↔ ∃ x ∈ s₂.db.settlements, Bears x r := by
  have hre₀ := ((reached_start core).reaches h₀).1
  obtain ⟨hre₁,hl₁⟩ := hre₀.reaches h₁
  obtain ⟨p,m,hrq,rfl,hco,hre₂,hl₂,r₂,hr₂,hk₂⟩ :=
    created_stays hre₁ hcreate h₂
  obtain ⟨hre₃,hl₃⟩ := hre₂.reaches h₃
  obtain ⟨r₃,hr₃,hk₃⟩ := hl₃.refunds r₂ hr₂
  have hk := hk₃.trans hk₂
  obtain ⟨settled,v,available,gross,had,-,-,hg,rfl⟩ := request_eq_ok.mp hrq
  obtain ⟨x,hx,hte,hid,rfl⟩ := settlement_eq_some had.settlement
  -- the settlement as the later request reads it
  obtain ⟨y,hy,he,hra⟩ := settlement_later hre₂.stored (hl₁.trans hl₂) hx
  obtain ⟨hyi,hyt,hya,hyc,-,-,-⟩ := entry_fields he
  have hfr : y.riskHold = false := hhold y hy (hyt.trans hte) hyi
  have hag := admitted_again had he hra hauth hpolicy hdestination
    (husable v (hdestination.trans had.verified))
  have hle : ∀ left, (view y).availableRefundable = .ok left ↔
      y.refundedAmount.n+left.n = y.receivedAmount.n :=
    fun left => availableRefundable_eq_ok (hre₂.stored.finalized y hy) hfr
  constructor
  · rintro ⟨again,hse,-⟩
    simp only [serviceRequest,do_eq_ok] at hse
    obtain ⟨⟨p',m'⟩,hrq',-⟩ := hse
    obtain ⟨settled',v',left,gross',had',hle',ham,hg',-⟩ :=
      request_eq_ok.mp hrq'
    have hst : settled' = view y :=
      Option.some.inj (had'.settlement.symm.trans hag.settlement)
    subst hst
    have hp : p' = p := Option.some.inj (had'.policy.symm.trans hag.policy)
    subst hp
    obtain ⟨hf,-⟩ := (grossAmount_again hg gross').mp ⟨ham,hg'⟩
    have hrs := (hle left).mp hle'
    have hbe : y.refundedAmount.n+gross.n ≤ y.receivedAmount.n := by omega
    exact ⟨y,hy,hyt.trans hte,hyi,hbe⟩
  · rintro ⟨z,hz,-,hzi,hbe⟩
    have hzy : z = y :=
      List.inj_on_of_nodup_map hre₂.stored.settlementIDs hz hy (hzi.trans hyi.symm)
    subst hzy
    have hbo : z.receivedAmount.n - z.refundedAmount.n < 2^256 :=
      lt_of_le_of_lt (Nat.sub_le _ _) z.receivedAmount.fits
    have hbe' : z.refundedAmount.n+gross.n ≤ z.receivedAmount.n := hbe
    obtain ⟨left,hrs⟩ : ∃ left : Amount, z.refundedAmount.n+left.n = z.receivedAmount.n :=
      ⟨⟨_,hbo⟩,by dsimp only; omega⟩
    have hf : gross.n ≤ left.n := by omega
    obtain ⟨ham,hg'⟩ := (grossAmount_again hg gross).mpr ⟨hf,rfl⟩
    have hrq' : request env.refundHash (evidence s₂.db s₂.core.clock) later identity
        { c with auth } ids' = .ok (p,_) := request_eq_ok.mpr
      ⟨view z,v,left,gross,hag,(hle left).mpr hrs,ham,hg',rfl⟩
    have hte₃ : r₃.tenantID = c.tenantID := congrArg Request.tenantID hk
    have hke₃ : r₃.idempotencyKey = c.idempotencyKey := congrArg Request.idempotencyKey hk
    refine ⟨r₃,?_,congrArg Request.id hk⟩
    simp only [serviceRequest,hrq']
    apply createRefund_found hre₃.stored.refundKeys hr₃ hte₃ hke₃
    · refine (congrArg Request.requestHash hk).trans ?_
      simp [creation,requested,view,hyi]
    · refine ⟨hco.1,hids,?_,?_,rfl,rfl⟩
      · exact fun hbl => hco.2.1 (hyi.symm.trans hbl)
      · exact fun hbl => hco.2.2 (hya.symm.trans hbl)

def sampleBefore : System := run (exec sampleEnvironment) (start Workers.sampleStart) sampleSettled

def sampleAfter : System :=
  afterRequest sampleEnvironment sampleBefore sampleBefore sampleNow {} sampleCommand
    ⟨"refund-1","posting-1"⟩

lemma sampleAfter_facts :
    (serviceRequest sampleEnvironment sampleBefore sampleBefore sampleNow {} sampleCommand
        ⟨"refund-1","posting-1"⟩).map (·.2) = .ok (sampleRequested,true) ∧
      (evidence sampleAfter.db sampleAfter.core.clock).activePolicy "tenant" "usdt" =
        (evidence sampleBefore.db sampleBefore.core.clock).activePolicy "tenant" "usdt" ∧
      verifiedDestination sampleAfter.db "tenant" "destination" =
        verifiedDestination sampleBefore.db "tenant" "destination" ∧
      (∀ v ∈ verifiedDestination sampleAfter.db "tenant" "destination", v.IsUsable (sampleNow+1)) ∧
      (∀ x ∈ sampleAfter.db.settlements, x.tenantID = "tenant" → x.id = "match-1" →
        x.riskHold = false) ∧ ∃ x ∈ sampleAfter.db.settlements, Bears x sampleRequested := by
  decide +kernel

theorem request_replays_sample :
    ∃ again, serviceRequest sampleEnvironment sampleAfter sampleAfter (sampleNow+1) {}
        { sampleCommand with auth := sampleAuth "alice" } ⟨"refund-2","posting-2"⟩ =
          .ok (sampleAfter.db,again,false) ∧ again.id = "refund-1" := by
  obtain ⟨hcr,hp,hd,hu,hh,hba⟩ := sampleAfter_facts
  have hbe : Reaches sampleEnvironment (start Workers.sampleStart) sampleBefore :=
    ⟨sampleSettled,rfl⟩
  have hsame : Reaches sampleEnvironment sampleBefore sampleBefore := ⟨[],run_nil.symm⟩
  have haf : Reaches sampleEnvironment sampleAfter sampleAfter := ⟨[],run_nil.symm⟩
  exact (request_replays_iff hbe hsame hcr haf haf (by decide) (by decide) hp
    hd hu hh).mpr hba

def sampleFinalized : List Action :=
  let broadcast := ((sampleApproved.prepared (sampleBuilt 5) sampleNow).withSignature
    sampleSignature sampleNow).withReceipt ⟨"signed","transaction"⟩ sampleNow
  let workload : WorkloadContext := ⟨"observer",[Refunds.profile.permission "observe"]⟩
  samplePayout 5 ++
    [.refund (.recordChainResult sampleNow ⟨"tenant","refund-1",5,"transaction",.confirmed,
      "evidence",workload⟩) broadcast none ⟨"posting-6",""⟩,
    .refund (.recordChainResult sampleNow ⟨"tenant","refund-1",6,"transaction",.finalized,
      "evidence",workload⟩) (broadcast.step .confirmed sampleNow) none ⟨"posting-7",""⟩]

/-- 60 of 100 units are refunded: the request of that refund, sent again, is refused. -/
theorem finalized_refund_refused :
    (run (exec sampleEnvironment) (start Workers.sampleStart) sampleFinalized).db.refunds.map
        (·.status) = [.finalized] ∧ (serviceRequest sampleEnvironment
        (run (exec sampleEnvironment) (start Workers.sampleStart) sampleFinalized)
        (run (exec sampleEnvironment) (start Workers.sampleStart) sampleFinalized) sampleNow {}
        sampleCommand ⟨"refund-2","posting-8"⟩).map (·.2) = .error ⟨.policyLimit,""⟩ := by
  decide +kernel

end Ocrypt.RefundReplays
