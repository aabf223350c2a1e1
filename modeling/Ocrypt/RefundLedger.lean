import Ocrypt.CustodyFees

/-! The sub-ledger of a refund: what its postings add up to on each account, along its whole
lifecycle. -/
namespace Ocrypt.RefundLedger
open Money Custody Refunds FinancialStore RefundStore FinancialWorkers FinancialRuns
  FinancialEffects CustodyFees
  Transactions Fallible List

def moved (debit credit : String) (amount : Amount) (account : String) : ℤ :=
  (if credit = account then (amount.n : ℤ) else 0) - if debit = account then (amount.n : ℤ) else 0

lemma moved_trans (a b c : String) (x : Amount) (account : String) :
    moved a b x account+moved b c x account = moved a c x account := by
  unfold moved
  ring

lemma moved_back (a b : String) (x : Amount) (account : String) :
    moved a b x account+moved b a x account = 0 := by
  rw [moved_trans]
  exact sub_self _

def contribution (ledger : List LedgerRow) (id account : String) : ℤ :=
  ((ledger.filter fun l => l.aggregateType = "refund" ∧ l.aggregateID = id).map fun l =>
    moved l.debitAccountID l.creditAccountID l.amount account).sum

lemma contribution_append (a b : List LedgerRow) (id : String) :
    contribution (a ++ b) id = contribution a id+contribution b id := by
  funext account
  simp [contribution]

lemma contribution_other {ledger : List LedgerRow} {id : String}
    (h : ∀ l ∈ ledger, l.aggregateType = "refund" → l.aggregateID ≠ id) :
    contribution ledger id = 0 := by
  have hn : (ledger.filter fun l => l.aggregateType = "refund" ∧ l.aggregateID = id) = [] :=
    filter_eq_nil_iff.mpr (by simpa using h)
  funext account
  rw [contribution,hn]
  rfl

lemma contribution_singleton {l : LedgerRow} (h : l.aggregateType = "refund") (account : String) :
    contribution [l] l.aggregateID account =
      moved l.debitAccountID l.creditAccountID l.amount account := by
  rw [contribution,filter_cons_of_pos (by simpa using h),filter_nil,map_singleton,
    sum_singleton]

def reservedAccount (r : Refund) : String := "refund_reserved:" ++ r.id

def refundableAccount (r : Refund) : String := "settlement_refundable:" ++ r.terms.settlementID

section
variable (r : Refund) (account : String)

def reserve : ℤ := moved (refundableAccount r) (reservedAccount r) r.terms.grossAmount account

def payout : ℤ :=
  moved (reservedAccount r) "refund_in_transit" r.terms.refundAmount account +
    moved (if r.terms.feeBearer = .customer then reservedAccount r else "network_fee_expense")
      "network_fee_spent" r.terms.networkFee account

def booked : Status → ℤ
  | .cancelled => 0
  | .broadcast | .confirmed => reserve r account+payout r account
  | .finalized => reserve r account+payout r account +
      moved "refund_in_transit" "refund_completed" r.terms.refundAmount account
  | .reorged => reserve r account+payout r account +
      moved "refund_in_transit" "refund_reorg_review" r.terms.refundAmount account
  | .failed => reserve r account+payout r account +
      moved "refund_in_transit" "refund_failed_review" r.terms.refundAmount account
  | _ => reserve r account

end

lemma contribution_postings (r : Refund) (status : Status) (ids : PostingIDs) (now : ℤ)
    (account : String) :
    contribution ((postings r status ids now).map fun l => ⟨l,"refund"⟩) r.id account =
      ((postings r status ids now).map fun l =>
        moved l.debitAccountID l.creditAccountID l.amount account).sum := by
  have ho := Refunds.profile_lawful.postings r status ids now
  have hal : ((postings r status ids now).map fun l => (⟨l,"refund"⟩ : LedgerRow)).filter
      (fun l => l.aggregateType = "refund" ∧ l.aggregateID = r.id) =
      (postings r status ids now).map fun l => ⟨l,"refund"⟩ := by
    refine filter_eq_self.mpr fun l hl => ?_
    obtain ⟨c,hc,rfl⟩ := mem_map.mp hl
    simpa using ho c hc
  rw [contribution,hal,map_map]
  rfl

variable {r s : Refund} {hash : RequestFacts → String} {identity : MutationIdentity}
  {evidence : Evidence} {c : RequestCommand} {m : CreateMutation} {ids : RequestIDs}
  {policy : Policy} {now : ℤ}

lemma booked_broadcast (r : Refund) (ids : PostingIDs) (now : ℤ) (account : String) :
    ((postings r .broadcast ids now).map fun l =>
      moved l.debitAccountID l.creditAccountID l.amount account).sum = payout r account := by
  by_cases hz : r.terms.networkFee.isZero = true
  · have hf : ∀ debit, moved debit "network_fee_spent" r.terms.networkFee account = 0 := by
      unfold moved
      rw [Amount.isZero_iff.mp hz]
      simp
    rw [postings,if_pos hz,map_singleton,sum_singleton,payout,hf,add_zero]
    rfl
  · rw [postings,if_neg hz,map_cons,map_singleton,sum_cons,sum_singleton]
    rfl

lemma booked_move (h : Moves r s) (ids : PostingIDs) (now : ℤ) (account : String) :
    booked r account s.status = booked r account r.status +
      ((postings r s.status ids now).map fun l =>
        moved l.debitAccountID l.creditAccountID l.amount account).sum := by
  have hst := statuses_of_move h
  generalize s.status = next at hst ⊢
  simp only [transitions,mem_cons,not_mem_nil,or_false,Prod.mk.injEq] at hst
  have hn : ∀ status, booked r account status = booked r account status+0 := fun _ =>
    (add_zero _).symm
  have hba := moved_back (refundableAccount r) (reservedAccount r) r.terms.grossAmount account
  rcases hst with h | h | h | h | h | h | h | h | h | h | h | h | h <;>
    obtain ⟨hsa,rfl⟩ := h <;> rw [hsa]
  -- approved, cancelled in three ways, prepared, signed and broadcast
  · exact hn .approved
  · exact hba.symm.trans (congrArg (reserve r account + ·) sum_singleton.symm)
  · exact hba.symm.trans (congrArg (reserve r account + ·) sum_singleton.symm)
  · exact hba.symm.trans (congrArg (reserve r account + ·) sum_singleton.symm)
  · exact hn .approved
  · exact hn .signed
  · rw [booked_broadcast]
    rfl
  -- the chain results
  · exact hn .broadcast
  · exact congrArg (booked r account .confirmed + ·) sum_singleton.symm
  · rw [postings,hsa]
    exact congrArg (booked r account .broadcast + ·) sum_singleton.symm
  · rw [postings,hsa]
    exact congrArg (booked r account .confirmed + ·) sum_singleton.symm
  · rw [postings,hsa,if_pos rfl,map_singleton,sum_singleton,booked,booked,
      add_assoc _ (moved _ _ _ _),moved_trans]
  · exact congrArg (booked r account .broadcast + ·) sum_singleton.symm

lemma booked_congr (h : s.toRequest = r.toRequest) (account : String)
    (status : Status) : booked s account status = booked r account status := by
  have hid : s.id = r.id := congrArg Request.id h
  have hte : s.terms = r.terms := congrArg Request.terms h
  have hre : reserve s account = reserve r account := by
    unfold reserve refundableAccount reservedAccount
    rw [hid,hte]
  have hp : payout s account = payout r account := by
    unfold payout reservedAccount
    rw [hid,hte]
  cases status <;> unfold booked <;> try rw [hre,hp,hte]

/-- Each refund has posted what its status stands for, and its gross amount covers the fee of a
customer. -/
structure Books (db : FinancialDatabase) : Prop where
  posted : Posted contribution (fun (r : Refund) account => booked r account r.status) db.refunds
    db.ledger
  gross : ∀ r ∈ db.refunds, r.terms.grossAmount.n = r.terms.refundAmount.n +
    if r.terms.feeBearer = .customer then r.terms.networkFee.n else 0

lemma gross_of_request (h : request hash evidence now identity c ids = .ok (policy,m)) :
    m.refund.terms.grossAmount.n = m.refund.terms.refundAmount.n +
      if m.refund.terms.feeBearer = .customer then m.refund.terms.networkFee.n else 0 := by
  obtain ⟨s,v,available,gross,-,-,-,hg,rfl⟩ := request_eq_ok.mp h
  change gross.n = c.refundAmount.n+if policy.feeBearer = .customer then c.networkFee.n else 0
  unfold grossAmount at hg
  split_ifs at hg ⊢ with hcu
  · split at hg
    · next sum hsu =>
      simp only [do_ok] at hg
      rw [← hg.2,Amount.add_eq_ok.mp hsu]
    · cases hg
  · rw [← Except.ok.inj hg,Nat.add_zero]

lemma posted_of_request (h : request hash evidence now identity c ids = .ok (policy,m)) :
    contribution (m.ledger.map fun l => ⟨l,"refund"⟩) m.refund.id =
      (fun account => booked m.refund account m.refund.status) ∧
      ∀ l ∈ m.ledger, l.aggregateID = m.refund.id := by
  have hst := (request_status h).1
  obtain ⟨s,v,available,gross,-,-,-,-,rfl⟩ := request_eq_ok.mp h
  refine ⟨?_,by simp [creation]⟩
  funext account
  rw [hst]
  have hbo : ∀ p : Prop, [Decidable p] → ∀ r : Refund,
      booked r account (if p then .approvalRequired else .approved) = reserve r account := by
    intro p _ r
    split_ifs <;> rfl
  rw [hbo]
  exact contribution_singleton rfl account

lemma Effect.books {env : Environment} {s : System} {a : Action} {core : Workers.World}
    {db : FinancialDatabase} (hso : SystemSound s) (h : Books s.db)
    (he : Effect env s a core db) : Books db := by
  obtain ⟨hp,hg⟩ := h
  cases he with
  | core hco => exact ⟨hp,hg⟩
  | configured hdb =>
    rw [hdb]
    exact ⟨hp,hg⟩
  | synced hsy =>
    rw [syncSettlements_frame hsy]
    exact ⟨hp,hg⟩
  | @refundCreated _ _ _ _ _ _ m _ hre hcr =>
    obtain ⟨hrs,ho⟩ := posted_of_request hre
    rw [hcr.written]
    refine ⟨hp.created contribution_append (fun s hs => (hcr.fresh s hs).1) hrs
      fun id hne => contribution_other fun l hl _ => ?_,
      Table.forall_snoc hg (gross_of_request hre)⟩
    obtain ⟨c,hc,rfl⟩ := mem_map.mp hl
    exact fun hid => hne ((ho c hc).symm.trans hid)
  | sweepCreated hre hcr =>
    rw [hcr.written]
    exact ⟨hp,hg⟩
  | @refundUpdated m current _ hpl hu =>
    obtain ⟨ids,now,hle⟩ := hpl.ledger
    have hk := hpl.moves.keeps.1
    have hte := congrArg Request.terms hk
    rw [hu.written]
    refine ⟨hp.updated contribution_append hpl hu.stored
      (fun r hr hid => hso.refunds.coherent.eq_of_key hr hu.stored hid) hu.atVersion
      ?_ fun id hne => contribution_other fun l hl _ => ?_,fun r hr => ?_⟩
    · funext account
      rw [hle,booked_congr hk,booked_move hpl.moves ids now,← contribution_postings]
      rfl
    · obtain ⟨c,hc,rfl⟩ := mem_map.mp hl
      rw [hle] at hc
      exact fun hid => hne ((Refunds.profile_lawful.postings _ _ _ _ c hc).symm.trans hid)
    · rcases Table.mem_update_iff.mp hr with ⟨hr,-⟩ | ⟨-,-,-,rfl⟩
      · exact hg r hr
      · rw [hte]
        exact hg current hu.stored
  | sweepUpdated hpl hu =>
    rw [hu.written]
    refine ⟨hp.append contribution_append fun id => contribution_other fun l hl hty => ?_,
      hg⟩
    obtain ⟨c,-,rfl⟩ := mem_map.mp hl
    simp at hty

/-- What the postings of a refund leave on its accounts, by its status. -/
structure Balances (r : Refund) (balance : String → ℤ) : Prop where
  reserved : balance (reservedAccount r) =
    if r.status ∈ paid ∨ r.status = .cancelled then 0 else (r.terms.grossAmount.n : ℤ)
  refundable : balance (refundableAccount r) =
    if r.status = .cancelled then 0 else -(r.terms.grossAmount.n : ℤ)
  inTransit : balance "refund_in_transit" =
    if r.status = .broadcast ∨ r.status = .confirmed then (r.terms.refundAmount.n : ℤ) else 0
  completed : balance "refund_completed" =
    if r.status = .finalized then (r.terms.refundAmount.n : ℤ) else 0
  reorgReview : balance "refund_reorg_review" =
    if r.status = .reorged then (r.terms.refundAmount.n : ℤ) else 0
  failedReview : balance "refund_failed_review" =
    if r.status = .failed then (r.terms.refundAmount.n : ℤ) else 0

structure Lifecycle (r : Refund) (balance : String → ℤ) : Prop extends Balances r balance where
  nonneg : ∀ account ∈ [reservedAccount r, "refund_in_transit", "refund_completed",
    "refund_reorg_review", "refund_failed_review"], 0 ≤ balance account

lemma Balances.lifecycle {r : Refund} {balance : String → ℤ} (h : Balances r balance) :
    Lifecycle r balance := by
  refine ⟨h,fun account hac => ?_⟩
  simp only [mem_cons,not_mem_nil,or_false] at hac
  rcases hac with rfl | rfl | rfl | rfl | rfl
  · rw [h.reserved]
    split_ifs <;> positivity
  · rw [h.inTransit]
    split_ifs <;> positivity
  · rw [h.completed]
    split_ifs <;> positivity
  · rw [h.reorgReview]
    split_ifs <;> positivity
  · rw [h.failedReview]
    split_ifs <;> positivity

lemma take_name {name : String} {n : ℕ} (h : n ≤ name.toList.length) (x : String) :
    (name ++ x).toList.take n = name.toList.take n := by
  rw [String.toList_append,take_append_of_le_length h]

lemma accounts_nodup (r : Refund) : [reservedAccount r,refundableAccount r, "refund_in_transit",
    "refund_completed", "refund_reorg_review", "refund_failed_review", "network_fee_expense",
    "network_fee_spent"].Nodup := by
  have hrs : (reservedAccount r).toList.take 14 = _ := take_name (by decide +kernel) r.id
  have hre : (refundableAccount r).toList.take 14 = _ :=
    take_name (by decide +kernel) r.terms.settlementID
  refine List.Nodup.of_map (fun account : String => account.toList.take 14) ?_
  simp only [map_cons,hrs,hre]
  decide +kernel

lemma balances_booked {r : Refund} (hg : r.terms.grossAmount.n = r.terms.refundAmount.n +
    if r.terms.feeBearer = .customer then r.terms.networkFee.n else 0) :
    Balances r fun account => booked r account r.status := by
  have hn := accounts_nodup r
  constructor
  all_goals
    simp only [booked,reserve,payout,moved]
    -- only that the accounts differ matters, not their names
    cases r.status <;> grind [paid]

/-- Whatever the merchants, the operators and the workers do, the postings of a refund follow its
status. -/
theorem refund_ledger_follows_status (env : Environment) (core : Workers.World)
    (actions : List Action) (r : Refund)
    (hr : r ∈ (run (exec env) (start core) actions).db.refunds) :
    Lifecycle r (contribution (run (exec env) (start core) actions).db.ledger r.id) := by
  have hbo : Books (run (exec env) (start core) actions).db :=
    run_tables (I := fun _ db => Books db) ⟨⟨by simp,fun _ _ => rfl⟩,by simp⟩
      fun _ _ _ _ hso h he => Effect.books hso h he
  rw [hbo.posted.stored r hr]
  exact (balances_booked (hbo.gross r hr)).lifecycle

theorem refund_ledger_follows_status_sample :
    ∃ r ∈ (samplePaid ⟨5,by decide⟩).db.refunds, r.status = .broadcast ∧
      Lifecycle r (contribution (samplePaid ⟨5,by decide⟩).db.ledger r.id) := by
  have hp : ∃ r ∈ (samplePaid ⟨5,by decide⟩).db.refunds, r.status = .broadcast := by
    decide +kernel
  obtain ⟨r,hr,hst⟩ := hp
  exact ⟨r,hr,hst,refund_ledger_follows_status sampleEnvironment Workers.sampleStart
    (samplePayout ⟨5,by decide⟩) r hr⟩

end Ocrypt.RefundLedger
