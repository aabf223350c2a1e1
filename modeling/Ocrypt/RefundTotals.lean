import Ocrypt.FundedMatches
import Ocrypt.RefundCapacity

/-! What is refunded of one transfer. A tenant has at most one settlement for a transfer, so its
refunds stay within the transfer; a transfer that returns after a reorganisation can settle an
invoice of another tenant, whose settlement counts from zero. -/
namespace Ocrypt.RefundTotals
open Money Domain Table Store Refunds FinancialStore RefundStore FinancialWorkers
  FinancialRuns FinancialEffects RefundHistory RefundCapacity FundedMatches Transactions
  BalancedRuns List

/-- The refund is finalized or holds a reservation that is not released, against a settlement of
the transfer. -/
def Counted (db : FinancialDatabase) (eventID : String) (r : Refund) : Prop :=
  (r.status = .finalized ∨ ∃ x ∈ db.reservations, x.tenantID = r.tenantID ∧ x.refundID = r.id ∧
    x.releasedAt = none) ∧
  ∃ s ∈ db.settlements, s.tenantID = r.tenantID ∧ s.id = r.terms.settlementID ∧
    s.chainEventID = eventID

instance (db : FinancialDatabase) (eventID : String) : DecidablePred (Counted db eventID) :=
  fun _ => inferInstanceAs (Decidable (_ ∧ _))

def refundedTotal (db : FinancialDatabase) (eventID : String) : ℕ :=
  ((db.refunds.filter (Counted db eventID)).map fun r => r.terms.grossAmount.n).sum

structure Backing (core : Workers.World) (db : FinancialDatabase) : Prop where
  funded : Funded core
  settlements : ∀ s ∈ db.settlements, ∃ t ∈ facts core.db,
    t.id = s.chainEventID ∧ t.amount = s.receivedAmount

variable {x : PaymentMatch × TransferEvent} {tenantID : String} {core : Database}

lemma mem_refundable (h : x ∈ refundable core tenantID) :
    x.1 ∈ core.paymentMatches ∧ x.1.source = .transfer x.2.id ∧ x.1.tenantID = tenantID := by
  obtain ⟨m,hm,hx⟩ := mem_filterMap.mp h
  unfold eventOf at hx
  cases hso : m.source with
  | provider id => simp [hso] at hx
  | transfer id =>
    cases hf : core.transferEvents.find? fun e => e.id = id with
    | none => simp [hso,hf] at hx
    | some e =>
      simp only [hso,hf,Option.ite_none_right_eq_some,Option.some.injEq] at hx
      obtain ⟨hco,rfl⟩ := hx
      have hid : e.id = id := (mem_of_find? hf).2
      exact ⟨hm,by rw [hso,hid],hco.1⟩

lemma mem_selected {createdAt : String → ℤ} {limit : ℤ} (h : x ∈ selected createdAt core tenantID limit) :
    x.1 ∈ core.paymentMatches ∧ x.1.source = .transfer x.2.id ∧ x.1.tenantID = tenantID :=
  mem_refundable (mem_mergeSort.mp (mem_of_mem_take h))

variable {env : Environment} {s : System} {a : Action} {db : FinancialDatabase}

section
variable {core : Workers.World}

lemma Effect.backing (h : Backing s.core s.db) (hef : Effect env s a core db) :
    Backing core db := by
  cases hef with
  | core hco =>
    obtain ⟨hf,hk⟩ := h.funded.step hco
    refine ⟨hf,fun x hx => ?_⟩
    obtain ⟨t,ht,hid,ham⟩ := h.settlements x hx
    exact ⟨t,hk ht,hid,ham⟩
  | configured hdb =>
    rw [hdb]
    exact ⟨h.funded,h.settlements⟩
  | synced hsy =>
    refine ⟨h.funded,syncSettlements_keeps (P := fun rows => ∀ x ∈ rows, ∃ t ∈ facts s.core.db,
      t.id = x.chainEventID ∧ t.amount = x.receivedAmount) h.settlements ?_ ?_ hsy⟩
    · intro rows rows' e he hr hst
      rcases upsertSettlement_eq_ok hst with rfl | ⟨rfl,-⟩
      · exact forall_update hr fun _ _ _ hx => hx
      · obtain ⟨hm,hso,-⟩ := mem_selected he
        obtain ⟨t,ht,hid,hre⟩ := h.funded.backed e.1 hm e.2.id hso
        exact forall_snoc hr ⟨t,ht,hid,hre.symm⟩
    · intro rows stale hr
      exact forall_update hr fun _ _ _ hx => hx
  | refundCreated hrq hcr | sweepCreated hrq hcr =>
    rw [hcr.written]
    exact ⟨h.funded,h.settlements⟩
  | refundUpdated hp hu =>
    refine ⟨h.funded,?_⟩
    rcases updated_settlements hu with hsame | ⟨-,-,hch⟩
    · rw [hsame]
      exact h.settlements
    · rw [hch]
      exact forall_update h.settlements fun _ _ _ hx => hx
  | sweepUpdated hp hu =>
    rw [hu.written]
    exact ⟨h.funded,h.settlements⟩

end

def OneTenant (env : Environment) (s : System) : Action → Prop
  | .syncSettlements tenantID limit =>
    ∀ x ∈ selected env.createdAt s.core.db tenantID limit, ∀ y ∈ s.db.settlements,
      y.chainEventID = x.2.id → y.tenantID = tenantID
  | _ => True

instance (env : Environment) (s : System) (a : Action) : Decidable (OneTenant env s a) :=
  match a with
  | .syncSettlements .. => inferInstanceAs (Decidable (∀ x ∈ _, ∀ y ∈ _, _ → _))
  | .core _ | .setPolicies .. | .setDestinations _ | .acquireLease .. | .requestRefund ..
  | .requestSweep .. | .refund .. | .sweep .. => inferInstanceAs (Decidable True)

section
variable {core : Workers.World}

lemma Effect.entries (he : Effect env s a core db) :
    (∃ tenantID limit r, a = .syncSettlements tenantID limit ∧ db = r.1 ∧
      syncSettlements env.createdAt s.core.db s.db tenantID limit s.core.clock = .ok r) ∨
    db.settlements.map entry = s.db.settlements.map entry := by
  cases he with
  | core hco => exact .inr rfl
  | configured hdb => exact .inr (by rw [hdb])
  | synced hsy hac => exact .inl ⟨_,_,_,hac,rfl,hsy⟩
  | refundCreated hre hcr | sweepCreated hre hcr =>
    exact .inr (by rw [congrArg FinancialDatabase.settlements hcr.written])
  | refundUpdated hp hu =>
    rcases updated_settlements hu with hsame | ⟨-,-,hch⟩
    · exact .inr (congrArg (List.map entry) hsame)
    · refine .inr ((congrArg (List.map entry) hch).trans ?_)
      exact map_update fun _ _ _ => rfl
  | sweepUpdated hp hu =>
    exact .inr (by rw [congrArg FinancialDatabase.settlements hu.written])

def OneEach (rows : List SettlementRow) : Prop := (rows.map (·.chainEventID)).Nodup

lemma OneEach.of_events {rows rows' : List SettlementRow} (h : OneEach rows)
    (he : rows'.map (·.chainEventID) = rows.map (·.chainEventID)) : OneEach rows' := by
  unfold OneEach
  rw [he]
  exact h

lemma OneEach.step (h : OneEach s.db.settlements) (ho : OneTenant env s a)
    (hef : Effect env s a core db) : OneEach db.settlements := by
  rcases Effect.entries hef with ⟨tenantID,limit,r,rfl,rfl,hsy⟩ | hsame
  · have hro := syncSettlements_keeps (P := fun rows => OneEach rows ∧
      ∀ y ∈ rows, ∀ x ∈ selected env.createdAt s.core.db tenantID limit,
        y.chainEventID = x.2.id → y.tenantID = tenantID) ⟨h,fun y hy x hx => ho x hx y hy⟩ ?_ ?_ hsy
    · exact hro.1
    · intro rows rows' e he hro hst
      obtain ⟨-,-,hte⟩ := mem_selected he
      rcases upsertSettlement_eq_ok hst with rfl | ⟨rfl,-,hf⟩
      · exact ⟨hro.1.of_events (map_update fun _ _ _ => rfl),
          forall_update hro.2 fun _ _ _ hy => hy⟩
      · refine ⟨nodup_map_append hro.1 fun y hy hev => ?_,forall_snoc hro.2 fun _ _ _ => hte⟩
        have hy' := hro.2 y hy e he hev
        exact hf y hy (hy'.trans hte.symm) hev
    · intro rows stale hro
      exact ⟨hro.1.of_events (map_update fun _ _ _ => rfl), forall_update hro.2 fun _ _ _ hy => hy⟩
  · apply h.of_events
    have hee := congrArg (List.map fun y : SettlementRow => y.chainEventID) hsame
    simpa only [map_map,Function.comp_def,entry] using hee

end

/-- What holds in every state of a run with one tenant for each transfer. -/
structure Bounded (s : System) : Prop where
  reached : Reached s
  capacity : Capacity s.db
  backing : Backing s.core s.db
  oneEach : OneEach s.db.settlements

/-- One transaction keeps the refunds of each transfer bounded. -/
lemma Bounded.step {s' : System} (h : Bounded s)
    (ho : OneTenant env s a) (hee : exec env s a = .ok s') : Bounded s' := by
  have he := (exec_sound h.reached.sound hee).2
  exact ⟨(h.reached.exec hee).1, Effect.capacity h.reached.sound h.reached.stored h.capacity he,
    Effect.backing h.backing he,h.oneEach.step ho he⟩

lemma counted_le (h : Bounded s) {eventID : String} {y : SettlementRow}
    (hy : y ∈ s.db.settlements) (he : y.chainEventID = eventID) :
    refundedTotal s.db eventID ≤ load s.db.reservations y.tenantID y.id := by
  have hsu : refundedTotal s.db eventID = (s.db.refunds.map fun r =>
      if Counted s.db eventID r then r.terms.grossAmount.n else 0).sum := by
    rw [refundedTotal,sum_map_ite]
    simp
  have hi : (s.db.reservations.map (·.refundID)).Nodup := by
    have hsame := forall₂_eq_eq_eq ▸ forall₂_map_of_mem h.capacity.reserves
        fun _ _ _ _ hre => hre.refundID.symm
    rw [← hsame]
    exact h.reached.sound.refunds.coherent.unique
  rw [hsu]
  refine List.Forall₂.sum_le_sum ?_
  refine forall₂_map_of_mem h.capacity.reserves fun r hr x hx hre => ?_
  split_ifs with hco
  · obtain ⟨ho,z,hz,hzt,hzi,hze⟩ := hco
    have hzy : z = y := inj_on_of_nodup_map h.oneEach hz hy (hze.trans he.symm)
    subst hzy
    have hrl : x.releasedAt = none := by
      rcases ho with hf | ⟨x',hx',-,hid,hrl⟩
      · by_contra hrl
        have hca := hre.released hrl
        rw [hf] at hca
        cases hca
      · have hsame : x' = x :=
          inj_on_of_nodup_map hi hx' hx (hid.trans hre.refundID.symm)
        rw [← hsame]
        exact hrl
    have hon : x.tenantID = z.tenantID ∧ x.settlementID = z.id ∧ x.releasedAt = none :=
      ⟨hre.tenantID.trans hzt.symm,hre.settlementID.trans hzi.symm,hrl⟩
    rw [loadOf,if_pos hon,hre.amount]
  · exact Nat.zero_le _

/-- In every run from a blank database in which no transfer gets settlements of two tenants, the
refunds of a transfer that are finalized or hold an unreleased reservation stay within what the
transfer moved. -/
theorem refunds_within_received (env : Environment) (core : Workers.World) (actions : List Action)
    (hblank : Blank core) (hrun : Along (exec env) (OneTenant env) (start core) actions) :
    ∀ e ∈ (run (exec env) (start core) actions).core.db.transferEvents,
      refundedTotal (run (exec env) (start core) actions).db e.id ≤ e.amount.n := by
  have hbo : Bounded (run (exec env) (start core) actions) := by
    refine run_invariant (fun _ _ _ h ho hee => h.step ho hee) ?_ hrun
    exact ⟨reached_start core,Capacity.empty,
      ⟨Blank.funded hblank,fun _ hx => absurd hx not_mem_nil⟩,nodup_nil⟩
  generalize run (exec env) (start core) actions = s at hbo ⊢
  intro e he
  by_cases hse : ∃ y ∈ s.db.settlements, y.chainEventID = e.id
  · obtain ⟨y,hy,hev⟩ := hse
    obtain ⟨t,ht,hid,ham⟩ := hbo.backing.settlements y hy
    have hte := inj_on_of_nodup_map hbo.backing.funded.transferIDs ht (mem_map_of_mem he)
        (hid.trans hev)
    have hre : y.receivedAmount = e.amount := by
      rw [← ham,hte]
      rfl
    calc refundedTotal s.db e.id ≤ load s.db.reservations y.tenantID y.id :=
          counted_le hbo hy hev
      _ ≤ y.receivedAmount.n := (hbo.capacity.bounded y hy).1
      _ = e.amount.n := congrArg Amount.n hre
  · have hn : s.db.refunds.filter (Counted s.db e.id) = [] := by
      rw [filter_eq_nil_iff]
      intro r _ hco
      obtain ⟨-,y,hy,-,-,hev⟩ := of_decide_eq_true hco
      exact hse ⟨y,hy,hev⟩
    simp [refundedTotal,hn]

theorem refunds_within_received_sample :
    refundedTotal (run (exec sampleEnvironment) (start Workers.sampleStart) sampleApproval).db
        "pay" = 60 ∧ ∀ e ∈ (run (exec sampleEnvironment) (start Workers.sampleStart)
          sampleApproval).core.db.transferEvents,
        refundedTotal (run (exec sampleEnvironment) (start Workers.sampleStart) sampleApproval).db
          e.id ≤ e.amount.n :=
  ⟨by decide +kernel,refunds_within_received sampleEnvironment Workers.sampleStart sampleApproval
    ⟨rfl,rfl,rfl,rfl,rfl,by decide⟩ (by decide +kernel)⟩

/-- Two tenants with invoices on one address, of 100 and of 99 units, whose windows are two days
apart; a policy that accepts 99 units is bound to the first. -/
def sampleShared : Workers.World where
  db := { Workers.sampleBound.db with
    intents := [Workers.sampleIntent,
      { Workers.sampleIntent with id := "intent-b", tenantID := "tenant-b", merchantID := "merchant-b" }]
    routes := [Workers.sampleRouteTo "route" "TMerchant",
      { Workers.sampleRouteTo "route-b" "TMerchant" with
        tenantID := "tenant-b"
        merchantID := "merchant-b"
        intentID := "intent-b"
        expectedAmount := 99
        startsAt := Settlement.hours 48
        expiresAt := Settlement.hours 50
        graceEndsAt := Settlement.hours 50 }] }

def sampleFullRefund (tenantID settlementID intentID : String) : Action :=
  .requestRefund (sampleEvidence tenantID settlementID intentID ("destination-" ++ tenantID) 99)
    sampleNow {} { sampleCommand with
      tenantID := tenantID
      settlementID := settlementID
      destinationVerificationID := "destination-" ++ tenantID
      refundAmount := 99 }
    ⟨"refund-" ++ tenantID,"posting-" ++ tenantID⟩

/-- A payment of 99 units is matched with the first invoice and a refund is requested; then its
block is replaced, and it returns in the window of the second invoice. -/
def sampleReturned : List Action :=
  let policyRow (tenantID : String) : RefundPolicyRow :=
    ⟨⟨"policy",tenantID,"usdt",1,true,false,{ samplePolicy with tenantID },1,none⟩,false⟩
  let destination (tenantID settlementID : String) : DestinationRow :=
    { sampleDestination with id := "destination-" ++ tenantID, tenantID, settlementID }
  let payment := Workers.samplePayment "pay" 99
  (Workers.sampleScanned []).map .core ++
    [.core (.ingestAndSettle (payment "block-7") 60 (Workers.sampleIngestIDs "1")),
      .core (.claimMatching "matcher" 201 minute 10 (fun _ => "lease-1")),
      .core (.reconcileMatching "matcher" ⟨"route","lease-1",1⟩ 201 (Workers.sampleReconcileIDs "1-")),
      .core (.tick sampleNow.toNat),.setPolicies [policyRow "tenant",policyRow "tenant-b"] [],
      .setDestinations [destination "tenant" "match-1-pay",destination "tenant-b" "match-2"],
      .syncSettlements "tenant" 500,sampleFullRefund "tenant" "match-1-pay" "intent"] ++
    (Workers.sampleReplaced ++ Workers.sampleRescanned []).map .core ++
    [.core (.ingestAndSettle { payment "rival-7" with onChainTime := Settlement.hours 49 }
        (Settlement.hours 49) (Workers.sampleIngestIDs "2")),.syncSettlements "tenant-b" 500,
      sampleFullRefund "tenant-b" "match-2" "intent-b"]

/-- 198 units are reserved for refunds of a transfer of 99 units. -/
theorem returned_transfer_refunded_twice :
    let s := run (exec sampleEnvironment) (start sampleShared) sampleReturned
    s.core.db.transferEvents.map (fun e => (e.id,e.amount.n)) = [("pay",99)] ∧
      s.db.settlements.map (fun y => (y.tenantID,y.chainEventID)) =
        [("tenant","pay"),("tenant-b","pay")] ∧
      s.db.reservations.map (fun x => (x.tenantID,x.amount.n,x.releasedAt)) =
        [("tenant",99,none),("tenant-b",99,none)] ∧
      refundedTotal s.db "pay" = 198 := by
  decide +kernel

end Ocrypt.RefundTotals
