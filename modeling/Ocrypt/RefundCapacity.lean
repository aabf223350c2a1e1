import Ocrypt.RefundHistory

/-! What a settlement can give. Every refund has one reservation, a reservation is released by a
cancellation only, and the reservations of a settlement that are not released stay within what it
received. -/
namespace Ocrypt.RefundCapacity
open Money Fallible Table Store Custody Refunds FinancialStore RefundStore FinancialWorkers
  FinancialRuns FinancialEffects RefundHistory List

structure Reserves (r : Refund) (x : ReservationRow) : Prop where
  tenantID : x.tenantID = r.tenantID
  refundID : x.refundID = r.id
  settlementID : x.settlementID = r.terms.settlementID
  amount : x.amount = r.terms.grossAmount
  released : x.releasedAt ≠ none → r.status = .cancelled

variable (rows : List ReservationRow) (tenantID settlementID : String)

variable (m : UpdateMutation RefundTerms Amount) (x : ReservationRow)

/-- The part of a reservation that is not released, for the settlement it is held against. -/
def loadOf : ℕ :=
  if x.tenantID = tenantID ∧ x.settlementID = settlementID ∧ x.releasedAt = none then x.amount.n else 0

def usedOf : ℕ :=
  if x.tenantID = tenantID ∧ x.settlementID = settlementID ∧ x.releasedAt = none ∧ x.finalizedAt ≠ none
  then x.amount.n else 0

def load : ℕ :=
  (rows.map (loadOf tenantID settlementID)).sum

def used : ℕ :=
  (rows.map (usedOf tenantID settlementID)).sum

lemma load_eq : load rows tenantID settlementID =
      reservedAmount rows tenantID settlementID+used rows tenantID settlementID := by
  induction rows with
  | nil => rfl
  | cons x rows ih =>
    simp only [load,used,reservedAmount,map_cons,sum_cons] at ih ⊢
    by_cases hx : x.tenantID = tenantID ∧ x.settlementID = settlementID ∧ Held x
    · obtain ⟨hte,hse,hr,hf⟩ := hx
      simp [loadOf,usedOf,hte,hse,hr,hf,Held] at ih ⊢
      omega
    · rw [filter_cons_of_neg (by simpa using hx)]
      have hsame : loadOf tenantID settlementID x = usedOf tenantID settlementID x := by
        unfold loadOf usedOf
        simp only [Held,not_and] at hx
        congr 1
        simp only [eq_iff_iff]
        exact ⟨fun h => ⟨h.1,h.2.1,h.2.2,hx h.1 h.2.1 h.2.2⟩,fun h => ⟨h.1,h.2.1,h.2.2.1⟩⟩
      omega

variable {db : FinancialDatabase} {rows : List ReservationRow} {core : Database}

variable {tenantID : String}

lemma load_eq_zero {settlementID : String}
    (h : ∀ x ∈ rows, x.settlementID ≠ settlementID) : load rows tenantID settlementID = 0 := by
  apply sum_eq_zero
  intro n hn
  obtain ⟨x,hx,rfl⟩ := mem_map.mp hn
  simp [loadOf,h x hx]

structure Capacity (db : FinancialDatabase) : Prop where
  reserves : List.Forall₂ Reserves db.refunds db.reservations
  placed : ∀ x ∈ db.reservations, ∃ s ∈ db.settlements,
    s.tenantID = x.tenantID ∧ s.id = x.settlementID
  bounded : ∀ s ∈ db.settlements, load db.reservations s.tenantID s.id ≤ s.receivedAmount.n ∧
    used db.reservations s.tenantID s.id ≤ s.refundedAmount.n

lemma Capacity.empty : Capacity {} :=
  ⟨.nil,fun _ hx => absurd hx not_mem_nil,fun _ hs => absurd hs not_mem_nil⟩

def releasedRows (rows : List ReservationRow) : List ReservationRow :=
  update (fun x : ReservationRow => HeldFor x m.tenantID m.aggregateID)
    (fun x => { x with releasedAt := some m.next.updatedAt }) rows

def finalizedRows (rows : List ReservationRow) : List ReservationRow :=
  update (fun x : ReservationRow => HeldFor x m.tenantID m.aggregateID)
    (fun x => { x with finalizedAt := some m.next.updatedAt }) rows

/-- What the update of a refund does to reservations and settlements: a cancellation releases
the reservation, the first finalization uses it up and charges the settlement. -/
inductive Settles (db db' : FinancialDatabase) : Prop
  | kept (hreservations : db'.reservations = db.reservations)
      (hsettlements : db'.settlements = db.settlements)
  | released (hstatus : m.next.status = .cancelled)
      (hreservations : db'.reservations = releasedRows m db.reservations)
      (hsettlements : db'.settlements = db.settlements)
  | finalized (hone : db.reservations.countP
        (fun x : ReservationRow => HeldFor x m.tenantID m.aggregateID) = 1)
      (hreservations : db'.reservations = finalizedRows m db.reservations)
      (hbears : db.settlements.countP (fun s : SettlementRow => Bears s m.next) = 1)
      (hsettlements : db'.settlements = update (fun s : SettlementRow => Bears s m.next)
        (charge m.next) db.settlements)

variable {db' : FinancialDatabase} {current : Refund} {m : UpdateMutation RefundTerms Amount}

lemma updated_settles (hpa : Planned Refunds.profile current m)
    (h : RefundStore.Updated core db m current db') : Settles m db db' := by
  obtain ⟨rows,hr,hu⟩ := h.reserved
  unfold releaseReservation at hr
  unfold useReservation at hu
  by_cases hca : m.next.status = .cancelled
  · have hn : ¬(m.next.status = .finalized ∧ current.status ≠ .finalized) := by simp [hca]
    rw [if_neg hn] at hu
    simp only [Except.ok.injEq,Prod.mk.injEq] at hu
    obtain ⟨hro,hse⟩ := hu
    split_ifs at hr with hz
    · cases hr
      exact .kept hro.symm hse.symm
    · rw [updateOne_eq_ok] at hr
      exact .released hca (hro.symm.trans hr.2.symm) hse.symm
  · have hz : m.release.isZero = true := by
      rw [hpa.release]
      simp [Refunds.profile,hca]
    rw [if_pos hz] at hr
    cases hr
    split_ifs at hu with hf
    · simp only [do_ok,updateOne_eq_ok,Prod.mk.injEq] at hu
      obtain ⟨reservations,⟨ho,rfl⟩,settlements,⟨hbe,rfl⟩,hro,hse⟩ := hu
      exact .finalized ho hro.symm hbe hse.symm
    · simp only [Except.ok.injEq,Prod.mk.injEq] at hu
      exact .kept hu.1.symm hu.2.symm

variable {r : Refund}

lemma not_cancelled_of_moves {s : Refund} (h : Moves r s) : r.status ≠ .cancelled := by
  have hca : ∀ x ∈ transitions, x.1 ≠ .cancelled := by decide
  exact hca _ (statuses_of_move h)

variable {s : System} {x : ReservationRow}

section
variable (hso : SystemSound s) (hpa : Planned Refunds.profile current m)
  (hcu : current ∈ s.db.refunds)
include hso hpa hcu

lemma heldFor_current (hr : r ∈ s.db.refunds)
    (hre : Reserves r x) (hh : HeldFor x m.tenantID m.aggregateID) : r = current := by
  apply hso.refunds.coherent.eq_of_key hr hcu
  exact hre.refundID.symm.trans (hh.2.1.trans hpa.aggregateID)

lemma reserves_updated (hv : AtVersion m current)
    (h : List.Forall₂ Reserves s.db.refunds s.db.reservations) {f : ReservationRow → ReservationRow}
    {held : ReservationRow → Prop} [DecidablePred held]
    (hhe : ∀ x, held x → HeldFor x m.tenantID m.aggregateID)
    (hk : ∀ x, (f x).tenantID = x.tenantID ∧ (f x).refundID = x.refundID ∧
      (f x).settlementID = x.settlementID ∧ (f x).amount = x.amount)
    (hra : ∀ x, held x → (f x).releasedAt ≠ none →
      x.releasedAt ≠ none ∨ m.next.status = .cancelled) :
    List.Forall₂ Reserves (update (AtVersion m) (fun _ => m.next) s.db.refunds)
      (update held f s.db.reservations) := by
  refine forall₂_map_of_mem h fun r hr x hx hre => ?_
  by_cases hat : AtVersion m r
  · -- the refund of the update, which was not cancelled before
    have hrc : r = current :=
      hso.refunds.coherent.eq_of_key hr hcu (hat.2.1.trans hpa.aggregateID)
    subst hrc
    have hrq := hpa.moves.keeps.1
    have ho : x.releasedAt = none := by
      by_contra hrl
      exact not_cancelled_of_moves hpa.moves (hre.released hrl)
    simp only [if_pos hat]
    obtain ⟨hte,hid,hse,ham⟩ := hk x
    by_cases hx' : held x
    · simp only [if_pos hx']
      refine ⟨?_,?_,?_,?_,fun hrl => ?_⟩
      · rw [hte,hre.tenantID,hrq]
      · rw [hid,hre.refundID,hrq]
      · rw [hse,hre.settlementID,hrq]
      · rw [ham,hre.amount,hrq]
      · exact (hra x hx' hrl).resolve_left (not_not.mpr ho)
    · simp only [if_neg hx']
      refine ⟨?_,?_,?_,?_,absurd ho⟩
      · rw [hre.tenantID,hrq]
      · rw [hre.refundID,hrq]
      · rw [hre.settlementID,hrq]
      · rw [hre.amount,hrq]
  · have hn : ¬held x := by
      intro hx'
      exact hat (heldFor_current hso hpa hcu hr hre (hhe x hx') ▸ hv)
    simp only [if_neg hat,if_neg hn]
    exact hre

lemma heldFor_settlement (h : List.Forall₂ Reserves s.db.refunds s.db.reservations)
    (hx : x ∈ s.db.reservations) (hhe : HeldFor x m.tenantID m.aggregateID) :
    Reserves current x := by
  obtain ⟨r,hr,hre⟩ := exists_of_forall₂ h hx
  rw [heldFor_current hso hpa hcu hr hre hhe] at hre
  exact hre

end

lemma finalizedRows_amounts (hso : SystemSound s) (h : Capacity s.db)
    (hpa : Planned Refunds.profile current m) (hcu : current ∈ s.db.refunds)
    (ho : s.db.reservations.countP
      (fun x : ReservationRow => HeldFor x m.tenantID m.aggregateID) = 1) (tenantID id : String) :
    load (finalizedRows m s.db.reservations) tenantID id = load s.db.reservations tenantID id ∧
      used (finalizedRows m s.db.reservations) tenantID id ≤ used s.db.reservations tenantID id +
        if current.tenantID = tenantID ∧ current.terms.settlementID = id then
          current.terms.grossAmount.n else 0 := by
  have hu : used (finalizedRows m s.db.reservations) tenantID id ≤
      used s.db.reservations tenantID id+s.db.reservations.countP
        (fun x : ReservationRow => HeldFor x m.tenantID m.aggregateID) *
        (if current.tenantID = tenantID ∧ current.terms.settlementID = id then
          current.terms.grossAmount.n else 0) := by
    refine sum_update_le fun x hx hhe => ?_
    have hr := heldFor_settlement hso hpa hcu h.reserves hx hhe
    simp only [usedOf,hr.tenantID,hr.settlementID,hr.amount]
    by_cases hon : current.tenantID = tenantID ∧ current.terms.settlementID = id
    · split_ifs <;> omega
    · rw [if_neg fun hc => hon ⟨hc.1,hc.2.1⟩]
      exact Nat.zero_le _
  rw [ho,Nat.one_mul] at hu
  exact ⟨congrArg List.sum (map_update fun _ _ _ => rfl),hu⟩

lemma bounded_finalized (hso : SystemSound s) (hst : Stored s.db) (h : Capacity s.db)
    (hpa : Planned Refunds.profile current m) (hcu : current ∈ s.db.refunds)
    (hon : s.db.reservations.countP
      (fun x : ReservationRow => HeldFor x m.tenantID m.aggregateID) = 1)
    (hbe : s.db.settlements.countP (fun x : SettlementRow => Bears x m.next) = 1) :
    ∀ y ∈ update (fun x : SettlementRow => Bears x m.next) (charge m.next) s.db.settlements,
      load (finalizedRows m s.db.reservations) y.tenantID y.id ≤ y.receivedAmount.n ∧
      used (finalizedRows m s.db.reservations) y.tenantID y.id ≤ y.refundedAmount.n := by
  have hr := hpa.moves.keeps.1
  have hte := congrArg Request.terms hr
  obtain ⟨z,hz,hzb⟩ := countP_pos_iff.mp (hbe.symm ▸ Nat.one_pos)
  have hzb : Bears z m.next := of_decide_eq_true hzb
  intro y hy
  rcases mem_update_iff.mp hy with ⟨hy,hn⟩ | ⟨x,hx,hxb,rfl⟩
  · -- another settlement than the one of the refund
    have ho : ¬(current.tenantID = y.tenantID ∧ current.terms.settlementID = y.id) := by
      rintro ⟨-,hid⟩
      have hyz : y = z := by
        apply inj_on_of_nodup_map hst.settlementIDs hy hz
        rw [← hid,hzb.2.1,hte]
      exact hn (hyz ▸ hzb)
    obtain ⟨hl,hu⟩ :=
      finalizedRows_amounts hso h hpa hcu hon y.tenantID y.id
    rw [if_neg ho] at hu
    rw [hl]
    exact ⟨(h.bounded y hy).1,hu.trans (h.bounded y hy).2⟩
  · have hch : (charge m.next x).refundedAmount.n =
        x.refundedAmount.n+m.next.terms.grossAmount.n := by
      have hf := hxb.2.2
      have hsu := lt_of_le_of_lt hf x.receivedAmount.fits
      have had : x.refundedAmount.add m.next.terms.grossAmount = .ok ⟨_,hsu⟩ :=
        Amount.add_eq_ok.mpr rfl
      simp [charge,had,Except.toOption]
    obtain ⟨hl,hu⟩ :=
      finalizedRows_amounts hso h hpa hcu hon x.tenantID x.id
    obtain ⟨hbo,hsp⟩ := h.bounded x hx
    refine ⟨hl.trans_le hbo,?_⟩
    rw [hch,hte]
    refine hu.trans ?_
    split_ifs <;> omega

lemma bounded_released (h : Capacity s.db) : ∀ y ∈ s.db.settlements,
      load (releasedRows m s.db.reservations) y.tenantID y.id ≤ y.receivedAmount.n ∧
      used (releasedRows m s.db.reservations) y.tenantID y.id ≤ y.refundedAmount.n := by
  intro y hy
  have hl : load (releasedRows m s.db.reservations) y.tenantID y.id ≤
      load s.db.reservations y.tenantID y.id+_*0 :=
    sum_update_le fun x _ _ => by simp [loadOf]
  have hu : used (releasedRows m s.db.reservations) y.tenantID y.id ≤
      used s.db.reservations y.tenantID y.id+_*0 :=
    sum_update_le fun x _ _ => by simp [usedOf]
  exact ⟨le_trans hl (h.bounded y hy).1,le_trans hu (h.bounded y hy).2⟩

lemma availableAmount_eq_ok {s : SettlementRow} {available : Amount}
    (h : availableAmount db s = .ok available) :
    s.refundedAmount.n+reservedAmount db.reservations s.tenantID s.id+available.n =
      s.receivedAmount.n := by
  simp only [availableAmount,do_ok,orFail_eq_ok] at h
  obtain ⟨reserved,hr,h⟩ := h
  have hn : reserved.n = reservedAmount db.reservations s.tenantID s.id := by
    unfold Amount.ofNat? at hr
    split_ifs at hr with hf
    cases hr
    rfl
  cases had : s.refundedAmount.add reserved with
  | error e => simp [had] at h
  | ok total =>
    cases hsu : s.receivedAmount.sub total with
    | error e => simp [had,hsu] at h
    | ok rest =>
      simp only [had,hsu,pure_eq_ok] at h
      have hsm := Amount.add_eq_ok.mp had
      have hre := Amount.sub_eq_ok.mp hsu
      rw [← h]
      omega

lemma bounded_created {clock : ℤ} {m : Refunds.CreateMutation} (hst : Stored db) (h : Capacity db)
    (hcr : RefundStore.Created core db clock m db')
    (hx : x = ⟨m.refund.tenantID,m.refund.terms.settlementID,m.refund.id,
      m.refund.terms.grossAmount,none,none⟩) :
    (∃ s ∈ db.settlements, s.tenantID = x.tenantID ∧ s.id = x.settlementID) ∧
      ∀ y ∈ db.settlements, load (db.reservations ++ [x]) y.tenantID y.id ≤ y.receivedAmount.n ∧
        used (db.reservations ++ [x]) y.tenantID y.id ≤ y.refundedAmount.n := by
  obtain ⟨s,available,hl,hav,hg⟩ := hcr.capacity
  simp only [lockRefundable,do_eq_ok,orFail_eq_ok] at hl
  obtain ⟨found,hfi,hl⟩ := hl
  obtain ⟨hf,hte,hid⟩ := mem_of_find? hfi
  have hs : found = s := by
    simp only [exists_require,pure_eq_ok] at hl
    obtain ⟨-,-,-,-,-,-,-,-,-,-,rfl⟩ := hl
    rfl
  subst hs
  have hle := availableAmount_eq_ok hav
  refine ⟨⟨found,hf,?_,?_⟩,fun y hy => ?_⟩
  · rw [hx,hte]
  · rw [hx,hid]
  · have hlo : load (db.reservations ++ [x]) y.tenantID y.id =
        load db.reservations y.tenantID y.id+loadOf y.tenantID y.id x := by simp [load]
    have hu : used (db.reservations ++ [x]) y.tenantID y.id =
        used db.reservations y.tenantID y.id := by simp [used,usedOf,hx]
    obtain ⟨hbo,hsp⟩ := h.bounded y hy
    by_cases hon : x.tenantID = y.tenantID ∧ x.settlementID = y.id
    · have hy' : y = found := by
        apply inj_on_of_nodup_map hst.settlementIDs hy hf
        rw [← hon.2,hx,hid]
      subst hy'
      have hg' : loadOf y.tenantID y.id x = m.refund.terms.grossAmount.n := by
        rw [loadOf,if_pos ⟨hon.1,hon.2,by rw [hx]⟩,hx]
      have hsl := load_eq db.reservations y.tenantID y.id
      omega
    · have ho : loadOf y.tenantID y.id x = 0 := by
        rw [loadOf,if_neg fun hc => hon ⟨hc.1,hc.2.1⟩]
      omega

lemma placed_later {settlements later : List SettlementRow}
    (hl : ∀ s ∈ settlements, ∃ s' ∈ later, entry s' = entry s)
    (h : ∀ x ∈ rows, ∃ s ∈ settlements, s.tenantID = x.tenantID ∧ s.id = x.settlementID) :
    ∀ x ∈ rows, ∃ s ∈ later, s.tenantID = x.tenantID ∧ s.id = x.settlementID := by
  intro x hx
  obtain ⟨s,hs,hte,hid⟩ := h x hx
  obtain ⟨s',hs',he⟩ := hl s hs
  obtain ⟨hsi,hst,-⟩ := entry_fields he
  exact ⟨s',hs',hst.trans hte,hsi.trans hid⟩

section
variable {env : Environment} {a : Action} {core : Workers.World}

lemma capacity_synced {limit : ℤ} {r : FinancialDatabase × ℕ} (h : Capacity s.db)
    (hsy : syncSettlements env.createdAt s.core.db s.db tenantID limit s.core.clock = .ok r) :
    Capacity r.1 := by
  have hro := syncSettlements_keeps (P := fun rows =>
      (∀ y ∈ s.db.settlements, ∃ z ∈ rows, entry z = entry y) ∧
      ∀ y ∈ rows, load s.db.reservations y.tenantID y.id ≤ y.receivedAmount.n ∧
        used s.db.reservations y.tenantID y.id ≤ y.refundedAmount.n)
    ⟨(Later.refl s.db).settlements,h.bounded⟩ ?_ ?_ hsy
  · rw [syncSettlements_frame hsy]
    exact ⟨h.reserves,placed_later hro.1 h.placed,hro.2⟩
  · intro rows rows' e _ hro hst
    rcases upsertSettlement_eq_ok hst with rfl | ⟨rfl,hf,-⟩
    · exact ⟨fun y hy => exists_update (fun _ _ _ => rfl) (hro.1 y hy),
        forall_update hro.2 fun y _ _ hy => hy⟩
    · -- nothing is held against a settlement that is new
      have hn : ∀ x ∈ s.db.reservations, x.settlementID ≠ (settlementOf e.1 e.2).id := by
        intro x hx hid
        obtain ⟨y,hy,-,hyi⟩ := placed_later hro.1 h.placed x hx
        exact hf y hy (hyi.trans hid)
      refine ⟨fun y hy => ?_,forall_snoc hro.2 ?_⟩
      · obtain ⟨z,hz,hen⟩ := hro.1 y hy
        exact ⟨z,mem_append_left _ hz,hen⟩
      · have hl : load s.db.reservations (settlementOf e.1 e.2).tenantID
            (settlementOf e.1 e.2).id = 0 := load_eq_zero hn
        have hsp := load_eq s.db.reservations (settlementOf e.1 e.2).tenantID
          (settlementOf e.1 e.2).id
        omega
  · intro rows stale hro
    exact ⟨fun y hy => exists_update (fun _ _ _ => rfl) (hro.1 y hy),
      forall_update hro.2 fun y _ _ hy => hy⟩

lemma capacity_updated (hso : SystemSound s) (hst : Stored s.db) (h : Capacity s.db)
    (hpa : Planned Refunds.profile current m)
    (hu : RefundStore.Updated s.core.db s.db m current db) : Capacity db := by
  have hcu := hu.stored
  have hv := hu.atVersion
  have hre : db.refunds = update (AtVersion m) (fun _ => m.next) s.db.refunds := by
    rw [hu.written]
  cases updated_settles hpa hu with
  | kept hr hse =>
    have hn : update (fun _ : ReservationRow => False) id s.db.reservations = s.db.reservations :=
      update_eq_self fun _ _ hx => hx.elim
    refine ⟨?_,?_,?_⟩
    · rw [hre,hr,← hn]
      exact reserves_updated hso hpa hcu hv h.reserves (fun _ hx => hx.elim)
        (fun _ => ⟨rfl,rfl,rfl,rfl⟩) fun _ hx => hx.elim
    · rw [hr,hse]
      exact h.placed
    · rw [hr,hse]
      exact h.bounded
  | released hsa hr hse =>
    refine ⟨?_,?_,?_⟩
    · rw [hre,hr]
      exact reserves_updated hso hpa hcu hv h.reserves (fun _ hx => hx)
        (fun _ => ⟨rfl,rfl,rfl,rfl⟩) fun _ _ _ => .inr hsa
    · rw [hr,hse]
      exact forall_update h.placed fun _ _ _ hx => hx
    · rw [hr,hse]
      exact bounded_released h
  | finalized ho hr hbe hse =>
    refine ⟨?_,?_,?_⟩
    · rw [hre,hr]
      exact reserves_updated hso hpa hcu hv h.reserves (fun _ hx => hx)
        (fun _ => ⟨rfl,rfl,rfl,rfl⟩) fun _ _ hrl => .inl hrl
    · rw [hr,hse]
      have hpl := placed_later (fun y hy => exists_update (g := entry)
        (p := fun y => Bears y m.next) (f := charge m.next) (fun _ _ _ => rfl) ⟨y,hy,rfl⟩) h.placed
      exact forall_update hpl fun _ _ _ hx => hx
    · rw [hr,hse]
      exact bounded_finalized hso hst h hpa hcu ho hbe

lemma Effect.capacity (hso : SystemSound s) (hst : Stored s.db) (h : Capacity s.db)
    (he : Effect env s a core db) : Capacity db := by
  cases he with
  | core hco => exact h
  | configured hdb =>
    rw [hdb]
    exact ⟨h.reserves,h.placed,h.bounded⟩
  | synced hsy => exact capacity_synced h hsy
  | refundCreated hr hcr =>
    obtain ⟨hp,hbo⟩ := bounded_created hst h hcr rfl
    rw [hcr.written]
    exact ⟨rel_append h.reserves (.cons ⟨rfl,rfl,rfl,rfl,absurd rfl⟩ .nil),forall_snoc h.placed hp,hbo⟩
  | sweepCreated hr hcr =>
    rw [hcr.written]
    exact ⟨h.reserves,h.placed,h.bounded⟩
  | refundUpdated hpa hu => exact capacity_updated hso hst h hpa hu
  | sweepUpdated hpa hu =>
    rw [hu.written]
    exact ⟨h.reserves,h.placed,h.bounded⟩

end

end Ocrypt.RefundCapacity
