import Ocrypt.FinancialEffects

/-! What a run keeps of settlements and refunds: a settlement keeps what it was entered with, a
refund keeps what was requested, and both stay in their tables. -/
namespace Ocrypt.RefundHistory
open Money Fallible Table Store Custody Refunds FinancialStore RefundStore FinancialWorkers
  FinancialRuns FinancialEffects Transactions List

def entry (s : SettlementRow) : SettlementRow :=
  { s with refundedAmount := .zero, finalized := true, riskHold := false }

variable {x : SettlementRow}

lemma entry_fields {y : SettlementRow} (h : entry y = entry x) :
    y.id = x.id ∧ y.tenantID = x.tenantID ∧ y.assetID = x.assetID ∧ y.chainID = x.chainID ∧
      y.chainEventID = x.chainEventID ∧ y.observedSender = x.observedSender ∧
      y.receivedAmount = x.receivedAmount := by
  simp only [entry,SettlementRow.mk.injEq] at h
  obtain ⟨hid,hte,-,has,hch,-,he,hse,hr,-⟩ := h
  exact ⟨hid,hte,has,hch,he,hse,hr⟩

variable {rows : List SettlementRow} {r : FinancialDatabase × ℕ} {createdAt : String → ℤ}
  {tenantID : String} {limit clock : ℤ} {f : SettlementRow → SettlementRow}
  {p : SettlementRow → Prop} {m : UpdateMutation RefundTerms Amount} {current : Refund} {t : System}

variable {db : FinancialDatabase}

lemma syncSettlements_rows {core : Database}
    (h : syncSettlements createdAt core db tenantID limit clock = .ok r) :
    ∃ rows, ∃ stale : SettlementRow → Bool, traverse upsertSettlement
        ((selected createdAt core tenantID limit).map fun x => settlementOf x.1 x.2)
        db.settlements = .ok rows ∧ r.1.settlements = update (fun s => stale s) hold rows := by
  simp only [syncSettlements,do_eq_ok,pure_eq_ok] at h
  obtain ⟨-,-,rows,hro,rfl⟩ := h
  exact ⟨rows,_,hro,rfl⟩

lemma syncSettlements_keeps {core : Database}
    {P : List SettlementRow → Prop} (hro : P db.settlements)
    (hu : ∀ rows rows', ∀ x ∈ selected createdAt core tenantID limit, P rows →
      upsertSettlement rows (settlementOf x.1 x.2) = .ok rows' → P rows')
    (hho : ∀ rows, ∀ stale : SettlementRow → Bool, P rows → P (update (fun s => stale s) hold rows))
    (h : syncSettlements createdAt core db tenantID limit clock = .ok r) : P r.1.settlements := by
  obtain ⟨rows,stale,htr,hse⟩ := syncSettlements_rows h
  rw [hse]
  apply hho
  refine traverse_invariant (fun rows s rows' hs hP hst => ?_) hro htr
  obtain ⟨x,hx,rfl⟩ := mem_map.mp hs
  exact hu rows rows' x hx hP hst

lemma upsertSettlement_eq_ok {rows' : List SettlementRow} {excluded : SettlementRow}
    (h : upsertSettlement rows excluded = .ok rows') :
    rows' = update (fun s => s.id = excluded.id) (recheck excluded) rows ∨
      (rows' = rows ++ [excluded] ∧ (∀ s ∈ rows, s.id ≠ excluded.id) ∧
        ∀ s ∈ rows, s.tenantID = excluded.tenantID → s.chainEventID ≠ excluded.chainEventID) := by
  unfold upsertSettlement at h
  split_ifs at h with hco
  · exact .inl (Except.ok.inj h).symm
  · obtain ⟨hf,rfl⟩ := insertUnique_eq_ok.mp h
    refine .inr ⟨rfl,fun s hs hid => hco ⟨s,hs,hid⟩,fun s hs hte he => ?_⟩
    exact hf s hs ⟨hte,he⟩

/-- Keys of the tables, and a settlement is finalized unless it is on hold. -/
structure Stored (db : FinancialDatabase) : Prop where
  settlementIDs : (db.settlements.map (·.id)).Nodup
  finalized : ∀ s ∈ db.settlements, s.finalized = !s.riskHold
  refundKeys : (db.refunds.map fun r => (r.tenantID,r.idempotencyKey)).Nodup

/-- Settlements and refunds stay, with what they were entered with. -/
structure Later (db db' : FinancialDatabase) : Prop where
  settlements : ∀ s ∈ db.settlements, ∃ s' ∈ db'.settlements, entry s' = entry s
  refunds : ∀ r ∈ db.refunds, ∃ r' ∈ db'.refunds, r'.toRequest = r.toRequest

lemma Later.refl (db : FinancialDatabase) : Later db db :=
  ⟨fun s hs => ⟨s,hs,rfl⟩,fun r hr => ⟨r,hr,rfl⟩⟩

lemma Later.trans {a b c : FinancialDatabase} (h : Later a b) (h' : Later b c) : Later a c where
  settlements := by
    intro s hs
    obtain ⟨t,ht,hst⟩ := h.settlements s hs
    obtain ⟨u,hu,htu⟩ := h'.settlements t ht
    exact ⟨u,hu,htu.trans hst⟩
  refunds := by
    intro r hr
    obtain ⟨t,ht,hrt⟩ := h.refunds r hr
    obtain ⟨u,hu,htu⟩ := h'.refunds t ht
    exact ⟨u,hu,htu.trans hrt⟩

lemma nodup_ids_update [DecidablePred p] (hf : ∀ s, (f s).id = s.id) (h : (rows.map (·.id)).Nodup) :
    ((update p f rows).map (·.id)).Nodup := by
  rw [map_update fun s _ _ => hf s]
  exact h

variable {s : System}

lemma next_toRequest (hso : SystemSound s) (hp : Planned Refunds.profile current m)
    (hcu : current ∈ s.db.refunds) :
    ∀ r ∈ s.db.refunds, AtVersion m r → m.next.toRequest = r.toRequest := by
  intro r hr hv
  have hr' : r = current :=
    hso.refunds.coherent.eq_of_key hr hcu (hv.2.1.trans hp.aggregateID)
  rw [hr']
  exact hp.moves.keeps.1

lemma updated_settlements {core : Database} {db' : FinancialDatabase}
    (h : RefundStore.Updated core db m current db') : db'.settlements = db.settlements ∨
      (m.next.status = .finalized ∧ current.status ≠ .finalized ∧
        db'.settlements = update (fun s => Bears s m.next) (charge m.next) db.settlements) := by
  obtain ⟨rows,-,hu⟩ := h.reserved
  unfold useReservation at hu
  split_ifs at hu with hf
  · simp only [do_ok,updateOne_eq_ok] at hu
    obtain ⟨reservations,-,settlements,⟨-,hse⟩,-,rfl⟩ := hu
    exact .inr ⟨hf.1,hf.2,hse.symm⟩
  · simp only [Except.ok.injEq,Prod.mk.injEq] at hu
    exact .inl hu.2.symm

variable {a : Action} {env : Environment} {core : Workers.World}

lemma Effect.stored (hso : SystemSound s) (h : Stored s.db) (he : Effect env s a core db) :
    Stored db := by
  obtain ⟨hi,hf,hk⟩ := h
  cases he with
  | core hco => exact ⟨hi,hf,hk⟩
  | configured hdb =>
    rw [hdb]
    exact ⟨hi,hf,hk⟩
  | synced hsy =>
    have hro := syncSettlements_keeps (P := fun rows => (rows.map (·.id)).Nodup ∧
      ∀ s ∈ rows, s.finalized = !s.riskHold) ⟨hi,hf⟩ ?_ ?_ hsy
    · rw [syncSettlements_frame hsy]
      exact ⟨hro.1,hro.2,hk⟩
    · intro rows rows' x _ hro hst
      rcases upsertSettlement_eq_ok hst with rfl | ⟨rfl,hfr,-⟩
      · refine ⟨nodup_ids_update (fun _ => rfl) hro.1,forall_update hro.2 fun s _ _ hs => ?_⟩
        simp [recheck,hs]
      · exact ⟨nodup_map_append hro.1 hfr,forall_snoc hro.2 rfl⟩
    · intro rows stale hro
      exact ⟨nodup_ids_update (fun _ => rfl) hro.1,forall_update hro.2 fun s _ _ _ => rfl⟩
  | refundCreated hre hcr =>
    rw [hcr.written]
    refine ⟨hi,hf,nodup_map_append hk fun s hs hke => ?_⟩
    simp only [Prod.mk.injEq] at hke
    exact (hcr.fresh s hs).2 hke.1 hke.2
  | sweepCreated hre hcr =>
    rw [hcr.written]
    exact ⟨hi,hf,hk⟩
  | @refundUpdated m current _ hp hu =>
    have hk' : ((update (AtVersion m) (fun _ => m.next) s.db.refunds).map fun r =>
        (r.tenantID,r.idempotencyKey)).Nodup := by
      rw [map_update fun r hr hv => by
        rw [next_toRequest hso hp hu.stored r hr hv]]
      exact hk
    have hro : (db.settlements.map (·.id)).Nodup ∧ ∀ s ∈ db.settlements, s.finalized = !s.riskHold := by
      rcases updated_settlements hu with hsame | ⟨-,-,hch⟩
      · rw [hsame]
        exact ⟨hi,hf⟩
      · rw [hch]
        exact ⟨nodup_ids_update (fun _ => rfl) hi,forall_update hf fun s _ _ hs => hs⟩
    rw [hu.written]
    exact ⟨hro.1,hro.2,hk'⟩
  | sweepUpdated hp hu =>
    rw [hu.written]
    exact ⟨hi,hf,hk⟩

lemma Effect.later (hso : SystemSound s) (hef : Effect env s a core db) : Later s.db db := by
  have hsame : ∀ r ∈ s.db.refunds, ∃ r' ∈ s.db.refunds, r'.toRequest = r.toRequest :=
    fun r hr => ⟨r,hr,rfl⟩
  cases hef with
  | core hco => exact Later.refl _
  | configured hdb =>
    rw [hdb]
    exact ⟨(Later.refl s.db).settlements,hsame⟩
  | synced hsy =>
    have hro := syncSettlements_keeps
      (P := fun rows => ∀ x ∈ s.db.settlements, ∃ x' ∈ rows, entry x' = entry x)
      (Later.refl s.db).settlements ?_ ?_ hsy
    · rw [syncSettlements_frame hsy]
      exact ⟨hro,hsame⟩
    · intro rows rows' e _ hro hst x hx
      rcases upsertSettlement_eq_ok hst with rfl | ⟨rfl,-⟩
      · exact exists_update (fun _ _ _ => rfl) (hro x hx)
      · obtain ⟨y,hy,hxy⟩ := hro x hx
        exact ⟨y,mem_append_left _ hy,hxy⟩
    · intro rows stale hro x hx
      exact exists_update (fun _ _ _ => rfl) (hro x hx)
  | refundCreated hre hcr =>
    rw [hcr.written]
    exact ⟨(Later.refl s.db).settlements,fun r hr => ⟨r,mem_append_left _ hr,rfl⟩⟩
  | sweepCreated hre hcr =>
    rw [hcr.written]
    exact ⟨(Later.refl s.db).settlements,hsame⟩
  | @refundUpdated m current _ hp hu =>
    have hro : ∀ x ∈ s.db.settlements, ∃ x' ∈ db.settlements, entry x' = entry x := by
      rcases updated_settlements hu with hse | ⟨-,-,hch⟩
      · rw [hse]
        exact (Later.refl s.db).settlements
      · rw [hch]
        exact fun x hx => exists_update (fun _ _ _ => rfl) ⟨x,hx,rfl⟩
    rw [hu.written]
    exact ⟨hro,fun r hr => exists_update (next_toRequest hso hp hu.stored) ⟨r,hr,rfl⟩⟩
  | sweepUpdated hp hu =>
    rw [hu.written]
    exact ⟨(Later.refl s.db).settlements,hsame⟩

def Reaches (env : Environment) (s t : System) : Prop :=
  ∃ actions : List Action, t = run (exec env) s actions

structure Reached (s : System) : Prop where
  sound : SystemSound s
  stored : Stored s.db

lemma reached_start (core : Workers.World) : Reached (start core) :=
  ⟨systemSound_start core,nodup_nil,fun _ hs => absurd hs not_mem_nil,nodup_nil⟩

lemma Reached.exec (h : Reached s) (hee : exec env s a = .ok t) : Reached t ∧ Later s.db t.db := by
  obtain ⟨hso,he⟩ := exec_sound h.sound hee
  exact ⟨⟨hso,Effect.stored h.sound h.stored he⟩,Effect.later h.sound he⟩

lemma Reached.reaches (h : Reached s) (hr : Reaches env s t) : Reached t ∧ Later s.db t.db := by
  obtain ⟨actions,rfl⟩ := hr
  refine run_keeps (P := fun t => Reached t ∧ Later s.db t.db) (fun t a u ht he => ?_)
    ⟨h,Later.refl s.db⟩
  obtain ⟨hu,hl⟩ := ht.1.exec he
  exact ⟨hu,ht.2.trans hl⟩

end Ocrypt.RefundHistory
