import Ocrypt.FinancialRuns

/-! What one step of the financial system does to the tables, said once for every invariant. -/
namespace Ocrypt.FinancialEffects
open Money Fallible Table Custody Refunds Treasury FinancialStore RefundStore TreasuryStore
  FinancialWorkers FinancialRuns Relation Transactions List

inductive Effect (env : Environment) (s : System) (a : Action) :
    Workers.World → FinancialDatabase → Prop
  | core {action : Workers.Action} {core : Workers.World}
      (hcore : Workers.exec env.ext env.capability s.core action = .ok core) :
      Effect env s a core s.db
  | configured {db : FinancialDatabase} (hdb : db = { s.db with
      treasuryPolicies := db.treasuryPolicies, refundPolicies := db.refundPolicies
      destinations := db.destinations, leases := db.leases }) : Effect env s a s.core db
  | synced {tenantID : String} {limit : ℤ} {r : FinancialDatabase × ℕ}
      (hsync : syncSettlements env.createdAt s.core.db s.db tenantID limit s.core.clock = .ok r)
      (haction : a = .syncSettlements tenantID limit) : Effect env s a s.core r.1
  | refundCreated {evidence : Evidence} {now : ℤ} {identity : MutationIdentity}
      {command : RequestCommand} {ids : RequestIDs} {policy : Refunds.Policy}
      {m : Refunds.CreateMutation} {db : FinancialDatabase}
      (hrequest : request env.refundHash evidence now identity command ids = .ok (policy,m))
      (hcreated : RefundStore.Created s.core.db s.db s.core.clock m db) : Effect env s a s.core db
  | sweepCreated {activePolicy : (tenantID assetID : String) → Option Treasury.Policy} {now : ℤ}
      {identity : MutationIdentity} {command : RequestSweepCommand} {id : String}
      {policy : Treasury.Policy} {m : Treasury.CreateMutation} {db : FinancialDatabase}
      (hrequest : requestSweep env.sweepHash activePolicy now identity command id = .ok (policy,m))
      (hcreated : TreasuryStore.Created s.db m db) : Effect env s a s.core db
  | refundUpdated {m : UpdateMutation RefundTerms Amount} {current : Refund} {db : FinancialDatabase}
      (hplanned : Planned Refunds.profile current m)
      (hupdated : RefundStore.Updated s.core.db s.db m current db) : Effect env s a s.core db
  | sweepUpdated {m : UpdateMutation SweepTerms (List SourceReservation)} {current : SweepRequest}
      {db : FinancialDatabase} (hplanned : Planned Treasury.profile current m)
      (hupdated : TreasuryStore.Updated s.db m current db) : Effect env s a s.core db

variable {π τ σ ρ : Type} {env : Environment} {s s' : System} {a : Action}

lemma Effect.unchanged : Effect env s a s.core s.db := .configured rfl

lemma planned_current {p : Profile τ σ ρ} {Required : π → Aggregate τ → Prop}
    {rows : List (Aggregate τ)} {log : Log π τ σ} (h : Sound p Required rows log)
    {read current : Aggregate τ} {m : UpdateMutation τ ρ} (hr : read ∈ log.seen)
    (hpl : Planned p read m) (hcu : current ∈ rows) (hv : AtVersion m current) :
    Planned p current m := by
  rw [read_unchanged h.coherent hr hpl hcu hv]
  exact hpl

/-- A committed transaction keeps the tables sound and has one of the listed effects. -/
lemma exec_sound (h : SystemSound s) (he : exec env s a = .ok s') :
    SystemSound s' ∧ Effect env s a s'.core s'.db := by
  obtain ⟨hre,hsw⟩ := h
  cases a with
  | core action =>
    simp only [exec] at he
    split at he
    next core hco =>
      cases he
      exact ⟨⟨hre,hsw⟩,.core hco⟩
    · cases he
  | setPolicies refund treasury | setDestinations rows =>
    cases he
    exact ⟨⟨hre,hsw⟩,.configured rfl⟩
  | acquireLease tenantID aggregateType aggregateID ownerID duration =>
    obtain ⟨⟨db,fence⟩,hl,rfl⟩ := map_eq_ok.mp he
    obtain ⟨leases,rfl⟩ := acquireFinancialLease_leases hl
    exact ⟨⟨hre,hsw⟩,.configured rfl⟩
  | syncSettlements tenantID limit =>
    obtain ⟨r,hsy,rfl⟩ := map_eq_ok.mp he
    refine ⟨?_,.synced hsy rfl⟩
    rw [syncSettlements_frame hsy]
    exact ⟨hre,hsw⟩
  | requestRefund evidence now identity command ids =>
    simp only [exec,do_ok] at he
    obtain ⟨⟨policy,m⟩,hru,⟨db,r,created⟩,hce,rfl⟩ := he
    rcases createRefund_eq_ok hce with ⟨rfl,rfl⟩ | ⟨rfl,rfl,hcr⟩
    · exact ⟨⟨hre,hsw⟩,.unchanged⟩
    · refine ⟨?_,.refundCreated hru hcr⟩
      rw [hcr.written]
      refine ⟨hre.created (fun s hs => (hcr.fresh s hs).1) fun hrq => ?_,hsw⟩
      rw [(request_status hru).1,if_pos hrq]
  | requestSweep activePolicy now identity command id =>
    simp only [exec,do_ok] at he
    obtain ⟨⟨policy,m⟩,hru,⟨db,r,created⟩,hce,rfl⟩ := he
    rcases createSweep_eq_ok hce with ⟨rfl,rfl⟩ | ⟨rfl,rfl,hcr⟩
    · exact ⟨⟨hre,hsw⟩,.unchanged⟩
    · refine ⟨?_,.sweepCreated hru hcr⟩
      rw [hcr.written]
      refine ⟨hre,hsw.created hcr.fresh fun hrq => ?_⟩
      rw [(requestSweep_status hru).1,if_pos hrq]
  | refund call read fence ids =>
    simp only [exec,do_ok] at he
    obtain ⟨hra,rfl⟩ := he
    generalize hca : refundShelf.call s.core.db s.db s.core.clock s.refundLog call read fence ids =
      result
    have hre' := hre.call refundShelf_lawful hra hca
    rcases call_planned hca with hdb | ⟨m,response,hp,hup⟩
    · exact ⟨⟨hre',hdb ▸ hsw⟩,hdb ▸ .unchanged⟩
    · rcases updateRefund_eq_ok hup with ⟨hdb,-⟩ | ⟨current,hu⟩
      · exact ⟨⟨hre',hdb ▸ hsw⟩,hdb ▸ .unchanged⟩
      · refine ⟨⟨hre',?_⟩,.refundUpdated (planned_current hre hra hp hu.stored hu.atVersion) hu⟩
        rw [hu.written]
        exact hsw
  | sweep call read fence ids =>
    simp only [exec,do_ok] at he
    obtain ⟨hra,rfl⟩ := he
    generalize hca : sweepShelf.call s.core.db s.db s.core.clock s.sweepLog call read fence ids =
      result
    have hsw' := hsw.call sweepShelf_lawful hra hca
    rcases call_planned hca with hdb | ⟨m,response,hp,hup⟩
    · exact ⟨⟨hdb ▸ hre,hsw'⟩,hdb ▸ .unchanged⟩
    · rcases updateSweep_eq_ok hup with ⟨hdb,-⟩ | ⟨current,hu⟩
      · exact ⟨⟨hdb ▸ hre,hsw'⟩,hdb ▸ .unchanged⟩
      · refine ⟨⟨?_,hsw'⟩,.sweepUpdated (planned_current hsw hra hp hu.stored hu.atVersion) hu⟩
        rw [hu.written]
        exact hre

lemma run_systemSound (env : Environment) (core : Workers.World) (actions : List Action) :
    SystemSound (run (exec env) (start core) actions) :=
  run_keeps (fun _ _ _ h he => (exec_sound h he).1) (systemSound_start core)

lemma run_tables {I : Workers.World → FinancialDatabase → Prop} {core : Workers.World}
    {actions : List Action} (hst : I core {})
    (hse : ∀ s a core' db', SystemSound s → I s.core s.db → Effect env s a core' db' → I core' db') :
    I (run (exec env) (start core) actions).core (run (exec env) (start core) actions).db := by
  have hk : ∀ s a s', SystemSound s ∧ I s.core s.db → exec env s a = .ok s' →
      SystemSound s' ∧ I s'.core s'.db := by
    intro s a s' hs he
    obtain ⟨hso,hef⟩ := exec_sound hs.1 he
    exact ⟨hso,hse s a _ _ hs.1 hs.2 hef⟩
  exact (run_keeps (P := fun s => SystemSound s ∧ I s.core s.db) hk ⟨systemSound_start core,hst⟩).2

section
variable {M : Type*} [AddMonoid M] {posted : List LedgerRow → String → M} {value : Aggregate τ → M}
  {rows : List (Aggregate τ)} {ledger more : List LedgerRow} {r : Aggregate τ}

/-- What is posted for a stored request is its value; for any other request nothing is posted. -/
structure Posted (posted : List LedgerRow → String → M) (value : Aggregate τ → M)
    (rows : List (Aggregate τ)) (ledger : List LedgerRow) : Prop where
  stored : ∀ r ∈ rows, posted ledger r.id = value r
  absent : ∀ id, (∀ r ∈ rows, r.id ≠ id) → posted ledger id = 0

variable (hadd : ∀ a b id, posted (a ++ b) id = posted a id+posted b id)

include hadd

section
variable (h : Posted posted value rows ledger)
include h

lemma Posted.append (hm : ∀ id, posted more id = 0) :
    Posted posted value rows (ledger ++ more) := by
  refine ⟨fun r hr => ?_,fun id hid => ?_⟩
  · rw [hadd,hm,h.stored r hr,add_zero]
  · rw [hadd,hm,h.absent id hid,add_zero]

lemma Posted.created (hf : ∀ s ∈ rows, s.id ≠ r.id) (hr : posted more r.id = value r)
    (ho : ∀ id, r.id ≠ id → posted more id = 0) :
    Posted posted value (rows ++ [r]) (ledger ++ more) := by
  refine ⟨forall_snoc (fun s hs => ?_) ?_,fun id hid => ?_⟩
  · rw [hadd,h.stored s hs,ho s.id (hf s hs).symm,add_zero]
  · rw [hadd,h.absent r.id hf,hr,zero_add]
  · rw [hadd,h.absent id fun s hs => hid s (mem_append_left _ hs),
      ho id (hid r (mem_append_right _ (mem_singleton.mpr rfl))),add_zero]

lemma Posted.updated {p : Profile τ σ ρ} {current : Aggregate τ} {m : UpdateMutation τ ρ}
    (hpl : Planned p current m) (hcu : current ∈ rows)
    (hu : ∀ r ∈ rows, r.id = current.id → r = current) (hv : AtVersion m current)
    (hn : value m.next = value current+posted more current.id)
    (ho : ∀ id, current.id ≠ id → posted more id = 0) :
    Posted posted value (Table.update (AtVersion m) (fun _ => m.next) rows) (ledger ++ more) := by
  have hid := congrArg Request.id hpl.moves.keeps.1
  refine ⟨fun r hr => ?_,fun id has => ?_⟩
  · rw [hadd]
    rcases mem_update_iff.mp hr with ⟨hr,hk⟩ | ⟨s,-,-,rfl⟩
    · have hne : current.id ≠ r.id := fun hsame => hk (hu r hr hsame.symm ▸ hv)
      rw [h.stored r hr,ho r.id hne,add_zero]
    · rw [hid,h.stored current hcu,hn]
  · have hne : current.id ≠ id := fun hsame =>
      has m.next (mem_update_self hcu hv) (hid.trans hsame)
    rw [hadd,ho id hne,add_zero]
    refine h.absent id fun r hr hsame => ?_
    by_cases hr' : AtVersion m r
    · exact hne ((hr'.2.1.trans hpl.aggregateID).symm.trans hsame)
    · exact has r (mem_update_of hr hr') hsame

end

end

end Ocrypt.FinancialEffects
