import Ocrypt.RefundHistory

/-! Repeated runs of `SyncSettlements`. Every run selects the oldest matches anew, also those that
have their settlement already. -/
namespace Ocrypt.SettlementSync
open Fallible Table Store FinancialStore RefundStore FinancialWorkers FinancialRuns RefundHistory
  Transactions List

def ids (rows : List SettlementRow) : List String := rows.map (·.id)

def money (s : SettlementRow) : String × ℕ × ℕ := (s.id,s.receivedAmount.n,s.refundedAmount.n)

variable (env : Environment) (tenantID : String) (limit : ℤ) (s : System) (k : ℕ)

/-- Consecutive runs without other changes in between. -/
def synced : System :=
  run (exec env) s (List.replicate k (.syncSettlements tenantID limit))

def entered : List SettlementRow :=
  (selected env.createdAt s.core.db tenantID limit).map fun x => settlementOf x.1 x.2

/-- The request is valid, and no selected match needs a second settlement of its event. -/
def Admits : Prop :=
  (tenantID ≠ "" ∧ 1 ≤ limit ∧ limit ≤ 1000) ∧
    ∃ rows, traverse upsertSettlement (entered env tenantID limit s) s.db.settlements = .ok rows

/-- Every match has its settlement already or is among the oldest `limit` ones. -/
def Covered : Prop :=
  ∀ x ∈ refundable s.core.db tenantID, x.1.id ∈ ids s.db.settlements ∨
    (Admits env tenantID limit s ∧ x.1.id ∈ ids (entered env tenantID limit s))

variable {env : Environment} {s t : System} {tenantID i : String} {limit : ℤ}
  {rows rows' l : List SettlementRow} {e : SettlementRow}

lemma ids_update {p : SettlementRow → Prop} [DecidablePred p] {f : SettlementRow → SettlementRow}
    (h : ∀ s, (f s).id = s.id) : ids (update p f rows) = ids rows :=
  map_update fun s _ _ => h s

lemma upsertSettlement_ids (h : upsertSettlement rows e = .ok rows') :
    i ∈ ids rows' ↔ i ∈ ids rows ∨ i = e.id := by
  unfold upsertSettlement at h
  split_ifs at h with hc
  · cases h
    rw [ids_update (f := recheck e) fun _ => rfl]
    refine ⟨.inl,fun hi => hi.elim id fun hi => ?_⟩
    obtain ⟨s,hs,hid⟩ := hc
    exact hi ▸ hid ▸ mem_map_of_mem hs
  · obtain ⟨-,rfl⟩ := insertUnique_eq_ok.mp h
    simp [ids]

lemma traverse_ids (h : traverse upsertSettlement l rows = .ok rows') :
    i ∈ ids rows' ↔ i ∈ ids rows ∨ i ∈ ids l := by
  induction l generalizing rows with
  | nil =>
    cases h
    simp [ids]
  | cons e l ih =>
    obtain ⟨mid,hm,hr⟩ := traverse_cons_eq_ok.mp h
    rw [ih hr,upsertSettlement_ids hm]
    simp [ids,or_assoc]

lemma exec_sync_rows (h : exec env s (.syncSettlements tenantID limit) = .ok t) :
    t.core = s.core ∧ Admits env tenantID limit s ∧ ∃ rows, ∃ stale : SettlementRow → Bool,
      traverse upsertSettlement (entered env tenantID limit s) s.db.settlements = .ok rows ∧
        t.db.settlements = update (fun s => stale s) hold rows := by
  obtain ⟨r,hr,rfl⟩ := map_eq_ok.mp h
  obtain ⟨rows,stale,hru,heq⟩ := syncSettlements_rows hr
  simp only [syncSettlements,do_ok] at hr
  exact ⟨rfl,⟨hr.1,rows,hru⟩,rows,stale,hru,heq⟩

lemma exec_sync_ids (h : exec env s (.syncSettlements tenantID limit) = .ok t) :
    i ∈ ids t.db.settlements ↔ i ∈ ids s.db.settlements ∨ i ∈ ids (entered env tenantID limit s) := by
  obtain ⟨-,-,rows,stale,hr,heq⟩ := exec_sync_rows h
  rw [← traverse_ids hr,heq,ids_update (f := hold) fun _ => rfl]

lemma exists_exec_sync (h : Admits env tenantID limit s) :
    ∃ t, exec env s (.syncSettlements tenantID limit) = .ok t := by
  obtain ⟨hre,rows,hru⟩ := h
  have hr : ∃ r, syncSettlements env.createdAt s.core.db s.db tenantID limit s.core.clock = .ok r := by
    simp only [syncSettlements,do_ok]
    exact ⟨_,hre,rows,hru,rfl⟩
  obtain ⟨r,hr⟩ := hr
  exact ⟨_,map_eq_ok.mpr ⟨r,hr,rfl⟩⟩

lemma commit_sync (h : ¬Admits env tenantID limit s) :
    commit (exec env) s (.syncSettlements tenantID limit) = s :=
  commit_of_not_ok fun _ ht => h (exec_sync_rows ht).2.1

lemma synced_of_not_admits (h : ¬Admits env tenantID limit s) (k : ℕ) :
    synced env tenantID limit s k = s := by
  induction k with
  | zero => rfl
  | succ k ih => rwa [synced,replicate_succ,run_cons,commit_sync h]

lemma synced_invariant {P : System → Prop} (hs : P s)
    (h : ∀ s t, P s → exec env s (.syncSettlements tenantID limit) = .ok t → P t) (k : ℕ) :
    P (synced env tenantID limit s k) := by
  refine run_invariant (C := fun _ a => a = .syncSettlements tenantID limit) ?_ hs ?_
  · rintro s _ t hP rfl ht
    exact h s t hP ht
  · exact along_of_forall fun a ha _ => eq_of_mem_replicate ha

lemma synced_add (k m : ℕ) : synced env tenantID limit s (k+m) =
    synced env tenantID limit (synced env tenantID limit s k) m := by
  rw [synced,replicate_add,run,foldl_append]
  rfl

lemma entered_congr (h : t.core = s.core) :
    entered env tenantID limit t = entered env tenantID limit s := by
  rw [entered,h,entered]

/-- Later runs keep the settlements and enter no others than the first. -/
lemma synced_ids : (synced env tenantID limit s k).core = s.core ∧
    ∀ i, (i ∈ ids s.db.settlements → i ∈ ids (synced env tenantID limit s k).db.settlements) ∧
      (i ∈ ids (synced env tenantID limit s k).db.settlements →
        i ∈ ids s.db.settlements ∨ i ∈ ids (entered env tenantID limit s)) := by
  refine synced_invariant (P := fun t => t.core = s.core ∧ ∀ i,
    (i ∈ ids s.db.settlements → i ∈ ids t.db.settlements) ∧ (i ∈ ids t.db.settlements →
      i ∈ ids s.db.settlements ∨ i ∈ ids (entered env tenantID limit s)))
    ⟨rfl,fun i => ⟨id,.inl⟩⟩ (fun t u ht hu => ?_) k
  refine ⟨(exec_sync_rows hu).1.trans ht.1,fun i => ?_⟩
  rw [exec_sync_ids hu,entered_congr ht.1]
  exact ⟨fun hi => .inl ((ht.2 i).1 hi),fun hi => hi.elim (ht.2 i).2 .inr⟩

lemma mem_synced (h : Admits env tenantID limit s) (k : ℕ) :
    i ∈ ids (synced env tenantID limit s (k+1)).db.settlements ↔
      i ∈ ids s.db.settlements ∨ i ∈ ids (entered env tenantID limit s) := by
  obtain ⟨t,ht⟩ := exists_exec_sync h
  refine ⟨((synced_ids (k+1)).2 i).2,fun hi => ?_⟩
  rw [synced,replicate_succ,run_cons,commit_of_ok ht]
  exact ((synced_ids k).2 i).1 ((exec_sync_ids ht).mpr hi)

/-- A run that finds all selected matches entered rewrites no money. -/
lemma synced_money (h : ∀ e ∈ entered env tenantID limit s, e.id ∈ ids s.db.settlements) (k : ℕ) :
    (synced env tenantID limit s k).db.settlements.map money = s.db.settlements.map money := by
  refine (synced_invariant (P := fun t => t.core = s.core ∧
    t.db.settlements.map money = s.db.settlements.map money) ⟨rfl,rfl⟩ (fun t u ht hu => ?_) k).2
  obtain ⟨hco,-,rows,stale,hr,heq⟩ := exec_sync_rows hu
  rw [entered_congr ht.1] at hr
  refine ⟨hco.trans ht.1,?_⟩
  rw [heq,map_update (g := money) (f := hold) fun _ _ _ => rfl]
  refine traverse_invariant (P := fun rows => rows.map money = s.db.settlements.map money)
    (fun rows e rows' hm hP hup => ?_) ht.2 hr
  have hin : ∃ x ∈ rows, x.id = e.id := by
    have hid : ids rows = ids s.db.settlements := by
      simpa [ids,money,Function.comp_def] using congrArg (List.map Prod.fst) hP
    have hi : e.id ∈ ids rows := hid ▸ h e hm
    exact mem_map.mp hi
  rw [upsertSettlement,if_pos hin] at hup
  cases hup
  rw [map_update (g := money) (f := recheck e) fun _ _ _ => rfl]
  exact hP

/-- The runs that would page through all matches enter every one exactly when all that are not
among the oldest have their settlement already. -/
theorem settlements_registered_iff (env : Environment) (s : System) (tenantID : String) {limit : ℤ}
    (hl : 1 ≤ limit) : let n := (refundable s.core.db tenantID).length
    let runs := (n+limit.toNat - 1) / limit.toNat
    ((∀ x ∈ refundable s.core.db tenantID,
        x.1.id ∈ ids (synced env tenantID limit s runs).db.settlements) ∧
      ∀ more, (synced env tenantID limit s (runs+more)).db.settlements.map money =
        (synced env tenantID limit s runs).db.settlements.map money) ↔
      Covered env tenantID limit s := by
  intro n runs
  by_cases ha : Admits env tenantID limit s
  swap
  · simp [synced_of_not_admits ha,Covered,ha]
  have hso : n ≠ 0 → ∃ k, runs = k+1 := fun hn =>
    Nat.exists_eq_add_one.mpr (Nat.div_pos (by omega) (by omega))
  have hm : ∀ i, n ≠ 0 → (i ∈ ids (synced env tenantID limit s runs).db.settlements ↔
      i ∈ ids s.db.settlements ∨ i ∈ ids (entered env tenantID limit s)) := fun i hn => by
    obtain ⟨k,hk⟩ := hso hn
    rw [hk,mem_synced ha]
  have hmo : ∀ more, (synced env tenantID limit s (runs+more)).db.settlements.map money =
      (synced env tenantID limit s runs).db.settlements.map money := by
    intro more
    rw [synced_add]
    refine synced_money (fun e he => ?_) more
    rw [entered_congr (synced_ids runs).1] at he
    by_cases hn : n = 0
    · simp [entered,selected,eq_nil_of_length_eq_zero hn] at he
    · exact (hm e.id hn).mpr (.inr (mem_map_of_mem he))
  rw [and_iff_left hmo]
  refine forall₂_congr fun x hx => ?_
  rw [hm _ (ne_nil_of_mem hx ∘ eq_nil_of_length_eq_zero),and_iff_right ha]

def sampleMatch (id : String) : PaymentMatch where
  id := id
  tenantID := "tenant"
  source := .transfer id
  routeID := "route"
  intentID := "intent"
  kind := .exact
  expected := 90
  received := 90
  credited := 90
  state := .finalized
  policyVersion := 1
  aggregateID := none
  role := .payment

def sampleMatched : System where
  core := { db := {
    paymentMatches := [sampleMatch "a",sampleMatch "b"]
    transferEvents := ["a","b"].map fun id => Workers.samplePayment id 90 "block" } }

lemma selected_sample : selected sampleEnvironment.createdAt sampleMatched.core.db "tenant"
    limit = (refundable sampleMatched.core.db "tenant").take limit.toNat := by
  rw [selected,mergeSort_of_pairwise (by decide +kernel)]

theorem settlements_registered_sample :
    "b" ∈ ids (synced sampleEnvironment "tenant" 2 sampleMatched 1).db.settlements := by
  have hc : Covered sampleEnvironment "tenant" 2 sampleMatched := by
    intro x hx
    refine .inr ⟨⟨by decide,_,by rw [entered,selected_sample]; rfl⟩,?_⟩
    rw [entered,selected_sample]
    revert x
    decide +kernel
  have hr := ((settlements_registered_iff sampleEnvironment sampleMatched "tenant"
    (by decide)).mpr hc).1
  exact hr (sampleMatch "b",Workers.samplePayment "b" 90 "block")
    (by simp [refundable,eventOf,sampleMatched,sampleMatch,Workers.samplePayment,Matching.sampleTransfer])

/-- Both runs select the older of the two matches. -/
theorem later_match_not_registered :
    (refundable sampleMatched.core.db "tenant").map (·.1.id) = ["a","b"] ∧
      "b" ∉ ids (synced sampleEnvironment "tenant" 1 sampleMatched 2).db.settlements := by
  refine ⟨by decide +kernel,fun h => ?_⟩
  have hin := ((synced_ids 2).2 "b").2 h
  rw [entered,selected_sample] at hin
  revert hin
  decide +kernel

end Ocrypt.SettlementSync
