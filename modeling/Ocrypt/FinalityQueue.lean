import Ocrypt.FinancialWorkers

/-! The finality observation of the financial worker. Each cycle lists a page of broadcast,
confirmed and finalized requests and asks the verifier about each of them. -/
namespace Ocrypt.FinalityQueue
open Fallible Store Custody Refunds Treasury FinancialStore FinancialWorkers OrderedPages List

variable {τ σ ρ : Type} {rows : List (Aggregate τ)} {tenantID : String} {a b : Aggregate τ}
  {r : Aggregate τ}

inductive ObservedStatus
  | pending
  | confirmed
  | finalized
  | failed
  | reorged
  deriving DecidableEq, Repr

/-- The chain result that is recorded; nothing is recorded for a pending transaction. -/
def ObservedStatus.result : ObservedStatus → Option Status
  | .pending => none
  | .confirmed => some .confirmed
  | .finalized => some .finalized
  | .failed => some .failed
  | .reorged => some .reorged

structure FinalityObservation where
  transactionHash : String
  status : ObservedStatus
  evidenceDigest : String

def validateFinality (o : FinalityObservation) (expectedHash : String) : Bool :=
  o.transactionHash = expectedHash && safeTransactionHash o.transactionHash &&
    safeDigest o.evidenceDigest

/-- The answers of the verifier in one cycle, `none` for a failed call, and the identifiers that
the recorded results draw. -/
structure Verifier where
  sweep : SweepRequest → Option FinalityObservation
  refund : Refund → Option FinalityObservation
  ids : String → PostingIDs

def resultCommand (p : Profile τ σ ρ) (workerID : String) (item : Aggregate τ)
    (o : FinalityObservation) (status : Status) : ChainResultCommand where
  tenantID := item.tenantID
  aggregateID := item.id
  expectedVersion := item.version
  transactionHash := o.transactionHash
  status := status
  evidenceDigest := o.evidenceDigest
  workload := ⟨"finality:" ++ workerID,[p.permission "observe"]⟩

/-- The worker leases one item, asks the verifier and records a result that is new. -/
def observe (shelf : Shelf τ σ ρ) (core : Database) (workerID : String) (clock : ℤ)
    (answer : Aggregate τ → Option FinalityObservation) (ids : String → PostingIDs)
    (tenantID : String) (db : FinancialDatabase) (item : Aggregate τ) : FinancialDatabase :=
  match acquireFinancialLease db tenantID shelf.profile.kind item.id workerID (60*Requests.second)
      clock with
  | .ok (db,some fence) =>
    match (answer item).filter fun o => validateFinality o item.transactionHash with
    | none => db
    | some o =>
      match o.status.result with
      | none => db
      | some status =>
        if status = item.status then db
        else
          match shelf.profile.recordChainResult (shelf.repository db) clock
              (resultCommand shelf.profile workerID item o status) (ids item.id) with
          | .ok (.update m) =>
            match shelf.update core db clock (some fence) m with
            | .ok (db,_) => db
            | .error _ => db
          | _ => db
  | _ => db

structure Pages where
  sweeps : List SweepRequest := []
  refunds : List Refund := []

/-- `observeFinality` of one tenant; the worker calls it with a limit of 25. -/
def observeFinality (core : Database) (tenantID workerID : String) (limit clock : ℤ)
    (verifier : Verifier) (db : FinancialDatabase) : FinancialDatabase × Pages :=
  match listAwaitingFinality db.sweeps tenantID limit with
  | .error _ => (db,{})
  | .ok sweeps =>
    let db := sweeps.foldl
      (observe sweepShelf core workerID clock verifier.sweep verifier.ids tenantID) db
    match listAwaitingFinality db.refunds tenantID limit with
    | .error _ => (db,{ sweeps })
    | .ok refunds =>
      (refunds.foldl
        (observe refundShelf core workerID clock verifier.refund verifier.ids tenantID) db,
        { sweeps, refunds })

structure Watch where
  core : Database
  (tenantID workerID : String)
  limit : ℤ
  clock : ℕ → ℤ
  verifier : ℕ → Verifier

namespace Watch

def cycle (w : Watch) (k : ℕ) (db : FinancialDatabase) : FinancialDatabase × Pages :=
  observeFinality w.core w.tenantID w.workerID w.limit (w.clock k) (w.verifier k) db

/-- The tables that cycle `k` finds. -/
def before (w : Watch) (db : FinancialDatabase) : ℕ → FinancialDatabase
  | 0 => db
  | k+1 => (w.cycle k (w.before db k)).1

/-- The pages that cycle `k` lists. -/
def pages (w : Watch) (db : FinancialDatabase) (k : ℕ) : Pages := (w.cycle k (w.before db k)).2

end Watch

variable {w : Watch}

lemma observe_pending (shelf : Shelf τ σ ρ) (core : Database) (workerID : String) (clock : ℤ)
    {answer : Aggregate τ → Option FinalityObservation} (ids : String → PostingIDs)
    (tenantID : String) (hpending : ∀ item, ∃ o, answer item = some o ∧ o.status = .pending)
    (db : FinancialDatabase) (item : Aggregate τ) :
    LeasesOnly db (observe shelf core workerID clock answer ids tenantID db item) := by
  unfold observe
  obtain ⟨o,ho,hst⟩ := hpending item
  split
  · rename_i db' fence hle
    have hl := acquireFinancialLease_leases hle
    by_cases hv : validateFinality o item.transactionHash = true
    · simpa [ho,Option.filter,hv,hst,ObservedStatus.result] using hl
    · simpa [ho,Option.filter,hv] using hl
  · exact LeasesOnly.refl db

lemma foldl_leases {α : Type} {f : FinancialDatabase → α → FinancialDatabase}
    (hf : ∀ db x, LeasesOnly db (f db x)) (items : List α) (db : FinancialDatabase) :
    LeasesOnly db (items.foldl f db) := by
  induction items generalizing db with
  | nil => exact LeasesOnly.refl db
  | cons x items ih => exact (hf db x).trans (ih (f db x))

def comesFirst (a b : Aggregate τ) : Bool :=
  decide (a.updatedAt < b.updatedAt ∨ (a.updatedAt = b.updatedAt ∧ a.id ≤ b.id))

def watched (rows : List (Aggregate τ)) (tenantID : String) : List (Aggregate τ) :=
  rows.filter fun r => r.tenantID = tenantID ∧ r.status ∈ [.broadcast,.confirmed,.finalized]

lemma listAwaitingFinality_eq {limit : ℤ}
    (hlimit : 1 ≤ limit ∧ limit ≤ 200) : listAwaitingFinality rows tenantID limit =
      .ok (((watched rows tenantID).mergeSort comesFirst).take limit.toNat) := by
  unfold listAwaitingFinality
  rw [require_pos hlimit]
  rfl

lemma comesFirst_iff : comesFirst a b ↔ toLex (a.updatedAt,a.id) ≤ toLex (b.updatedAt,b.id) := by
  rw [comesFirst,decide_eq_true_eq,Prod.Lex.toLex_le_toLex]

lemma comesFirst_trans (a b c : Aggregate τ) (hab : comesFirst a b) (hbc : comesFirst b c) :
    comesFirst a c :=
  comesFirst_iff.mpr ((comesFirst_iff.mp hab).trans (comesFirst_iff.mp hbc))

lemma comesFirst_total (a b : Aggregate τ) : (comesFirst a b || comesFirst b a) = true := by
  simp only [Bool.or_eq_true,comesFirst_iff]
  exact le_total _ _

lemma comesFirst_antisymm (hab : comesFirst a b) (hba : comesFirst b a) : a.id = b.id :=
  congrArg (fun x => (ofLex x).2) ((comesFirst_iff.mp hab).antisymm (comesFirst_iff.mp hba))

lemma mem_page {n : ℕ} (hk : (rows.map fun r => r.id).Nodup) (hr : r ∈ watched rows tenantID) :
    r ∈ ((watched rows tenantID).mergeSort comesFirst).take n ↔
      (watched rows tenantID).countP (before comesFirst r) < n := by
  have hsu : (watched rows tenantID).Sublist rows := filter_sublist
  have hi := List.Nodup.sublist (hsu.map _) hk
  refine mem_page_iff comesFirst_trans comesFirst_total (List.Nodup.of_map _ hi) ?_ hr
  intro a ha b hb hab hba
  exact inj_on_of_nodup_map hi ha hb (comesFirst_antisymm hab hba)

def Verifier.Pending (v : Verifier) : Prop :=
  (∀ item, ∃ o, v.sweep item = some o ∧ o.status = .pending) ∧
    ∀ item, ∃ o, v.refund item = some o ∧ o.status = .pending

lemma observeFinality_pending {core : Database} {tenantID workerID : String} {limit clock : ℤ}
    {v : Verifier} (hpending : v.Pending) (hlimit : 1 ≤ limit ∧ limit ≤ 200)
    (db : FinancialDatabase) :
    LeasesOnly db (observeFinality core tenantID workerID limit clock v db).1 ∧
      (observeFinality core tenantID workerID limit clock v db).2 =
        ⟨((watched db.sweeps tenantID).mergeSort comesFirst).take limit.toNat,
          ((watched db.refunds tenantID).mergeSort comesFirst).take limit.toNat⟩ := by
  have hsw := foldl_leases (observe_pending sweepShelf core workerID clock v.ids tenantID
    hpending.1) (((watched db.sweeps tenantID).mergeSort comesFirst).take limit.toNat) db
  have hr := foldl_leases (observe_pending refundShelf core workerID clock v.ids tenantID
    hpending.2)
  unfold observeFinality
  simp only [listAwaitingFinality_eq hlimit]
  refine ⟨hsw.trans (hr ..),?_⟩
  obtain ⟨leases,hdb⟩ := hsw
  rw [hdb]

section
variable (hpending : ∀ k, (w.verifier k).Pending) (hlimit : 1 ≤ w.limit ∧ w.limit ≤ 200)
  (db : FinancialDatabase)
include hpending hlimit db

lemma Watch.before_leases (k : ℕ) : LeasesOnly db (w.before db k) := by
  induction k with
  | zero => exact LeasesOnly.refl db
  | succ k ih => exact ih.trans (observeFinality_pending (hpending k) hlimit _).1

lemma Watch.pages_eq (k : ℕ) : w.pages db k =
      ⟨((watched db.sweeps w.tenantID).mergeSort comesFirst).take w.limit.toNat,
        ((watched db.refunds w.tenantID).mergeSort comesFirst).take w.limit.toNat⟩ := by
  obtain ⟨leases,hbe⟩ := w.before_leases hpending hlimit db k
  unfold Watch.pages Watch.cycle
  rw [hbe]
  exact (observeFinality_pending (hpending k) hlimit _).2

end

def waiting (rows : List (Aggregate τ)) (tenantID : String) : ℕ :=
  rows.countP fun r => r.tenantID = tenantID ∧ r.status ∈ [.broadcast,.confirmed]

/-- The requests of the tenant, finalized ones among them, that a page takes before `r`. -/
def ahead (rows : List (Aggregate τ)) (tenantID : String) (r : Aggregate τ) : ℕ :=
  (watched rows tenantID).countP (before comesFirst r)

lemma listed_iff {limit : ℕ}
    (hke : (rows.map fun r => r.id).Nodup) (hr : r ∈ rows) (hte : r.tenantID = tenantID)
    (hst : r.status ∈ [.broadcast,.confirmed]) (cycles : ℕ) :
    (∃ k < cycles+1, r ∈ ((watched rows tenantID).mergeSort comesFirst).take limit) ↔
      ahead rows tenantID r < limit := by
  have hw : r ∈ watched rows tenantID := by
    unfold watched
    rw [mem_filter]
    refine ⟨hr,?_⟩
    simp only [mem_cons,not_mem_nil,or_false] at hst
    rcases hst with hst | hst <;> simp [hte,hst]
  unfold ahead
  rw [← mem_page hke hw]
  constructor
  · rintro ⟨_,_,hm⟩
    exact hm
  · intro hm
    exact ⟨0,by omega,hm⟩

/-- A waiting request is listed in the expected number of cycles exactly when fewer requests than
the limit are ahead of it; the pages of later cycles are the same, so it is never listed
otherwise. -/
theorem finality_listed_iff (w : Watch) (db : FinancialDatabase)
    (hsweepKeys : (db.sweeps.map fun r => r.id).Nodup)
    (hrefundKeys : (db.refunds.map fun r => r.id).Nodup)
    (hlimit : 1 ≤ w.limit ∧ w.limit ≤ 200) (hpending : ∀ k, (w.verifier k).Pending) :
    (∀ r ∈ db.sweeps, r.tenantID = w.tenantID → r.status ∈ [.broadcast,.confirmed] →
      ((∃ k < waiting db.sweeps w.tenantID / w.limit.toNat+1, r ∈ (w.pages db k).sweeps) ↔
        ahead db.sweeps w.tenantID r < w.limit.toNat)) ∧
    ∀ r ∈ db.refunds, r.tenantID = w.tenantID → r.status ∈ [.broadcast,.confirmed] →
      ((∃ k < waiting db.refunds w.tenantID / w.limit.toNat+1, r ∈ (w.pages db k).refunds) ↔
        ahead db.refunds w.tenantID r < w.limit.toNat) := by
  simp only [w.pages_eq hpending hlimit]
  constructor
  · intro r hr hte hst
    exact listed_iff hsweepKeys hr hte hst _
  · intro r hr hte hst
    exact listed_iff hrefundKeys hr hte hst _

def sampleRefund (id : String) (status : Status) (updatedAt : ℤ) : Refund where
  id := id
  tenantID := "tenant"
  assetID := "asset"
  chainID := "chain"
  policyID := "policy"
  policyVersion := 1
  creatorID := "alice"
  idempotencyKey := id
  requestHash := ""
  destination := ⟨"chain","payer"⟩
  terms := ⟨"settlement","destination",1,1,.zero,.merchant⟩
  createdAt := 0
  status := status
  transactionHash := "hash"
  updatedAt := updatedAt

def pendingVerifier : Verifier where
  sweep := fun r => some ⟨r.transactionHash,.pending,"digest"⟩
  refund := fun r => some ⟨r.transactionHash,.pending,"digest"⟩
  ids := fun _ => ⟨"",""⟩

lemma pendingVerifier_pending : pendingVerifier.Pending :=
  ⟨fun _ => ⟨_,rfl,rfl⟩,fun _ => ⟨_,rfl,rfl⟩⟩

def sampleWatch : Watch :=
  ⟨{},"tenant","worker",25,fun _ => 0,fun _ => pendingVerifier⟩

def sampleQueue : FinancialDatabase where
  refunds := [sampleRefund "a" .finalized 0,sampleRefund "z" .broadcast 1]

theorem finality_listed_sample : ∃ k < waiting sampleQueue.refunds "tenant" / 25+1,
      sampleRefund "z" .broadcast 1 ∈ (sampleWatch.pages sampleQueue k).refunds :=
  ((finality_listed_iff sampleWatch sampleQueue (by decide) (by decide) (by decide)
    (fun _ => pendingVerifier_pending)).2 _ (by decide) rfl (by decide)).mpr (by decide +kernel)

def crowdedQueue : FinancialDatabase where
  refunds := (List.range 25).map (fun i => sampleRefund (String.ofList [Char.ofNat (97+i)])
    .finalized 0) ++ [sampleRefund "z" .broadcast 1]

/-- Finalized refunds stay on the first page for good: the one refund that waits for its
confirmation is never listed. -/
theorem finalized_rows_hide_broadcast : (crowdedQueue.refunds.map fun r => r.id).Nodup ∧
      sampleRefund "z" .broadcast 1 ∈ crowdedQueue.refunds ∧
      waiting crowdedQueue.refunds "tenant" = 1 ∧
      ∀ k, sampleRefund "z" .broadcast 1 ∉ (sampleWatch.pages crowdedQueue k).refunds := by
  have hke : (crowdedQueue.refunds.map fun r => r.id).Nodup := by decide +kernel
  refine ⟨hke,by decide +kernel,by decide +kernel,fun k => ?_⟩
  rw [Watch.pages_eq (fun _ => pendingVerifier_pending) (by decide)]
  rw [mem_page hke (by decide +kernel)]
  decide +kernel

end Ocrypt.FinalityQueue
