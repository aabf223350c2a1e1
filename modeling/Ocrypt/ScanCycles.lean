import Ocrypt.CanonicalHistory
import Ocrypt.ReorgProgress

/-! Whole cycles of `RunOnce`: a cycle is a run of its transactions, and what it plans while the
providers serve one fixed chain without gaps. -/
namespace Ocrypt.ScanCycles
open Domain Fallible Table Store Scanner Reorg RangeChecks ScanWorker Transactions ScanRuns List

def CycleOf (w : Worker) (a : Answers) : Action → Prop
  | .start w' _ => w' = w
  | .renew call _ => call.worker = w
  | .commit call a' _ => call.worker = w ∧ a' = a
  | .rewind call a' _ _ => call.worker = w ∧ a' = a
  | .release call => call.worker = w
  | .other _ => False

def Outcome.rewound (o : Outcome) : Bool :=
  match o.result with
  | .error (.range (.reorg ..)) => true
  | _ => false

variable {capability newHash : String} {w : Worker} {a : Answers} {clock : ℤ} {lease : Lease}
  {db : Database}

section
variable {ext : Externals} {ids : ReorgIDs} {s : World} {db₁ : Database} {r : ScannedRange}

def leased (s : World) (db₁ : Database) (call : Call) : World :=
  { s with db := db₁, calls := s.calls ++ [call] }

lemma exec_leased (hst : w.start capability s.db a.now = .ok (db₁,lease)) :
    exec ext capability s (.start w a.now) = .ok (leased s db₁ ⟨w,lease⟩) := by
  simp only [exec,hst]
  rfl

lemma commit_release (call : Call) :
    (commit (exec ext capability) (leased s db₁ call) (.release call)).db =
      released capability db₁ call.lease := by
  have hca : call ∈ (leased s db₁ call).calls := by simp [leased]
  unfold released
  cases hr : release capability db₁ call.lease with
  | ok db =>
    have hee : exec ext capability (leased s db₁ call) (.release call) =
        .ok { leased s db₁ call with db := db } := by
      simp only [exec,require_pos hca]
      rw [show (leased s db₁ call).db = db₁ from rfl,hr]
      rfl
    rw [commit_of_ok hee]
  | error e =>
    rw [commit_of_not_ok]
    · rfl
    · intro t ht
      simp only [exec,require_pos hca] at ht
      rw [show (leased s db₁ call).db = db₁ from rfl,hr] at ht
      cases ht

lemma mem_leased {s : World} {db : Database} {call : Call} : call ∈ (leased s db call).calls := by
  simp [leased]

lemma exec_rewound (ext : Externals) (s : World) {height : ℕ}
    {committedHash : String} (hp : plan w lease a = .rewind r height committedHash newHash)
    (hre : rewindReorg capability db₁ lease r.stored height clock ids = .ok db) :
    ∃ t, exec ext capability (leased s db₁ ⟨w,lease⟩) (.rewind ⟨w,lease⟩ a clock ids) = .ok t ∧
      t.db = db := by
  simp only [exec,require_pos mem_leased,hp]
  rw [show (leased s db₁ ⟨w,lease⟩).db = db₁ from rfl,hre]
  exact ⟨_,rfl,rfl⟩

lemma exec_committed (s : World) (hp : plan w lease a = .commit r)
    (hco : RangeChecks.commit ext capability db₁ lease r clock = .ok db) :
    ∃ t, exec ext capability (leased s db₁ ⟨w,lease⟩) (.commit ⟨w,lease⟩ a clock) = .ok t ∧
      t.db = db := by
  simp only [exec,require_pos mem_leased,hp]
  rw [show (leased s db₁ ⟨w,lease⟩).db = db₁ from rfl,hco]
  exact ⟨_,rfl,rfl⟩

/-- A cycle is a run of the transactions that belong to it. -/
lemma runOnce_run (ext : Externals) (capability : String) (w : Worker) (a : Answers) (clock : ℤ)
    (ids : ReorgIDs) (s : World) :
    ∃ as, (∀ x ∈ as, CycleOf w a x) ∧ (run (exec ext capability) s as).db =
      (runOnce ext capability w s.db a clock ids).db := by
  cases hst : w.start capability s.db a.now with
  | error e =>
    refine ⟨[],by simp,?_⟩
    simp [runOnce,hst]
  | ok started =>
    obtain ⟨db₁,lease⟩ := started
    have hru : runOnce ext capability w s.db a clock ids =
        perform ext capability db₁ lease clock ids (plan w lease a) := by
      simp [runOnce,hst]
    have hl : commit (exec ext capability) s (.start w a.now) = leased s db₁ ⟨w,lease⟩ :=
      commit_of_ok (exec_leased hst)
    -- Whatever ends the cycle without a write gives the lease back.
    have hg : ∃ as, (∀ x ∈ as, CycleOf w a x) ∧ (run (exec ext capability) s as).db =
        released capability db₁ lease := by
      refine ⟨[.start w a.now,.release ⟨w,lease⟩],by simp [CycleOf],?_⟩
      rw [run_cons,run_cons,run_nil,hl,commit_release]
    rw [hru]
    cases hp : plan w lease a with
    | fail e => exact hg
    | idle => exact hg
    | gap fromHeight toHeight reason e => exact hg
    | rewind r height committedHash newHash =>
      cases hre : rewindReorg capability db₁ lease r.stored height clock ids with
      | error e =>
        simp only [perform,hre]
        exact hg
      | ok db =>
        obtain ⟨t,hee,rfl⟩ := exec_rewound ext s hp hre
        refine ⟨[.start w a.now,.rewind ⟨w,lease⟩ a clock ids],by simp [CycleOf],?_⟩
        rw [run_cons,run_cons,run_nil,hl,commit_of_ok hee]
        simp [perform,hre]
    | commit r =>
      cases hco : RangeChecks.commit ext capability db₁ lease r clock with
      | error e =>
        simp only [perform,hco]
        exact hg
      | ok db =>
        obtain ⟨t,hee,rfl⟩ := exec_committed s hp hco
        refine ⟨[.start w a.now,.commit ⟨w,lease⟩ a clock],by simp [CycleOf],?_⟩
        rw [run_cons,run_cons,run_nil,hl,commit_of_ok hee]
        simp [perform,hco]

lemma plan_not_reorg {e : RunError} (h : plan w lease a = .fail e ∨
      ∃ fromHeight toHeight reason, plan w lease a = .gap fromHeight toHeight reason e)
    (height : ℕ) (committedHash newHash : String) :
    e ≠ .range (.reorg height committedHash newHash) := by
  rintro rfl
  simp only [plan] at h
  split at h
  · simp at h
  split at h
  · simp at h
  split at h
  · simp at h
  split at h
  · simp at h
  simp only [judge] at h
  split at h
  · split at h <;> simp at h
  split at h
  · simp at h
  split at h
  · simp at h
  · simp at h
  · rename_i fault hf _
    simp only [reduceCtorEq,Plan.gap.injEq,false_or] at h
    obtain ⟨-,-,-,-,-,-,hsame⟩ := h
    cases hsame
    exact hf _ _ _ rfl

lemma plan_of_rewound (hst : w.start capability s.db a.now = .ok (db₁,lease))
    (h : Outcome.rewound (runOnce ext capability w s.db a clock ids) = true) :
    ∃ r height committedHash newHash, plan w lease a = .rewind r height committedHash newHash := by
  simp only [runOnce,hst] at h
  cases hp : plan w lease a with
  | rewind r height committedHash newHash => exact ⟨r,height,committedHash,newHash,rfl⟩
  | fail e =>
    simp only [hp,Outcome.rewound] at h
    split at h
    · rename_i hre
      cases hre
      exact absurd rfl (plan_not_reorg (.inl hp) _ _ _)
    · cases h
  | idle => simp [hp,perform,Outcome.rewound] at h
  | gap fromHeight toHeight reason e =>
    simp only [hp,Outcome.rewound] at h
    split at h
    · rename_i hre
      cases hre
      exact absurd rfl (plan_not_reorg (.inr ⟨_,_,_,hp⟩) _ _ _)
    · cases h
  | commit r =>
    simp only [hp,perform] at h
    split at h <;> simp [Outcome.rewound] at h

end

structure FixedChain (chainID : String) (chain : ℕ → Block) (events : List TransferEvent) :
    Prop where
  height : ∀ k, (chain k).height = k
  named : ∀ k, (chain k).hash ≠ "" ∧ (chain k).time ≠ 0
  linked : ∀ k, (chain (k+1)).parentHash = (chain k).hash
  transfers : ∀ e ∈ events, e.identity.chainID = chainID ∧ e.blockHash = (chain e.blockHeight).hash

structure Serves (w : Worker) (chain : ℕ → Block) (events : List TransferEvent) (height : ℕ)
    (a : Answers) : Prop where
  heads : ∃ heads safe, a.heads = .ok heads ∧ w.safeHeight heads a.now = .ok safe ∧ height ≤ safe
  ranges : ∀ fromHeight toHeight,
    a.scanRange fromHeight toHeight = .ok (served chain events fromHeight toHeight)
  renewal : a.renewal = .ok ()

section
variable {chainID : String} {chain : ℕ → Block} {events : List TransferEvent}
  {fromHeight toHeight : ℕ} {evidence : List ConfigEvidence} {b : Block}

def attested (chain : ℕ → Block) (events : List TransferEvent) (fromHeight toHeight : ℕ)
    (evidence : List ConfigEvidence) : ScannedRange :=
  { served chain events fromHeight toHeight with runtimeEvidence := evidence }

lemma mem_attested (h : FixedChain chainID chain events) (hle : fromHeight ≤ toHeight) :
    b ∈ (attested chain events fromHeight toHeight evidence).blocks ↔
      fromHeight ≤ b.height ∧ b.height ≤ toHeight ∧ b = chain b.height := by
  simp only [attested,served,mem_map,mem_range'_1]
  constructor
  · rintro ⟨k,⟨hl,hu⟩,rfl⟩
    rw [h.height]
    exact ⟨hl,by omega,rfl⟩
  · rintro ⟨hl,hu,hb⟩
    exact ⟨b.height,⟨hl,by omega⟩,hb.symm⟩

lemma getElem?_attested {j : ℕ}
    (h : (attested chain events fromHeight toHeight evidence).blocks[j]? = some b) :
    j ≤ toHeight - fromHeight ∧ b = chain (fromHeight+j) := by
  simp only [attested,served,List.getElem?_map,Option.map_eq_some_iff] at h
  obtain ⟨k,hk,rfl⟩ := h
  obtain ⟨hj,hg⟩ := List.getElem?_eq_some_iff.mp hk
  rw [List.length_range'] at hj
  rw [List.getElem_range'] at hg
  exact ⟨by omega,by rw [← hg,Nat.one_mul]⟩

section
variable (h : FixedChain chainID chain events) (hle : fromHeight ≤ toHeight)
include h hle

lemma hashAt_attested {k : ℕ} (hl : fromHeight ≤ k) (hu : k ≤ toHeight) :
    (attested chain events fromHeight toHeight evidence).hashAt? k = some (chain k).hash := by
  unfold ScannedRange.hashAt?
  cases hf : (attested chain events fromHeight toHeight evidence).blocks.reverse.find?
      (·.height = k) with
  | none =>
    have hn := find?_eq_none.mp hf (chain k) (by
      rw [mem_reverse,mem_attested h hle,h.height]
      exact ⟨hl,hu,rfl⟩)
    simp [h.height] at hn
  | some b =>
    obtain ⟨hm,hhe⟩ := mem_of_find? hf
    rw [mem_reverse,mem_attested h hle,hhe] at hm
    rw [hm.2.2]
    rfl

lemma shaped_attested :
    Shaped (attested chain events fromHeight toHeight evidence) fromHeight toHeight := by
  have hl : (attested chain events fromHeight toHeight evidence).blocks.length =
      toHeight - fromHeight+1 := by simp [attested,served]
  refine ⟨?_,?_,?_,?_,?_,?_,?_,?_⟩
  · simp [attested,served]
  · simp [attested,served]
  · refine ⟨rfl,le_rfl,hle,?_⟩
    intro hem
    rw [hem] at hl
    simp at hl
  · exact .inr ⟨rfl,hl⟩
  · intro j b hb
    obtain ⟨hj,rfl⟩ := getElem?_attested hb
    rw [Placed,h.height]
    change _ ∧ _ ∧ fromHeight+j ≤ toHeight ∧ _
    exact ⟨.inr rfl,by omega,by omega,h.named _⟩
  · rw [isChain_iff_getElem]
    intro j hj
    obtain ⟨-,hf⟩ := getElem?_attested (getElem?_eq_getElem (by omega :
      j < (attested chain events fromHeight toHeight evidence).blocks.length))
    obtain ⟨-,hse⟩ := getElem?_attested (getElem?_eq_getElem hj)
    rw [hf,hse,Follows,h.height,h.height]
    refine ⟨by omega,.inl ?_⟩
    exact h.linked (fromHeight+j)
  · refine ⟨chain toHeight,?_,h.height toHeight⟩
    rw [getLast?_eq_getElem?]
    simp only [attested,served]
    simp [Nat.add_sub_cancel' hle]
  · intro e he
    obtain ⟨hm,hr⟩ := mem_filter.mp he
    simp only [decide_eq_true_eq] at hr
    rw [hashAt_attested h hle hr.1 hr.2,(h.transfers e hm).2]

end

lemma validateCursor_conflict {found : Bool} {bs : List Block}
    (hne : newHash ≠ lease.hash) (hso : ∃ b ∈ bs, b.height = lease.height)
    (hal : ∀ b ∈ bs, b.height = lease.height → b.hash = newHash) :
    validateCursor lease found bs = .error (.reorg lease.height lease.hash newHash) := by
  induction bs generalizing found with
  | nil => simp at hso
  | cons b rest ih =>
    unfold validateCursor
    by_cases hh : b.height = lease.height
    · have hha := hal b mem_cons_self hh
      rw [if_pos hh,if_neg (by rw [hha]; exact hne),hh,hha]
    · rw [if_neg hh]
      apply ih
      · obtain ⟨c,hc,hch⟩ := hso
        rcases mem_cons.mp hc with rfl | hc
        · exact absurd hch hh
        · exact ⟨c,hc,hch⟩
      · exact fun c hc => hal c (mem_cons_of_mem b hc)

lemma scan_window {safe : ℕ} (hco : w.Configured) (hh : lease.hash ≠ "")
    (hf : lease.height+w.rangeSize < 2^64) (hsa : lease.height ≤ safe) :
    w.scanFrom lease ≤ lease.height ∧ lease.height ≤ w.scanTo (w.scanFrom lease) safe ∧
      (w.scanFrom lease = 0 ∨ w.scanFrom lease+w.overlap = lease.height+1) := by
  have hn : uint64 (lease.height+1) = lease.height+1 := Nat.mod_eq_of_lt (by omega)
  have hfr : w.scanFrom lease = lease.height+1 - w.overlap := by
    unfold Worker.scanFrom
    rw [if_pos ⟨by omega,hh⟩]
    split_ifs <;> omega
  have hto : uint64 (w.scanFrom lease+w.rangeSize - 1) = w.scanFrom lease+w.rangeSize - 1 :=
    Nat.mod_eq_of_lt (by omega)
  refine ⟨by omega,?_,by omega⟩
  exact le_min (by omega) hsa

lemma judge_served (h : FixedChain w.chainID chain events) :
    judge w lease fromHeight toHeight (.ok (served chain events fromHeight toHeight)) =
      match validateRange (attested chain events fromHeight toHeight w.runtimeEvidence) fromHeight
        toHeight lease w.overlap with
      | .ok () => .commit (attested chain events fromHeight toHeight w.runtimeEvidence)
      | .error (.reorg height committedHash newHash) =>
        .rewind (attested chain events fromHeight toHeight w.runtimeEvidence) height committedHash
          newHash
      | .error fault => .gap fromHeight toHeight "non_contiguous_range" (.range fault) := by
  have ho : ¬∃ e ∈ (served chain events fromHeight toHeight).events,
      e.identity.chainID ≠ w.chainID := by
    rintro ⟨e,he,hne⟩
    exact hne (h.transfers e (mem_filter.mp he).1).1
  simp only [judge]
  rw [if_neg ho]
  rfl

lemma plan_conflict (h : FixedChain w.chainID chain events) (hco : w.Configured)
    (hse : Serves w chain events lease.height a) (hha : lease.hash ≠ "")
    (hf : lease.height+w.rangeSize < 2^64) (ho : (chain lease.height).hash ≠ lease.hash) :
    ∃ toHeight, w.scanFrom lease ≤ lease.height ∧ lease.height ≤ toHeight ∧
      (w.scanFrom lease = 0 ∨ w.scanFrom lease+w.overlap = lease.height+1) ∧
      plan w lease a = .rewind (attested chain events (w.scanFrom lease) toHeight w.runtimeEvidence)
        lease.height lease.hash (chain lease.height).hash := by
  obtain ⟨heads,safe,hhd,hsa,hr⟩ := hse.heads
  obtain ⟨hl,hu,hst⟩ := scan_window hco hha hf hr
  refine ⟨w.scanTo (w.scanFrom lease) safe,hl,hu,hst,?_⟩
  have hle := hl.trans hu
  have hre : validateRange (attested chain events (w.scanFrom lease)
      (w.scanTo (w.scanFrom lease) safe) w.runtimeEvidence) (w.scanFrom lease)
      (w.scanTo (w.scanFrom lease) safe) lease w.overlap =
      .error (.reorg lease.height lease.hash (chain lease.height).hash) := by
    unfold validateRange
    rw [validateShape_eq_ok.mpr (shaped_attested h hle)]
    rw [if_pos ⟨hco.2.1,hha⟩]
    apply validateCursor_conflict ho
    · refine ⟨chain lease.height,?_,h.height _⟩
      rw [mem_attested h hle,h.height]
      exact ⟨hl,hu,rfl⟩
    · intro b hb hhe
      rw [mem_attested h hle,hhe] at hb
      rw [hb.2.2]
  simp only [plan,hhd,hsa,hse.renewal,hse.ranges,judge_served h,hre]
  rw [if_neg (by omega)]

end

structure Ready (w : Worker) : Prop where
  configured : w.Configured
  age : second ≤ w.headAge
  names : w.chainID ≠ "" ∧ w.shard ≠ "" ∧ w.owner ≠ ""
  duration : second ≤ w.leaseDuration ∧ w.leaseDuration ≤ 10*minute

abbrev Free (owner : String) (now : ℤ) (c : ScannerCursor) : Prop :=
  c.lockedUntil = none ∨ (∃ u ∈ c.lockedUntil, u < now) ∨ c.lockedBy = some owner

section
variable {now : ℤ}

lemma row_mem_ensureCursor (capability : String) (cursors : List ScannerCursor)
    (chainID shard : String) : ∃ c ∈ ensureCursor cursors chainID shard capability,
      cursorKey c = (chainID,shard,capability) := by
  unfold ensureCursor
  split_ifs with he
  · obtain ⟨c,hc,hch,hsh,hca⟩ := he
    exact ⟨c,hc,by rw [cursorKey,hch,hsh,hca]⟩
  · exact ⟨_,mem_concat_self,rfl⟩

lemma start_commits (hre : Ready w) (hk : (db.cursors.map cursorKey).Nodup)
    (hfr : Free w.owner now (row capability db.cursors w.chainID w.shard))
    (hfi : (row capability db.cursors w.chainID w.shard).height < 2^64)
    (hli : clock < now+w.leaseDuration) : let c := row capability db.cursors w.chainID w.shard
    let lease : Lease := ⟨w.chainID,w.shard,w.owner,c.height,c.hash,c.version+1⟩
    ∃ cursors, w.start capability db now = .ok ({ db with cursors := cursors },lease) ∧
      cursors.countP (HoldsCursor capability lease clock) = 1 := by
  intro c lease
  have hac : ∃ r, acquire capability db w.chainID w.shard w.owner w.leaseDuration now =
      .ok r := by
    obtain ⟨hk',hsame⟩ := row_ensureCursor capability w.chainID w.shard hk
    obtain ⟨c',hc',hke⟩ := row_mem_ensureCursor capability db.cursors w.chainID w.shard
    have hro : c = c' := by
      rw [← row_eq hk' hc' hke,hsame]
    simp only [cursorKey,Prod.mk.injEq] at hke
    have hf : ∃ d, (ensureCursor db.cursors w.chainID w.shard capability).find? (fun c =>
        decide (c.chainID = w.chainID ∧ c.shard = w.shard ∧ c.capability = capability ∧
          (c.lockedUntil = none ∨ (∃ u ∈ c.lockedUntil, u < now) ∨
            c.lockedBy = some w.owner))) = some d := by
      rw [← Option.isSome_iff_exists,find?_isSome]
      refine ⟨c',hc',?_⟩
      rw [decide_eq_true_eq,← hro]
      exact ⟨hro ▸ hke.1,hro ▸ hke.2.1,hro ▸ hke.2.2,hfr⟩
    obtain ⟨d,hd⟩ := hf
    simp only [acquire,do_ok,orFail_eq_ok]
    exact ⟨_,⟨hre.names.1,hre.names.2.1,hre.names.2.2,hre.duration.1, hre.duration.2⟩,d,hd,rfl⟩
  obtain ⟨⟨db₁,lease'⟩,hac⟩ := hac
  obtain ⟨rfl,hup,hdb⟩ := acquire_row hk hac
  rw [hdb] at hac
  refine ⟨db₁.cursors,start_eq_ok.mpr ⟨hre.configured,hre.age,hac,hfi⟩,?_⟩
  have hro := hup.changed
  rcases row_mem_or capability db₁.cursors w.chainID w.shard with ⟨hm,hke⟩ | hde
  · refine countP_key hup.keys hm ?_ ?_
    · have hke' := hke
      simp only [cursorKey,Prod.mk.injEq] at hke'
      refine ⟨hke'.1,hke'.2.1,hke'.2.2,?_,?_,?_⟩
      · rw [hro]
      · rw [hro]
      · rw [hro]
        exact ⟨_,rfl,hli⟩
    · intro d _ hd
      rw [hke,cursorKey,hd.1,hd.2.1,hd.2.2.1]
  · rw [hde] at hro
    have hl := congrArg ScannerCursor.lockedBy hro
    cases hl

end

end Ocrypt.ScanCycles
