import Ocrypt.RangeChecks
import Ocrypt.Workers

/-! `Worker.RunOnce`, one cycle of a chain scanner: lease the cursor, agree on a safe height,
scan a range that overlaps what is committed, and commit it, rewind the cursor or report a gap. -/
namespace Ocrypt.ScanWorker
open Domain Fallible Table Store Scanner Reorg RangeChecks

structure ProviderHead where
  (provider chainID genesisHash : String)
  safeHeight : ℕ
  observedAt : ℤ
  deriving DecidableEq, Repr

structure Worker where
  (chainID genesisHash shard owner : String)
  (quorum overlap rangeSize : ℕ)
  (leaseDuration maxHeadAge : ℤ)
  finalityDepth : ℕ
  runtimeEvidence : List ConfigEvidence := []
  deriving DecidableEq

/-- An error of a source; a retryable one is expected to clear without an operator. -/
structure SourceFailure where
  detail : String
  retryable : Bool
  deriving DecidableEq, Repr

inductive RunError
  | failed (failure : Failure)
  | source (failure : SourceFailure)
  | range (fault : RangeFault)
  deriving DecidableEq, Repr

/-- What a call meets outside the store: its clock, the answers of the source, and what the
goroutine that renews the lease reports when it is stopped. -/
structure Answers where
  now : ℤ
  heads : Except SourceFailure (List ProviderHead)
  scanRange : (fromHeight toHeight : ℕ) → Except SourceFailure ScannedRange
  renewal : Except Failure Unit := .ok ()

/-- The value that a `uint64` expression wraps to. -/
def uint64 (n : ℕ) : ℕ := n % 2^64

/-- The heights of the heads that count, one for each provider: of the chain, and neither stale
nor from the future. -/
def freshHeights (chainID genesis : String) (now maxAge : ℤ) :
    List String → List ProviderHead → List ℕ
  | _, [] => []
  | providers, head::rest =>
    if head.chainID = chainID ∧ head.genesisHash = genesis ∧ head.provider ≠ "" ∧
        head.provider ∉ providers ∧ head.observedAt ≠ 0 ∧ now - head.observedAt ≤ maxAge ∧
        head.observedAt ≤ now+30*second then
      head.safeHeight::freshHeights chainID genesis now maxAge (head.provider::providers) rest
    else freshHeights chainID genesis now maxAge providers rest

/-- The height that at least `quorum` providers hold as safe. -/
def quorumSafeHeightAt (heads : List ProviderHead) (chainID genesis : String) (quorum : ℕ)
    (now maxAge : ℤ) : Except Failure ℕ := do
  let heights := freshHeights chainID genesis now maxAge [] heads
  require (quorum ≤ heights.length) ⟨.unwrapped,"provider quorum unavailable"⟩
  pure ((heights.insertionSort (· ≥ ·)).getD (quorum - 1) 0)

namespace Worker
variable (w : Worker)

def headAge : ℤ := if w.maxHeadAge = 0 then 2*minute else w.maxHeadAge

abbrev Configured : Prop := 1 ≤ w.quorum ∧ 1 ≤ w.overlap ∧ w.overlap < w.rangeSize

/-- The safe height of the chain, `FinalityDepth` below what the providers agree on. -/
def safeHeight (heads : List ProviderHead) (now : ℤ) : Except Failure ℕ := do
  let height ← quorumSafeHeightAt heads w.chainID w.genesisHash w.quorum now w.headAge
  pure (height - w.finalityDepth)

/-- The first height to scan: an overlap below a committed cursor, or just above a cursor that
is bound to no block. -/
def scanFrom (lease : Lease) : ℕ :=
  let next := uint64 (lease.height+1)
  if 0 < w.overlap ∧ lease.hash ≠ "" then
    if w.overlap < next then lease.height - w.overlap+1 else 0
  else next

def scanTo (fromHeight safe : ℕ) : ℕ := min (uint64 (fromHeight+w.rangeSize - 1)) safe

/-- Check the configuration and lease the cursor. Its height is read as a `uint64`. -/
def start (capability : String) (db : Database) (now : ℤ) : Except Failure (Database × Lease) := do
  require w.Configured ⟨.unwrapped,"invalid scanner configuration"⟩
  require (second ≤ w.headAge) ⟨.unwrapped,"invalid scanner head freshness policy"⟩
  let (db,lease) ← acquire capability db w.chainID w.shard w.owner w.leaseDuration now
  require (lease.height < 2^64) ⟨.unwrapped,"value out of range"⟩
  pure (db,lease)

end Worker

inductive Plan
  | fail (error : RunError)
  | idle
  | gap (fromHeight toHeight : ℕ) (reason : String) (error : RunError)
  | rewind (r : ScannedRange) (height : ℕ) (committedHash newHash : String)
  | commit (r : ScannedRange)

variable (w : Worker) (height : ℕ)

def judge (lease : Lease) (fromHeight toHeight : ℕ) : Except SourceFailure ScannedRange → Plan
  | .error e =>
    if e.retryable then .fail (.source e) else .gap fromHeight toHeight "provider_error" (.source e)
  | .ok r =>
    let r := { r with runtimeEvidence := w.runtimeEvidence }
    if ∃ e ∈ r.events, e.identity.chainID ≠ w.chainID then
      .gap fromHeight toHeight "cross_chain_event"
        (.failed ⟨.unwrapped,"normalized event belongs to another chain"⟩)
    else
      match validateRange r fromHeight toHeight lease w.overlap with
      | .ok () => .commit r
      | .error (.reorg height committedHash newHash) => .rewind r height committedHash newHash
      | .error fault => .gap fromHeight toHeight "non_contiguous_range" (.range fault)

def plan (lease : Lease) (a : Answers) : Plan :=
  match a.heads with
  | .error e => .fail (.source e)
  | .ok heads =>
    match w.safeHeight heads a.now with
    | .error e => .fail (.failed e)
    | .ok safe =>
      let fromHeight := w.scanFrom lease
      match a.renewal with
      | .error e => .fail (.failed e)
      | .ok () =>
        if safe < fromHeight then .idle
        else
          let toHeight := w.scanTo fromHeight safe
          judge w lease fromHeight toHeight (a.scanRange fromHeight toHeight)

structure Gap where
  chainID : String
  (fromHeight toHeight : ℕ)
  reason : String
  deriving DecidableEq, Repr

/-- `RecordGap`, whose error is dropped. -/
def recordGap (chainID : String) (fromHeight toHeight : ℕ) (reason : String) : List Gap :=
  if chainID ≠ "" ∧ reason ≠ "" ∧ fromHeight ≤ toHeight then [⟨chainID,fromHeight,toHeight,reason⟩]
  else []

/-- `Release`, whose error is dropped. -/
def released (capability : String) (db : Database) (lease : Lease) : Database :=
  match release capability db lease with
  | .ok db => db
  | .error _ => db

/-- The database after a cycle, the gaps it recorded and what it returned: nothing, or the
committed range. -/
structure Outcome where
  db : Database
  gaps : List Gap
  result : Except RunError (Option ScannedRange)

/-- Carry out a plan. The lease is given back by the transaction or, when that fails or there is
none, by a deferred call. -/
def perform (ext : Externals) (capability : String) (db : Database) (lease : Lease) (clock : ℤ)
    (ids : ReorgIDs) : Plan → Outcome
  | .fail e => ⟨released capability db lease,[],.error e⟩
  | .idle => ⟨released capability db lease,[],.ok none⟩
  | .gap fromHeight toHeight reason e =>
    ⟨released capability db lease,recordGap lease.chainID fromHeight toHeight reason,.error e⟩
  | .rewind r height committedHash newHash =>
    match rewindReorg capability db lease r.stored height clock ids with
    | .ok db' =>
      ⟨db',[⟨lease.chainID,(rewindPoint db lease r.stored).height+1,lease.height,
        "canonical_reorg"⟩],.error (.range (.reorg height committedHash newHash))⟩
    | .error e =>
      ⟨released capability db lease,[],
        .error (.failed { e with detail := "persist reorg rewind: " ++ e.detail })⟩
  | .commit r =>
    match commit ext capability db lease r clock with
    | .ok db' => ⟨db',[],.ok (some r)⟩
    | .error e => ⟨released capability db lease,[],.error (.failed e)⟩

/-- One cycle that nobody interrupts; `clock` is the time of its last transaction. -/
def runOnce (ext : Externals) (capability : String) (w : Worker) (db : Database) (a : Answers)
    (clock : ℤ) (ids : ReorgIDs) : Outcome :=
  match w.start capability db a.now with
  | .error e => ⟨db,[],.error (.failed e)⟩
  | .ok (db,lease) => perform ext capability db lease clock ids (plan w lease a)

section
variable {ext : Externals} {capability : String} {w : Worker} {db db₁ : Database} {lease : Lease}
  {now : ℤ} {answer : Except SourceFailure ScannedRange} {r : ScannedRange}
  {fromHeight toHeight : ℕ} {p : Plan} {a : Answers}

lemma start_eq_ok : w.start capability db now = .ok (db₁,lease) ↔
    w.Configured ∧ second ≤ w.headAge ∧
      acquire capability db w.chainID w.shard w.owner w.leaseDuration now = .ok (db₁,lease) ∧
      lease.height < 2^64 := by
  simp only [Worker.start,do_ok,Prod.exists,Prod.mk.injEq]
  constructor
  · rintro ⟨hco,hag,d,l,hac,hf,rfl,rfl⟩
    exact ⟨hco,hag,hac,hf⟩
  · rintro ⟨hco,hag,hac,hf⟩
    exact ⟨hco,hag,db₁,lease,hac,hf,rfl,rfl⟩

lemma scanTo_le (fromHeight safe : ℕ) : w.scanTo fromHeight safe ≤ safe := min_le_right _ _

lemma lt_scanFrom_iff {safe : ℕ} (ho : 1 ≤ w.overlap) (hh : lease.hash ≠ "")
    (hf : lease.height < 2^64) :
    safe < w.scanFrom lease ↔ lease.height+1 < 2^64 ∧ safe+w.overlap ≤ lease.height := by
  unfold Worker.scanFrom uint64
  rw [if_pos ⟨ho,hh⟩]
  by_cases hn : lease.height+1 < 2^64
  · split_ifs <;> omega
  · rw [if_neg (by omega)]
    omega

lemma judge_commit (h : judge w lease fromHeight toHeight answer = .commit r) :
    (∃ scanned, answer = .ok scanned ∧ r = { scanned with runtimeEvidence := w.runtimeEvidence }) ∧
      (∀ e ∈ r.events, e.identity.chainID = w.chainID) ∧
      Accepted r fromHeight toHeight lease w.overlap := by
  cases answer with
  | error e =>
    simp only [judge] at h
    split_ifs at h
  | ok scanned =>
    simp only [judge] at h
    split_ifs at h with hf
    split at h
    · rename_i hv
      cases h
      refine ⟨⟨scanned,rfl,rfl⟩,fun e he => ?_,validateRange_eq_ok.mp hv⟩
      by_contra hne
      exact hf ⟨e,he,hne⟩
    · cases h
    · cases h

lemma judge_rewind {fromHeight toHeight height : ℕ} {committedHash newHash : String}
    (h : judge w lease fromHeight toHeight answer = .rewind r height committedHash newHash) :
    (∃ scanned, answer = .ok scanned ∧ r = { scanned with runtimeEvidence := w.runtimeEvidence }) ∧
      (∀ e ∈ r.events, e.identity.chainID = w.chainID) ∧
      validateRange r fromHeight toHeight lease w.overlap =
        .error (.reorg height committedHash newHash) := by
  cases answer with
  | error e =>
    simp only [judge] at h
    split_ifs at h
  | ok scanned =>
    simp only [judge] at h
    split_ifs at h with hf
    split at h
    · cases h
    · rename_i hre
      cases h
      refine ⟨⟨scanned,rfl,rfl⟩,fun e he => ?_,hre⟩
      by_contra hne
      exact hf ⟨e,he,hne⟩
    · cases h

lemma judge_ne_idle : judge w lease fromHeight toHeight answer ≠ .idle := by
  cases answer with
  | error e =>
    simp only [judge]
    split_ifs <;> simp
  | ok scanned =>
    simp only [judge]
    split_ifs
    · simp
    · split <;> simp

lemma not_accepted_below
    (ho : 1 ≤ w.overlap) (hh : lease.hash ≠ "") (hbe : toHeight < lease.height) :
    ¬Accepted r fromHeight toHeight lease w.overlap := by
  intro hac
  obtain ⟨b,hb,hhe⟩ := (hac.cursor ho hh).1
  obtain ⟨j,hj⟩ := List.getElem?_of_mem hb
  have hp := hac.placed j b hj
  have hu := hac.bounds.2.1
  omega

lemma plan_eq_judge (hpl : plan w lease a = p)
    (hwr : (∃ r, p = .commit r) ∨ ∃ r height committedHash newHash,
      p = .rewind r height committedHash newHash) :
    ∃ safe, w.scanFrom lease ≤ safe ∧ judge w lease (w.scanFrom lease)
      (w.scanTo (w.scanFrom lease) safe)
      (a.scanRange (w.scanFrom lease) (w.scanTo (w.scanFrom lease) safe)) = p := by
  unfold plan at hpl
  split at hpl
  · subst hpl
    simp at hwr
  split at hpl
  · subst hpl
    simp at hwr
  rename_i safe _
  dsimp only at hpl
  split at hpl
  · subst hpl
    simp at hwr
  split_ifs at hpl with hi
  · subst hpl
    simp at hwr
  · exact ⟨safe,by omega,hpl⟩

lemma plan_answer (hpl : plan w lease a = p) (hwr : p = .commit r ∨ ∃ height committedHash newHash,
      p = .rewind r height committedHash newHash) :
    ∃ fromHeight toHeight scanned, a.scanRange fromHeight toHeight = .ok scanned ∧
      r = { scanned with runtimeEvidence := w.runtimeEvidence } := by
  rcases hwr with rfl | ⟨height,committedHash,newHash,rfl⟩
  · obtain ⟨safe,-,hj⟩ := plan_eq_judge hpl (.inl ⟨r,rfl⟩)
    exact ⟨_,_,(judge_commit hj).1⟩
  · obtain ⟨safe,-,hj⟩ := plan_eq_judge hpl (.inr ⟨r,height,committedHash,newHash,rfl⟩)
    exact ⟨_,_,(judge_rewind hj).1⟩

lemma scanFrom_le (ho : 1 ≤ w.overlap) :
    w.scanFrom lease ≤ lease.height+1 ∧ (lease.hash ≠ "" → w.scanFrom lease ≤ lease.height) := by
  have hwr : uint64 (lease.height+1) ≤ lease.height+1 := Nat.mod_le _ _
  unfold Worker.scanFrom
  by_cases hh : lease.hash = ""
  · simp only [hh,ne_eq,not_true_eq_false,and_false,false_implies,and_true]
    exact hwr
  · simp only [hh,ne_eq,not_false_eq_true,and_true]
    split_ifs <;> omega

lemma scanFrom_of_empty (hh : lease.hash = "") (hf : lease.height+1 < 2^64) :
    w.scanFrom lease = lease.height+1 := by
  unfold Worker.scanFrom uint64
  rw [if_neg (by simp [hh]),Nat.mod_eq_of_lt hf]

lemma scanTo_lt (fromHeight safe : ℕ) : w.scanTo fromHeight safe < 2^64 :=
  lt_of_le_of_lt (min_le_left _ _) (Nat.mod_lt _ (by norm_num))

lemma perform_ok {clock : ℤ} {ids : ReorgIDs} {result : Option ScannedRange}
    (h : (perform ext capability db lease clock ids p).result = .ok result) :
    p = .idle ∨ ∃ r, p = .commit r := by
  cases p with
  | fail e | gap fromHeight toHeight reason e => cases h
  | idle => exact .inl rfl
  | rewind r height committedHash newHash =>
    simp only [perform] at h
    split at h <;> cases h
  | commit r => exact .inr ⟨r,rfl⟩

def positions (db : Database) : List (String × String × String × ℕ × String) :=
  db.cursors.map fun c => (c.chainID,c.shard,c.capability,c.height,c.hash)

lemma released_positions : positions (released capability db lease) = positions db := by
  unfold released
  split
  · rename_i d hr
    simp only [release,do_ok,updateOne_eq_ok] at hr
    obtain ⟨cursors,⟨-,rfl⟩,rfl⟩ := hr
    exact map_update fun _ _ _ => rfl
  · rfl

lemma acquire_positions {chainID shard owner : String} {duration : ℤ}
    (h : acquire capability db chainID shard owner duration now = .ok (db₁,lease))
    (hha : lease.hash ≠ "") : positions db₁ = positions db := by
  simp only [acquire,do_ok,orFail_eq_ok] at h
  obtain ⟨-,cursor,hf,rfl,rfl⟩ := h
  obtain ⟨hm,hk⟩ := mem_of_find? hf
  -- A row that was created for the lease is bound to no block.
  have hold : ensureCursor db.cursors chainID shard capability = db.cursors := by
    unfold ensureCursor at hm ⊢
    split_ifs at hm ⊢ with he
    · rfl
    · rcases mem_snoc.mp hm with hm | rfl
      · exact absurd ⟨cursor,hm,hk.1,hk.2.1,hk.2.2.1⟩ he
      · exact absurd rfl hha
  simp only [hold]
  exact map_update fun _ _ _ => rfl

def Harmless (db : Database) (o : Outcome) : Prop :=
  (∃ r, o.result = .ok r) ∧ o.gaps = [] ∧ positions o.db = positions db

/-- A safe height below a committed cursor is harmless exactly if it is also below the overlap
window; inside the window a range is scanned that cannot reach the cursor. -/
theorem head_regression_harmless_iff {a : Answers} {clock : ℤ} {ids : ReorgIDs}
    {heads : List ProviderHead} {safe : ℕ}
    (hstart : w.start capability db a.now = .ok (db₁,lease)) (hhash : lease.hash ≠ "")
    (hheads : a.heads = .ok heads) (hsafe : w.safeHeight heads a.now = .ok safe)
    (hbelow : safe < lease.height) : Harmless db (runOnce ext capability w db a clock ids) ↔
      a.renewal = .ok () ∧ lease.height+1 < 2^64 ∧ safe+w.overlap ≤ lease.height := by
  obtain ⟨⟨-,ho,-⟩,-,hac,hf⟩ := start_eq_ok.mp hstart
  have hru : runOnce ext capability w db a clock ids =
      perform ext capability db₁ lease clock ids (plan w lease a) := by
    simp [runOnce,hstart]
  rw [hru,← lt_scanFrom_iff ho hhash hf]
  constructor
  · rintro ⟨⟨r,hrs⟩,-,-⟩
    have hp := perform_ok hrs
    cases hre : a.renewal with
    | error e => simp [plan,hheads,hsafe,hre] at hp
    | ok u =>
      by_cases hi : safe < w.scanFrom lease
      · exact ⟨rfl,hi⟩
      · simp only [plan,hheads,hsafe,hre,if_neg hi] at hp
        have hup := scanTo_le (w := w) (w.scanFrom lease) safe
        rcases hp with hp | ⟨r,hp⟩
        · exact absurd hp judge_ne_idle
        · exact absurd (judge_commit hp).2.2 (not_accepted_below ho hhash (by omega))
  · rintro ⟨hre,hi⟩
    have hp : plan w lease a = .idle := by
      simp [plan,hheads,hsafe,hre,if_pos hi]
    rw [hp]
    refine ⟨⟨none,rfl⟩,rfl,?_⟩
    exact released_positions.trans (acquire_positions hac hhash)

end

def served (chain : ℕ → Block) (events : List TransferEvent) (fromHeight toHeight : ℕ) :
    ScannedRange where
  fromHeight := fromHeight
  toHeight := toHeight
  blocks := (List.range' fromHeight (toHeight - fromHeight+1)).map chain
  events := events.filter fun e => fromHeight ≤ e.blockHeight ∧ e.blockHeight ≤ toHeight

def sampleChain : Block :=
  ⟨height,"block-" ++ toString height,"block-" ++ toString (height - 1),1000+height⟩

def sampleWorker : Worker :=
  ⟨"tron","genesis","shard","scanner",2,3,5,minute,0,0,[]⟩

def sampleHeads : List ProviderHead :=
  [⟨"first","tron","genesis",height,minute⟩,⟨"second","tron","genesis",height,minute⟩]

def sampleAnswers : Answers where
  now := minute
  heads := .ok (sampleHeads height)
  scanRange := fun fromHeight toHeight => .ok (served sampleChain [] fromHeight toHeight)

def sampleCursor : Database :=
  { cursors := [⟨"tron","shard","transfers",10,"block-10",none,none,4⟩] }

theorem head_regression_harmless_below :
    Harmless sampleCursor (runOnce Workers.sampleExternals "transfers" sampleWorker sampleCursor
      (sampleAnswers 7) minute (Workers.sampleReorgIDs "")) := by
  have hl : ∃ r, sampleWorker.start "transfers" sampleCursor (sampleAnswers 7).now = .ok r ∧
      r.2.hash ≠ "" ∧ 7 < r.2.height ∧
      r.2.height+1 < 2^64 ∧ 7+sampleWorker.overlap ≤ r.2.height := by decide +kernel
  obtain ⟨⟨db₁,lease⟩,hst,hh,hbe,hw⟩ := hl
  have hsa : sampleWorker.safeHeight (sampleHeads 7) (sampleAnswers 7).now = .ok 7 := by
    decide +kernel
  exact (head_regression_harmless_iff hst hh rfl hsa hbe).mpr ⟨rfl,hw⟩

/-- Both providers fall back from block 10 to block 9 of the same chain: the blocks 8 and 9 are
scanned, which the validation refuses, and a gap is recorded. -/
theorem regression_inside_overlap_refused :
    sampleWorker.safeHeight (sampleHeads 9) (sampleAnswers 9).now = .ok 9 ∧
      (sampleChain 10).hash = "block-10" ∧
      (runOnce Workers.sampleExternals "transfers" sampleWorker sampleCursor (sampleAnswers 9)
        minute (Workers.sampleReorgIDs "")).result =
          .error (.range (.invalid "overlap does not include committed cursor")) ∧
      (runOnce Workers.sampleExternals "transfers" sampleWorker sampleCursor (sampleAnswers 9)
        minute (Workers.sampleReorgIDs "")).gaps = [⟨"tron",8,9,"non_contiguous_range"⟩] := by
  decide +kernel

end Ocrypt.ScanWorker
