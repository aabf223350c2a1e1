import Ocrypt.ScannedChain

/-! Shards of one chain have a cursor each and share the block history. A shard has scanned the
canonical blocks up to its cursor itself as long as no other shard writes blocks there that the
history does not hold as canonical yet. -/
namespace Ocrypt.ShardedScans
open Domain Store Scanner Reorg RangeChecks ScanWorker BlockHistory Transactions ScanRuns
  CanonicalHistory ScannedChain List

variable (db : Database) (s : World)

abbrev ScannedBy (chainID shard : String) (x : BlockRef) : Prop :=
  ∃ c ∈ s.commits, c.lease.chainID = chainID ∧ c.lease.shard = shard ∧
    x ∈ c.range.blocks.map Block.ref

abbrev CoveredBy (chainID shard : String) (height : ℕ) : Prop :=
  ∃ c ∈ s.commits, c.lease.chainID = chainID ∧ c.lease.shard = shard ∧
    c.range.fromHeight ≤ height ∧ height ≤ c.range.toHeight

/-- The hashes of the range stand at no other height, in the history or in the range. -/
abbrev HashesFit (chainID : String) (r : ScannedRange) : Prop :=
  (∀ b ∈ r.blocks, ∀ x ∈ db.chainBlocks, x.chainID = chainID → x.hash = b.hash →
    x.height = b.height) ∧ ∀ b ∈ r.blocks, ∀ c ∈ r.blocks, b.hash = c.hash → b.height = c.height

/-- Where another shard of the chain has passed, the range has only blocks that the history
already holds as canonical. -/
abbrev Respects (lease : Lease) (r : ScannedRange) : Prop :=
  ∀ c ∈ db.cursors, c.chainID = lease.chainID → c.shard ≠ lease.shard → c.hash ≠ "" →
    ∀ b ∈ r.blocks, b.height ≤ c.height → agrees db lease.chainID b.ref

/-- A sparse range leaves out no height at which the history holds a block as canonical. -/
abbrev LeavesNone (lease : Lease) (r : ScannedRange) : Prop :=
  r.sparseBlocks = true → ∀ x ∈ db.chainBlocks, x.chainID = lease.chainID →
    x.status ≠ .reorged → r.fromHeight ≤ x.height → x.height ≤ r.toHeight →
    ∃ b ∈ r.blocks, b.height = x.height

def Undisturbing : Action → Prop
  | .commit call a _ => ∀ fromHeight toHeight r, a.scanRange fromHeight toHeight = .ok r →
      HashesFit s.db call.lease.chainID r ∧ Respects s.db call.lease r ∧ LeavesNone s.db call.lease r
  | _ => True

/-- The shard itself has scanned what is canonical from its start up to its cursor. -/
structure SelfScanned (capability : String) (s : World) (chainID shard : String) : Prop where
  covered : ∀ k, s.origin chainID shard ≤ k →
    k ≤ (row capability s.db.cursors chainID shard).height → CoveredBy s chainID shard k
  scanned : ∀ x, Canonical s.db.chainBlocks chainID x → s.origin chainID shard ≤ x.height →
    x.height ≤ (row capability s.db.cursors chainID shard).height → ScannedBy s chainID shard x
  unbound : (row capability s.db.cursors chainID shard).hash = "" →
    s.origin chainID shard = (row capability s.db.cursors chainID shard).height+1

section
variable {ext : Externals} {capability chainID shard : String} {s t : World} {a : Action}
  {lease : Lease} {r : ScannedRange} {clock : ℤ}

lemma ScannedBy.mono (hco : ∀ c ∈ s.commits, c ∈ t.commits) {x : BlockRef}
    (h : ScannedBy s chainID shard x) : ScannedBy t chainID shard x := by
  obtain ⟨c,hc,hf⟩ := h
  exact ⟨c,hco c hc,hf⟩

lemma CoveredBy.mono (hco : ∀ c ∈ s.commits, c ∈ t.commits) {k : ℕ}
    (h : CoveredBy s chainID shard k) : CoveredBy t chainID shard k := by
  obtain ⟨c,hc,hf⟩ := h
  exact ⟨c,hco c hc,hf⟩

lemma SelfScanned.kept (h : SelfScanned capability s chainID shard)
    (hhe : (row capability t.db.cursors chainID shard).height =
      (row capability s.db.cursors chainID shard).height)
    (hha : (row capability t.db.cursors chainID shard).hash =
      (row capability s.db.cursors chainID shard).hash)
    (ho : t.origin chainID shard = s.origin chainID shard) (hco : ∀ c ∈ s.commits, c ∈ t.commits)
    (hca : ∀ x, Canonical t.db.chainBlocks chainID x → s.origin chainID shard ≤ x.height →
      x.height ≤ (row capability s.db.cursors chainID shard).height →
      Canonical s.db.chainBlocks chainID x) : SelfScanned capability t chainID shard := by
  refine ⟨?_,?_,?_⟩
  · rw [hhe,ho]
    intro k hl hu
    exact (h.covered k hl hu).mono hco
  · rw [hhe,ho]
    intro x hx hl hu
    exact (h.scanned x (hca x hx hl hu) hl hu).mono hco
  · rw [hhe,hha,ho]
    exact h.unbound

lemma SelfScanned.quiet (h : SelfScanned capability s chainID shard)
    (hq : Quiet capability s t) : SelfScanned capability t chainID shard := by
  apply h.kept (hq.stays chainID shard).1 (hq.stays chainID shard).2
  · rw [hq.origin]
  · simp [hq.commits]
  · intro x hx _ _
    rwa [hq.chainBlocks] at hx

lemma commits_extended (he : Extended capability s t lease r clock) :
    (∀ c ∈ s.commits, c ∈ t.commits) ∧ (⟨lease,r⟩ : CommittedRange) ∈ t.commits := by
  rw [he.commits]
  exact ⟨fun c hc => mem_append_left _ hc,
    mem_concat_self⟩

lemma admissible_of_fit (hsh : Shaped r r.fromHeight r.toHeight)
    (hf : HashesFit s.db lease.chainID r) :
    Admissible s.db.chainBlocks lease.chainID (r.blocks.map Block.ref) := by
  refine ⟨?_,?_,?_⟩
  · intro x hx b hb hch hh
    obtain ⟨c,hc,rfl⟩ := mem_map.mp hx
    exact hf.1 c hc b hb hch hh
  · intro x hx y hy hh
    obtain ⟨b,hb,rfl⟩ := mem_map.mp hx
    obtain ⟨c,hc,rfl⟩ := mem_map.mp hy
    exact hf.2 b hb c hc hh
  · rw [map_map]
    exact pairwise_map.mpr (hsh.ordered.imp Nat.ne_of_lt)

lemma SelfScanned.own (h : SelfScanned capability s lease.chainID lease.shard)
    (he : Extended capability s t lease r clock)
    (had : Admissible s.db.chainBlocks lease.chainID (r.blocks.map Block.ref))
    (hle : LeavesNone s.db lease r) : SelfScanned capability t lease.chainID lease.shard := by
  have hsh := he.shaped
  have hbe := he.moved.before
  have haf := he.moved.after
  have hsa := he.fromHeight
  obtain ⟨hm,hn⟩ := commits_extended he
  refine ⟨?_,?_,?_⟩
  · intro k hl hu
    rw [he.origin] at hl
    rw [haf.1] at hu
    by_cases hk : r.fromHeight ≤ k
    · exact ⟨_,hn,rfl,rfl,hk,hu⟩
    · exact (h.covered k hl (by omega)).mono hm
  · intro x hx hl hu
    rw [he.origin] at hl
    rw [haf.1] at hu
    rcases canonical_extended he had hx with hme | ⟨hold,hf⟩
    · exact ⟨_,hn,rfl,rfl,hme⟩
    · have hbl : x.height < r.fromHeight := by
        by_contra hin
        obtain ⟨b,hb,hhe⟩ : ∃ b ∈ r.blocks, b.height = x.height := by
          cases hmo : r.sparseBlocks with
          | false => exact hsh.block_at hmo (by omega) hu
          | true =>
            obtain ⟨y,hy,hch,hyh,-,hst⟩ := hold
            rw [← hyh]
            exact hle hmo y hy hch hst (by omega) (by omega)
        exact hf b.ref (mem_map_of_mem hb) hhe.symm
      exact (h.scanned x hold hl (by omega)).mono hm
  · intro hha
    rw [haf.2] at hha
    obtain ⟨b,hb,hre⟩ := mem_map.mp (lastHash_ref hsh)
    have hsame : b.hash = lastHash r := congrArg BlockRef.hash hre
    exact absurd (hsame.trans hha) (hsh.mem hb).2.2

lemma SelfScanned.other_shard (h : SelfScanned capability s lease.chainID shard)
    (hne : shard ≠ lease.shard) (he : Extended capability s t lease r clock)
    (had : Admissible s.db.chainBlocks lease.chainID (r.blocks.map Block.ref))
    (hre : Respects s.db lease r) : SelfScanned capability t lease.chainID shard := by
  have hro : row capability t.db.cursors lease.chainID shard =
      row capability s.db.cursors lease.chainID shard :=
    he.moved.others _ _ fun heq => hne (Prod.mk.inj heq).2
  apply h.kept (by rw [hro]) (by rw [hro]) (by rw [he.origin])
    (commits_extended he).1
  intro x hx hl hu
  rcases canonical_extended he had hx with hm | ⟨hold,-⟩
  · have hbo : (row capability s.db.cursors lease.chainID shard).hash ≠ "" := by
      intro hem
      have := h.unbound hem
      omega
    rcases row_mem_or capability s.db.cursors lease.chainID shard with ⟨hst,hk⟩ | hd
    · obtain ⟨b,hb,rfl⟩ := mem_map.mp hm
      simp only [cursorKey,Prod.mk.injEq] at hk
      have ho : (row capability s.db.cursors lease.chainID shard).shard ≠ lease.shard := by
        rw [hk.2.1]
        exact hne
      exact hre _ hst hk.1 ho hbo b hb hu
    · rw [hd] at hbo
      exact absurd rfl hbo
  · exact hold

lemma SelfScanned.other_chain (h : SelfScanned capability s chainID shard)
    (hne : chainID ≠ lease.chainID) (he : Extended capability s t lease r clock) :
    SelfScanned capability t chainID shard := by
  have hro : row capability t.db.cursors chainID shard = row capability s.db.cursors chainID shard :=
    he.moved.others _ _ fun heq => hne (Prod.mk.inj heq).1
  apply h.kept (by rw [hro]) (by rw [hro]) (by rw [he.origin])
    (commits_extended he).1
  intro x hx _ _
  exact (canonical_extended_other he hne).mp hx

lemma SelfScanned.rewound (h : SelfScanned capability s chainID shard)
    (hre : Rewound capability s t lease r clock) : SelfScanned capability t chainID shard := by
  have hm : ∀ c ∈ s.commits, c ∈ t.commits := by simp [hre.commits]
  have hca : ∀ x, Canonical t.db.chainBlocks chainID x →
      Canonical s.db.chainBlocks chainID x := by
    intro x hx
    exact ((canonical_rewound hre).mp hx).1
  by_cases hsame : (chainID,shard) = (lease.chainID,lease.shard)
  · cases hsame
    have hbe := hre.moved.before
    have haf := hre.moved.after
    have hl := hre.lower
    by_cases hha : (rewindPoint s.db lease r.stored).hash = ""
    · have ho : t.origin lease.chainID lease.shard =
          (row capability t.db.cursors lease.chainID lease.shard).height+1 := by
        rw [hre.origin,originAfter,if_pos ⟨rfl,rfl,hha⟩,haf.1]
      refine ⟨?_,?_,fun _ => ho⟩
      · omega
      · omega
    · have ho : t.origin lease.chainID lease.shard = s.origin lease.chainID lease.shard := by
        rw [hre.origin,originAfter,if_neg fun hrs => hha hrs.2.2]
      refine ⟨?_,?_,?_⟩
      · intro k hk hk'
        exact (h.covered k (by omega) (by omega)).mono hm
      · intro x hx hk hk'
        exact (h.scanned x (hca x hx) (by omega) (by omega)).mono hm
      · rw [haf.2]
        exact fun he => absurd he hha
  · have hro := hre.moved.others _ _ hsame
    have ho : t.origin chainID shard = s.origin chainID shard := by
      rw [hre.origin,originAfter,if_neg fun hrs => hsame (by rw [hrs.1,hrs.2.1])]
    exact h.kept (by rw [hro]) (by rw [hro]) ho hm fun x hx _ _ => hca x hx

/-- One transaction keeps what each shard has scanned without the help of others. -/
lemma SelfScanned.step (hf : Fenced capability s)
    (h : ∀ chainID shard, SelfScanned capability s chainID shard) (ha : Undisturbing s a)
    (hee : exec ext capability s a = .ok t) :
    Fenced capability t ∧ ∀ chainID shard, SelfScanned capability t chainID shard := by
  obtain ⟨hf',hsp⟩ := exec_stepped hf hee
  cases hsp with
  | quiet hq => exact ⟨hf',fun chainID shard => (h chainID shard).quiet hq⟩
  | extended call answers clock hp he =>
    refine ⟨hf',fun chainID shard => ?_⟩
    obtain ⟨fromHeight,toHeight,scanned,han,rfl⟩ := plan_answer hp (.inl rfl)
    obtain ⟨hfi,hre,hl⟩ := ha fromHeight toHeight scanned han
    have had := admissible_of_fit he.shaped hfi
    by_cases hch : chainID = call.lease.chainID
    · subst hch
      by_cases hsh : shard = call.lease.shard
      · subst hsh
        exact (h _ _).own he had hl
      · exact (h _ shard).other_shard hsh he had hre
    · exact (h chainID shard).other_chain hch he
  | rewound call answers clock ids hp hrw =>
    exact ⟨hf',fun chainID shard => (h chainID shard).rewound hrw⟩

end

section
variable {ext : Externals} {capability : String} {s : World} {as : List Action}

lemma selfScanned_of_fresh (hf : Fresh s) (chainID shard : String) :
    SelfScanned capability s chainID shard := by
  refine ⟨?_,?_,?_⟩
  · intro k hl hu
    simp only [hf.origin,hf.cursors,row,find?_nil,Option.getD_none] at hl hu
    omega
  · intro x hx
    exact absurd hx hf.not_canonical
  · simp [hf.origin,hf.cursors,row]

/-- Over every interleaving of the cycles of any number of shards in which the commits disturb
no other shard, every shard has itself committed each height from its start up to its cursor,
and every block that the history holds as canonical there. -/
theorem shards_scan_themselves (hfresh : Fresh s)
    (hruns : Along (exec ext capability) Undisturbing s as) (chainID shard : String) :
    let t := run (exec ext capability) s as
    let cursor := row capability t.db.cursors chainID shard
    (∀ k, t.origin chainID shard ≤ k → k ≤ cursor.height → CoveredBy t chainID shard k) ∧
      ∀ x, Canonical t.db.chainBlocks chainID x → t.origin chainID shard ≤ x.height →
        x.height ≤ cursor.height → ScannedBy t chainID shard x := by
  intro t cursor
  have hi := run_invariant (fun s a t hs ha he => SelfScanned.step hs.1 hs.2 ha he)
      ⟨hfresh.fenced,selfScanned_of_fresh hfresh⟩ hruns
  exact ⟨(hi.2 chainID shard).covered,(hi.2 chainID shard).scanned⟩

end

def sampleShard (shard : String) : Worker := { sampleScanner with shard, overlap := 1 }

def shardCall (shard : String) (version : ℤ) (height : ℕ) (hash : String) : Call :=
  ⟨sampleShard shard,{ Workers.sampleLease version height hash with shard }⟩

def sampleShards : List Action :=
  [.start (sampleShard "a") minute,.start (sampleShard "b") minute,
    .commit (shardCall "a" 2 0 "") (sampleAnswer 3 1 3 (sampleBlocks.take 3)) minute,
    .commit (shardCall "b" 2 0 "") (sampleAnswer 3 1 3 (sampleBlocks.take 3)) minute,
    .start (sampleShard "a") minute,
    .commit (shardCall "a" 4 3 "block-3") (sampleAnswer 5 3 5 ((sampleBlocks.drop 2).take 3)) minute]

theorem shards_scan_themselves_sample :
    (row "transfers" (sampleRun sampleShards).db.cursors "tron" "a").height = 5 ∧
      ScannedBy (sampleRun sampleShards) "tron" "a" ⟨4,"block-4"⟩ ∧
      CoveredBy (sampleRun sampleShards) "tron" "a" 5 := by
  have hr : Along (exec Workers.sampleExternals "transfers") Undisturbing sampleFresh
      sampleShards := by
    refine ⟨trivial,trivial,?_,?_,trivial,?_,trivial⟩ <;>
    · rintro _ _ _ ⟨⟩
      refine ⟨?_,?_,?_⟩ <;> decide +kernel
  have hh : (row "transfers" (sampleRun sampleShards).db.cursors "tron" "a").height = 5 := by
    decide +kernel
  have ho : (sampleRun sampleShards).origin "tron" "a" = 1 := by decide +kernel
  have hbl : agrees (sampleRun sampleShards).db "tron" ⟨4,"block-4"⟩ := by decide +kernel
  obtain ⟨hco,hsc⟩ := shards_scan_themselves sampleFresh_fresh hr "tron" "a"
  refine ⟨hh,hsc ⟨4,"block-4"⟩ hbl ?_ ?_,hco 5 ?_ ?_⟩
  · exact ho.le.trans (by decide)
  · exact hh.ge.trans' (by decide)
  · exact ho.le.trans (by decide)
  · exact hh.ge

def replacements : List Block :=
  [⟨1,"new-1","block-0",1001⟩,⟨2,"new-2","new-1",1002⟩,⟨3,"new-3","new-2",1003⟩]

/-- The providers serve a chain whose safe height is 3. -/
def serving (chain : List Block) : Answers where
  now := minute
  heads := .ok [⟨"first","tron","genesis",3,minute⟩]
  scanRange := fun fromHeight toHeight => .ok
    { fromHeight, toHeight, events := []
      blocks := chain.filter fun b => fromHeight ≤ b.height ∧ b.height ≤ toHeight }

/-- A cycle of a shard that scans two blocks at a time, with the step that ends it. -/
def shardCycle (shard : String) (version : ℤ) (height : ℕ) (hash : String)
    (step : Call → Action) : List Action :=
  let w := { sampleShard shard with rangeSize := 2 }
  [.start w minute,step ⟨w,{ Workers.sampleLease version height hash with shard }⟩]

def committing (chain : List Block) (call : Call) : Action := .commit call (serving chain) minute

def rewinding (call : Call) : Action :=
  .rewind call (serving replacements) minute (Workers.sampleReorgIDs "")

/-- Both shards stand at block 3 when the blocks 1 to 3 are replaced. The first shard rewinds to the
start of the chain and commits two of the replacements before the second one sees the
reorganization. -/
def sampleSkip : List Action :=
  shardCycle "a" 2 0 "" (committing sampleBlocks) ++
  shardCycle "a" 4 2 "block-2" (committing sampleBlocks) ++
  shardCycle "b" 2 0 "" (committing sampleBlocks) ++
  shardCycle "b" 4 2 "block-2" (committing sampleBlocks) ++
  shardCycle "a" 6 3 "block-3" rewinding ++
  shardCycle "a" 8 2 "block-2" rewinding ++
  shardCycle "a" 10 1 "block-1" rewinding ++
  shardCycle "a" 12 0 "" (committing replacements) ++
  shardCycle "b" 6 3 "block-3" rewinding ++
  shardCycle "b" 8 2 "new-2" (committing replacements)

/-- No block of the second shard's range agrees with the history, which holds the replacement of block
2 below the range. The shard rewinds to that block and goes on from there: it never commits the
replacement of block 1. -/
theorem replacement_block_skipped : let t := sampleRun sampleSkip
    let cursor := row "transfers" t.db.cursors "tron" "b"
    (cursor.height,cursor.hash,t.origin "tron" "b") = (3,"new-3",1) ∧
      Canonical t.db.chainBlocks "tron" ⟨1,"new-1"⟩ ∧
      ¬ScannedBy t "tron" "b" ⟨1,"new-1"⟩ := by
  have hbl : agrees (sampleRun sampleSkip).db "tron" ⟨1,"new-1"⟩ := by decide +kernel
  exact ⟨by decide +kernel,hbl,by decide +kernel⟩

end Ocrypt.ShardedScans
