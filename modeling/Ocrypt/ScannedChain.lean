import Ocrypt.CanonicalHistory
import Ocrypt.LinkedChains

/-! One scanner for each chain, over dense ranges: what every committed range covers, and that
the ranges committed since a cursor was last bound to no block form one linked chain, as long as
a hash identifies its block. -/
namespace Ocrypt.ScannedChain
open Domain Fallible Table Store Scanner Reorg RangeChecks ScanWorker BlockHistory Transactions
  ScanRuns CanonicalHistory LinkedChains List

instance : Inhabited Block := ⟨⟨0,"","",0⟩⟩

def blockReading : Reading Block String := ⟨Block.height,Block.hash,Block.parentHash⟩

def Scanned (s : World) (chainID : String) (b : Block) : Prop :=
  ∃ c ∈ s.commits, c.lease.chainID = chainID ∧ b ∈ c.range.blocks

def DenseAnswers (a : Answers) : Prop :=
  ∀ fromHeight toHeight r, a.scanRange fromHeight toHeight = .ok r → r.sparseBlocks = false

def SingleShard (shardOf : String → String) (_ : World) : Action → Prop
  | .commit _ a _ => DenseAnswers a
  | a => OneShard shardOf a

def Identified (identify : (chainID hash : String) → ℕ × String) (_ : World) : Action → Prop
  | .commit call a _ => ∀ fromHeight toHeight r, a.scanRange fromHeight toHeight = .ok r →
      ∀ b ∈ r.blocks, identify call.lease.chainID b.hash = (b.height,b.parentHash)
  | _ => True

/-- A committed range starts at most one above the leased cursor, reaches it, has a linked block
at each height and holds the block of the cursor. -/
structure CompleteRange (c : CommittedRange) : Prop where
  fromHeight : c.range.fromHeight ≤ c.lease.height+1
  toHeight : c.lease.height ≤ c.range.toHeight
  covers : ∀ k, c.range.fromHeight ≤ k → k ≤ c.range.toHeight → ∃ b ∈ c.range.blocks, b.height = k
  linked : c.range.blocks.IsChain fun p b => b.parentHash = p.hash
  cursor : c.lease.hash ≠ "" →
    ∃ b ∈ c.range.blocks, b.height = c.lease.height ∧ b.hash = c.lease.hash

section
variable {r : ScannedRange} {fromHeight toHeight : ℕ}

lemma linked_of_dense (h : Shaped r fromHeight toHeight) (hd : r.sparseBlocks = false) :
    r.blocks.IsChain fun p b => b.parentHash = p.hash := by
  have hid : r.idleCheckpoint = false := by
    by_contra hid
    have := (h.idle (by simpa using hid)).1
    simp [hd] at this
  have hi : r.indexedCheckpoint = false := by
    by_contra hi
    have := (h.indexed (by simpa using hi)).1
    simp [hd] at this
  refine h.linked.imp fun p b hf => ?_
  simpa [gapAllowed,hid,hi] using hf.2

lemma span_of_dense {S : Block → Prop} (h : Shaped r r.fromHeight r.toHeight)
    (hd : r.sparseBlocks = false) (hS : ∀ b ∈ r.blocks, S b) :
    ∃ g, Span blockReading S r.fromHeight r.toHeight (lastHash r) g ∧
      ∀ b ∈ r.blocks, g b.height = b := by
  obtain ⟨last,hl,-⟩ := h.ends
  have hf : r.blocks.length = r.toHeight - r.fromHeight+1 := by
    have := h.dense
    simp only [hd,Bool.false_eq_true,false_or] at this
    exact this.2
  have hlo := h.bounds.2.2.1
  have hhe : ∀ j b, r.blocks[j]? = some b → b.height = r.fromHeight+j := by
    intro j b hj
    simpa [hd] using (h.placed j b hj).1
  have hsp := span_of_list (R := blockReading) (Option.mem_def.mp hl) hhe
    (linked_of_dense h hd) hS
  have he : r.fromHeight+r.blocks.length - 1 = r.toHeight := by omega
  have hti : blockReading.hash last = lastHash r := by
    simp [lastHash,Option.mem_def.mp hl,blockReading]
  rw [he,hti] at hsp
  refine ⟨_,hsp,fun b hb => ?_⟩
  obtain ⟨j,hj⟩ := getElem?_of_mem hb
  rw [hhe j b hj,Nat.add_sub_cancel_left,getD_eq_getElem?_getD,hj]
  rfl

lemma completeRange_of_extended {capability : String} {s t : World} {lease : Lease} {clock : ℤ}
    (h : Extended capability s t lease r clock) (hd : r.sparseBlocks = false) :
    CompleteRange ⟨lease,r⟩ := by
  refine ⟨h.fromHeight,h.toHeight,?_,linked_of_dense h.shaped hd,?_⟩
  · intro k hl hu
    exact h.shaped.block_at hd hl hu
  · intro hha
    obtain ⟨⟨b,hb,hhe⟩,hsame⟩ := h.overlaps hha
    exact ⟨b,hb,hhe,hsame b hb hhe⟩

end

/-- The committed blocks of each chain are identified by their hash, and those that still count
are linked down to the point from which the chain is scanned. -/
structure Chained (capability : String) (shardOf : String → String)
    (identify : (chainID hash : String) → ℕ × String) (s : World) : Prop where
  identified : ∀ chainID b, Scanned s chainID b →
    identify chainID b.hash = (b.height,b.parentHash)
  reaches : ∀ chainID x, Canonical s.db.chainBlocks chainID x →
    ∃ start ≤ s.origin chainID (shardOf chainID),
      Reaches blockReading (Scanned s chainID) start x.height x.hash
  unbound : ∀ chainID, (chainCursor capability shardOf s chainID).hash = "" →
    s.origin chainID (shardOf chainID) = (chainCursor capability shardOf s chainID).height+1

section
variable {ext : Externals} {capability : String} {shardOf : String → String}
  {identify : (chainID hash : String) → ℕ × String} {s t : World} {a : Action} {lease : Lease}
  {r : ScannedRange} {clock : ℤ} {b : Block} {answers : Answers} {call : Call}

lemma scanned_extended (he : Extended capability s t lease r clock) {chainID : String} : Scanned t chainID b ↔
      Scanned s chainID b ∨ (chainID = lease.chainID ∧ b ∈ r.blocks) := by
  unfold Scanned
  rw [he.commits]
  constructor
  · rintro ⟨c,hc,hch,hb⟩
    rcases mem_snoc.mp hc with hc | rfl
    · exact .inl ⟨c,hc,hch,hb⟩
    · exact .inr ⟨hch.symm,hb⟩
  · rintro (⟨c,hc,hch,hb⟩ | ⟨hch,hb⟩)
    · exact ⟨c,mem_append_left _ hc,hch,hb⟩
    · exact ⟨_,mem_concat_self,hch.symm,hb⟩

lemma Chained.quiet (h : Chained capability shardOf identify s) (hq : Quiet capability s t) :
    Chained capability shardOf identify t := by
  have hsc : Scanned t = Scanned s := by
    unfold Scanned
    rw [hq.commits]
  refine ⟨?_,?_,?_⟩
  · rw [hsc]
    exact h.identified
  · rw [hq.chainBlocks,hq.origin,hsc]
    exact h.reaches
  · intro chainID
    rw [hq.origin,(hq.stays _ _).1,(hq.stays _ _).2]
    exact h.unbound chainID

section
variable (hhistory : History capability shardOf (fun chainID hash => (identify chainID hash).1) s)
  (h : Chained capability shardOf identify s)
include hhistory h

/-- Each block of a committed range is reached from the start of the scan. A range that overlaps
the cursor agrees with the chain below it, since it has the block of the cursor. -/
lemma reaches_extended (he : Extended capability s t lease r clock)
    (hsa : lease.shard = shardOf lease.chainID) (hd : r.sparseBlocks = false)
    (hi : ∀ c, Scanned t lease.chainID c →
      identify lease.chainID c.hash = (c.height,c.parentHash)) (hb : b ∈ r.blocks) :
    ∃ start ≤ s.origin lease.chainID (shardOf lease.chainID),
      Reaches blockReading (Scanned t lease.chainID) start b.height b.hash := by
  have hsh := he.shaped
  have how := own_chain he.moved hsa
  have hme := hsh.mem hb
  have hn : ∀ c ∈ r.blocks, Scanned t lease.chainID c := by
    intro c hc
    exact (scanned_extended he).mpr (.inr ⟨rfl,hc⟩)
  obtain ⟨g,hg,hat⟩ := span_of_dense hsh hd hn
  have hto := hg.cut hme.1 hme.2.1
  rw [hat b hb] at hto
  by_cases hem : lease.hash = ""
  · -- The range starts the chain.
    have hst := he.unbound hem
    have ho := h.unbound lease.chainID (how.1.2.trans hem)
    exact ⟨r.fromHeight,by omega,g,hto⟩
  · obtain ⟨⟨c,hc,hch⟩,hsame⟩ := he.overlaps hem
    have hca := hsame c hc hch
    have hgc : g lease.height = c := by
      rw [← hch]
      exact hat c hc
    have hcm := hsh.mem hc
    have hcu := hhistory.cursor lease.chainID (by rw [how.1.2]; exact hem)
    rw [how.1.1,how.1.2] at hcu
    obtain ⟨start,hst,f,hf⟩ := h.reaches lease.chainID _ hcu
    have hold : Span blockReading (Scanned t lease.chainID) start lease.height lease.hash f :=
      ⟨hf.le,fun k hk hk' => (scanned_extended he).mpr (.inl (hf.mem k hk hk')),hf.height,
        hf.linked,hf.tip⟩
    have hm : blockReading.hash (g lease.height) = lease.hash := by
      rw [hgc]
      exact hca
    rcases le_total lease.height b.height with hao | hbe
    · -- Above the cursor the range continues the chain.
      exact ⟨start,hst,hold.glue hto (by omega) hao hm⟩
    · by_cases hl : b.height < start
      · exact ⟨r.fromHeight,by omega,g,hto⟩
      · -- Below the cursor both are determined by its hash.
        have hct := hg.cut (by omega : r.fromHeight ≤ lease.height) (by omega)
        rw [hm] at hct
        have hag := hold.hash_eq (fun x y hx hy hha => ?_) hct (by omega : start ≤ b.height)
          hme.1 hbe
        · have hfb := hold.cut (by omega : start ≤ b.height) hbe
          rw [hag,hat b hb] at hfb
          exact ⟨start,hst,f,hfb⟩
        · have hx' := hi x hx
          have hy' := hi y hy
          change x.hash = y.hash at hha
          rw [hha,hy'] at hx'
          exact (Prod.mk.inj hx').2.symm

lemma Chained.extended (he : Extended capability s t lease r clock)
    (hsh : lease.shard = shardOf lease.chainID) (hd : r.sparseBlocks = false)
    (hbl : ∀ b ∈ r.blocks, identify lease.chainID b.hash = (b.height,b.parentHash)) :
    Chained capability shardOf identify t := by
  have ho := own_chain he.moved hsh
  have had : Admissible s.db.chainBlocks lease.chainID (r.blocks.map Block.ref) := by
    apply admissible_of_fixed (fun chainID hash => (identify chainID hash).1) he.shaped
      hhistory.heights
    intro b hb
    exact congrArg Prod.fst (hbl b hb)
  have hi : ∀ chainID b, Scanned t chainID b →
      identify chainID b.hash = (b.height,b.parentHash) := by
    intro chainID b hb
    rcases (scanned_extended he).mp hb with hold | ⟨rfl,hne⟩
    · exact h.identified chainID b hold
    · exact hbl b hne
  have hm : ∀ chainID b, Scanned s chainID b → Scanned t chainID b := by
    intro chainID b hb
    exact (scanned_extended he).mpr (.inl hb)
  refine ⟨hi,?_,?_⟩
  · intro chainID x hx
    rw [he.origin]
    by_cases hch : chainID = lease.chainID
    · subst hch
      rcases canonical_extended he had hx with hme | ⟨hold,-⟩
      · obtain ⟨b,hb,rfl⟩ := mem_map.mp hme
        exact reaches_extended hhistory h he hsh hd (hi _) hb
      · obtain ⟨start,hst,hre⟩ := h.reaches _ x hold
        exact ⟨start,hst,hre.mono (hm _)⟩
    · rw [canonical_extended_other he hch] at hx
      obtain ⟨start,hst,hre⟩ := h.reaches chainID x hx
      exact ⟨start,hst,hre.mono (hm chainID)⟩
  · intro chainID hha
    rw [he.origin]
    by_cases hch : chainID = lease.chainID
    · subst hch
      obtain ⟨b,hb,hrf⟩ := mem_map.mp (lastHash_ref he.shaped)
      have hn := (he.shaped.mem hb).2.2
      rw [ho.2.2] at hha
      have hsame : b.hash = lastHash r := congrArg BlockRef.hash hrf
      exact absurd (hsame.trans hha) hn
    · rw [other_chain he.moved hch] at hha ⊢
      exact h.unbound chainID hha

lemma Chained.rewound (hre : Rewound capability s t lease r clock)
    (hsh : lease.shard = shardOf lease.chainID) : Chained capability shardOf identify t := by
  have ho := own_chain hre.moved hsh
  have hsc : Scanned t = Scanned s := by
    unfold Scanned
    rw [hre.commits]
  refine ⟨?_,?_,?_⟩
  · rw [hsc]
    exact h.identified
  · intro chainID x hx
    obtain ⟨hold,hk⟩ := (canonical_rewound hre).mp hx
    obtain ⟨start,hst,f,hf⟩ := h.reaches chainID x hold
    rw [hsc,hre.origin]
    unfold originAfter
    split_ifs with hrs
    · obtain ⟨rfl,-,-⟩ := hrs
      have hbe := hhistory.below _ x hold
      rw [ho.1.1] at hbe
      refine ⟨x.height,?_,f,hf.raise hf.le le_rfl⟩
      by_contra hao
      exact hk ⟨rfl,by omega,hbe⟩
    · exact ⟨start,hst,f,hf⟩
  · intro chainID hha
    rw [hre.origin]
    unfold originAfter
    by_cases hch : chainID = lease.chainID
    · subst hch
      rw [ho.2.2] at hha
      rw [if_pos ⟨rfl,hsh.symm,hha⟩,ho.2.1]
    · rw [if_neg fun hrs => hch hrs.1]
      rw [other_chain hre.moved hch] at hha ⊢
      exact h.unbound chainID hha

end

/-- One transaction keeps the scanned blocks linked up to the cursor. -/
lemma Chained.step (hf : Fenced capability s)
    (hhistory : History capability shardOf (fun chainID hash => (identify chainID hash).1) s)
    (h : Chained capability shardOf identify s) (ho : SingleShard shardOf s a)
    (hi : Identified identify s a) (he : exec ext capability s a = .ok t) : Fenced capability t ∧
      History capability shardOf (fun chainID hash => (identify chainID hash).1) t ∧
      Chained capability shardOf identify t := by
  have hsa : OneShard shardOf a := by
    cases a with
    | commit call answers clock => trivial
    | _ => exact ho
  have hfi : HeightsFixed (fun chainID hash => (identify chainID hash).1) a := by
    cases a with
    | commit call answers clock =>
      intro fromHeight toHeight r han b hb
      exact (Prod.mk.inj (hi fromHeight toHeight r han b hb)).1
    | _ => trivial
  obtain ⟨hf',hhistory'⟩ := hhistory.step hf hsa hfi he
  have hsh := hhistory.leases hf
  refine ⟨hf',hhistory',?_⟩
  obtain ⟨-,hsp⟩ := exec_stepped hf he
  cases hsp with
  | quiet hq => exact h.quiet hq
  | extended call answers clock hp het =>
    obtain ⟨fromHeight,toHeight,scanned,han,rfl⟩ := plan_answer hp (.inl rfl)
    exact h.extended hhistory het (hsh call (running_of_commit he))
      (ho fromHeight toHeight scanned han)
      (hi fromHeight toHeight scanned han)
  | rewound call answers clock ids hp hre =>
    exact h.rewound hhistory hre (hsh call (running_of_rewind he))

lemma completeRanges_step (hf : Fenced capability s)
    (h : ∀ c ∈ s.commits, CompleteRange c) (ho : SingleShard shardOf s a)
    (hee : exec ext capability s a = .ok t) :
    Fenced capability t ∧ ∀ c ∈ t.commits, CompleteRange c := by
  obtain ⟨hf',hsp⟩ := exec_stepped hf hee
  cases hsp with
  | quiet hq => exact ⟨hf',hq.commits ▸ h⟩
  | extended call answers clock hp he =>
    refine ⟨hf',?_⟩
    rw [he.commits]
    obtain ⟨fromHeight,toHeight,scanned,han,rfl⟩ := plan_answer hp (.inl rfl)
    exact forall_snoc h (completeRange_of_extended he (ho fromHeight toHeight scanned han))
  | rewound call answers clock ids hp hre => exact ⟨hf',hre.commits ▸ h⟩

lemma cursor_le_step (hf : Fenced capability s)
    (ha : ∀ call answers clock ids, a ≠ .rewind call answers clock ids)
    (hee : exec ext capability s a = .ok t) (chainID shard : String) :
    (row capability s.db.cursors chainID shard).height ≤
      (row capability t.db.cursors chainID shard).height := by
  obtain ⟨-,hsp⟩ := exec_stepped hf hee
  cases hsp with
  | quiet hq => exact (hq.stays chainID shard).1.ge
  | extended call answers clock hp he =>
    by_cases hsame : (chainID,shard) = (call.lease.chainID,call.lease.shard)
    · cases hsame
      rw [he.moved.before.1,he.moved.after.1]
      exact he.toHeight
    · rw [he.moved.others _ _ hsame]
  | rewound call answers clock ids hp hre => exact absurd rfl (ha call answers clock ids)

lemma held_of_commit (he : exec ext capability s (.commit call answers clock) = .ok t) :
    ∃ c ∈ s.db.cursors, HoldsCursor capability call.lease clock c := by
  simp only [exec,do_eq_ok] at he
  obtain ⟨-,-,he⟩ := he
  split at he
  swap
  · cases he
  simp only [RangeChecks.commit,do_ok] at he
  obtain ⟨db,⟨-,-,hco⟩,-⟩ := he
  obtain ⟨d,hcu,hm,-⟩ := storeRange_moves hco
  simp only [moveCursor,do_ok,updateOne_eq_ok,hcu] at hm
  have hp : 0 < s.db.cursors.countP (HoldsCursor capability call.lease clock) := by omega
  obtain ⟨c,hc,hh⟩ := countP_pos_iff.mp hp
  exact ⟨c,hc,of_decide_eq_true hh⟩

lemma held_of_rewind {ids : ReorgIDs}
    (he : exec ext capability s (.rewind call answers clock ids) = .ok t) :
    ∃ c ∈ s.db.cursors, HoldsCursor capability call.lease clock c := by
  simp only [exec,do_eq_ok] at he
  obtain ⟨-,-,he⟩ := he
  split at he
  swap
  · cases he
  simp only [rewindReorg,insertScannerGap,do_ok] at he
  obtain ⟨-,⟨-,hh,-⟩,-⟩ := he
  exact hh

end

structure Fresh (s : World) : Prop where
  cursors : s.db.cursors = []
  chainBlocks : s.db.chainBlocks = []
  calls : s.calls = []
  commits : s.commits = []
  origin : s.origin = fun _ _ => 1

section
variable {ext : Externals} {capability : String} {shardOf : String → String}
  {identify : (chainID hash : String) → ℕ × String} {s : World} {as : List Action}

lemma Fresh.fenced (h : Fresh s) : Fenced capability s := by
  refine ⟨?_,?_,?_⟩
  · simp [h.cursors]
  · simp [h.calls]
  · intro chainID shard
    simp only [h.cursors,row]
    exact ⟨by norm_num,fun _ => by norm_num⟩

lemma Fresh.not_canonical (h : Fresh s) {chainID : String} {x : BlockRef} :
    ¬Canonical s.db.chainBlocks chainID x := by
  simp [h.chainBlocks,Canonical]

lemma Fresh.history (h : Fresh s) {heightOf : (chainID hash : String) → ℕ} :
    History capability shardOf heightOf s := by
  refine ⟨?_,?_,?_,?_,?_⟩
  · simp [h.calls]
  · simp [h.chainBlocks]
  · intro chainID x hx
    exact absurd hx h.not_canonical
  · intro chainID x y hx
    exact absurd hx h.not_canonical
  · intro chainID hha
    simp [h.cursors,row] at hha

lemma Fresh.chained (h : Fresh s) : Chained capability shardOf identify s := by
  refine ⟨?_,?_,?_⟩
  · intro chainID b hb
    simp [Scanned,h.commits] at hb
  · intro chainID x hx
    exact absurd hx h.not_canonical
  · simp [h.cursors,h.origin,row]

/-- Over every run of one shard for each chain against arbitrary dense answers: each committed
range is complete, only a rewind lowers a cursor, and a transaction under a lost lease changes
nothing. If the hash of every answered block also determines its height and parent, the heights
from the last unbound cursor up to the cursor were committed as one linked chain. -/
theorem scanner_runs_gapless (hfresh : Fresh s)
    (hruns : Along (exec ext capability) (SingleShard shardOf) s as) :
    let t := run (exec ext capability) s as
    (∀ c ∈ t.commits, CompleteRange c) ∧
    (∀ a, (∀ call answers clock ids, a ≠ .rewind call answers clock ids) → ∀ chainID shard,
      (row capability t.db.cursors chainID shard).height ≤
        (row capability (commit (exec ext capability) t a).db.cursors chainID shard).height) ∧
    (∀ call answers clock ids, (¬∃ c ∈ t.db.cursors, HoldsCursor capability call.lease clock c) →
      commit (exec ext capability) t (.commit call answers clock) = t ∧
        commit (exec ext capability) t (.rewind call answers clock ids) = t) ∧
    (Along (exec ext capability) (Identified identify) s as → ∀ chainID,
      (chainCursor capability shardOf t chainID).hash ≠ "" →
      t.origin chainID (shardOf chainID) ≤ (chainCursor capability shardOf t chainID).height →
      Reaches blockReading (Scanned t chainID) (t.origin chainID (shardOf chainID))
        (chainCursor capability shardOf t chainID).height
        (chainCursor capability shardOf t chainID).hash) := by
  intro t
  have hr := run_invariant (fun s a t hs ha hee => completeRanges_step hs.1 hs.2 ha hee)
      ⟨hfresh.fenced,by simp [hfresh.commits]⟩ hruns
  refine ⟨hr.2,?_,?_,?_⟩
  · intro a ha chainID shard
    cases hee : exec ext capability t a with
    | ok u =>
      rw [commit_of_ok hee]
      exact cursor_le_step hr.1 ha hee chainID shard
    | error e =>
      rw [commit_of_not_ok (by simp [hee])]
  · intro call answers clock ids hl
    constructor
    · exact commit_of_not_ok fun u hee => hl (held_of_commit hee)
    · exact commit_of_not_ok fun u hee => hl (held_of_rewind hee)
  · intro hi chainID hh ho
    obtain ⟨-,hhistory,hch⟩ := run_invariant (P := fun t => Fenced capability t ∧
        History capability shardOf (fun chainID hash => (identify chainID hash).1) t ∧
        Chained capability shardOf identify t)
      (fun s a t hs ha hee => hs.2.2.step hs.1 hs.2.1 ha.1 ha.2 hee)
      ⟨hfresh.fenced,hfresh.history,hfresh.chained⟩ (hruns.and hi)
    obtain ⟨start,hst,f,hf⟩ := hch.reaches chainID _ (hhistory.cursor chainID hh)
    exact ⟨f,hf.raise hst ho⟩

end

def sampleScanner : Worker := { sampleWorker with quorum := 1, overlap := 2 }

def sampleAnswer (safe fromHeight toHeight : ℕ) (blocks : List Block) : Answers where
  now := minute
  heads := .ok [⟨"first","tron","genesis",safe,minute⟩]
  scanRange := fun _ _ => .ok { fromHeight, toHeight, blocks, events := [] }

def sampleCall (version : ℤ) (height : ℕ) (hash : String) : Call :=
  ⟨sampleScanner,Workers.sampleLease version height hash⟩

def sampleBlocks : List Block := (List.range' 1 6).map sampleChain

def sampleFresh : World := { db := {} }

lemma sampleFresh_fresh : Fresh sampleFresh := ⟨rfl,rfl,rfl,rfl,rfl⟩

abbrev sampleRun (as : List Action) : World :=
  run (exec Workers.sampleExternals "transfers") sampleFresh as

def samplePosition (s : World) : ℕ × String × ℕ :=
  ((chainCursor "transfers" (fun _ => "shard") s "tron").height,
    (chainCursor "transfers" (fun _ => "shard") s "tron").hash,s.origin "tron" "shard")

def sampleScan : List Action :=
  [.start sampleScanner minute,
    .commit (sampleCall 2 0 "") (sampleAnswer 4 1 4 (sampleBlocks.take 4)) minute,
    .start sampleScanner minute,
    .commit (sampleCall 4 4 "block-4") (sampleAnswer 6 3 6 (sampleBlocks.drop 2)) minute]

def sampleIdentify (_ hash : String) : ℕ × String :=
  ((sampleBlocks.find? (·.hash = hash)).map fun b => (b.height,b.parentHash)).getD (0,"")

lemma sampleScan_singleShard : ∀ a ∈ sampleScan, ∀ s, SingleShard (fun _ => "shard") s a := by
  intro a ha s
  simp only [sampleScan,mem_cons,not_mem_nil,or_false] at ha
  rcases ha with rfl | rfl | rfl | rfl
  · rfl
  · rintro _ _ _ ⟨⟩
    rfl
  · rfl
  · rintro _ _ _ ⟨⟩
    rfl

theorem scanner_runs_gapless_sample : samplePosition (sampleRun sampleScan) = (6,"block-6",1) ∧
      Reaches blockReading (Scanned (sampleRun sampleScan) "tron") 1 6 "block-6" := by
  have hp : samplePosition (sampleRun sampleScan) = (6,"block-6",1) := by decide +kernel
  have hi : ∀ a ∈ sampleScan, ∀ s, Identified sampleIdentify s a := by
    intro a ha s
    simp only [sampleScan,mem_cons,not_mem_nil,or_false] at ha
    rcases ha with rfl | rfl | rfl | rfl
    · trivial
    · rintro _ _ _ ⟨⟩
      decide +kernel
    · trivial
    · rintro _ _ _ ⟨⟩
      decide +kernel
  have hr : Along (exec Workers.sampleExternals "transfers") (SingleShard fun _ => "shard")
      sampleFresh sampleScan := along_of_forall sampleScan_singleShard
  have hch := (scanner_runs_gapless sampleFresh_fresh hr).2.2.2
    (along_of_forall hi) "tron"
  exact ⟨hp,hch (by decide) (by decide)⟩

/-- The provider answers the overlap with a block 3 of its own under the committed block 4, and
then with another block 4 on top of it. -/
def sampleForgery : List Action :=
  sampleScan.take 3 ++ [.commit (sampleCall 4 4 "block-4") (sampleAnswer 4 3 4
      [⟨3,"forged-3","forged-2",1003⟩,⟨4,"block-4","forged-3",1004⟩]) minute,
    .start sampleScanner minute,.rewind (sampleCall 6 4 "block-4") (sampleAnswer 4 3 4
      [⟨3,"forged-3","forged-2",1003⟩,⟨4,"forged-4","forged-3",1004⟩]) minute
      (Workers.sampleReorgIDs "")]

/-- The cursor is rewound to the forged block, whose parent was never committed. -/
theorem forged_overlap_unlinked :
    Along (exec Workers.sampleExternals "transfers") (SingleShard fun _ => "shard") sampleFresh
        sampleForgery ∧ samplePosition (sampleRun sampleForgery) = (3,"forged-3",1) ∧
      ¬Reaches blockReading (Scanned (sampleRun sampleForgery) "tron") 1 3 "forged-3" := by
  have hsi : ∀ a ∈ sampleForgery, ∀ s, SingleShard (fun _ => "shard") s a := by
    intro a ha s
    rcases mem_append.mp ha with ha | ha
    · exact sampleScan_singleShard a (mem_of_mem_take ha) s
    simp only [mem_cons,not_mem_nil,or_false] at ha
    rcases ha with rfl | rfl | rfl
    · rintro _ _ _ ⟨⟩
      rfl
    · rfl
    · trivial
  have hpa : ∀ c ∈ (sampleRun sampleForgery).commits, ∀ b ∈ c.range.blocks,
      ∀ c' ∈ (sampleRun sampleForgery).commits, ∀ p ∈ c'.range.blocks,
        b.height = 3 → b.hash = "forged-3" → p.height = 2 → b.parentHash ≠ p.hash := by
    decide +kernel
  refine ⟨along_of_forall hsi,by decide +kernel,?_⟩
  rintro ⟨f,hf⟩
  obtain ⟨c,hc,-,hb⟩ := hf.mem 3 (by decide) (by decide)
  obtain ⟨c',hc',-,hp⟩ := hf.mem 2 (by decide) (by decide)
  have hl := hf.linked 2 (by decide) (by decide)
  exact hpa c hc _ hb c' hc' _ hp (hf.height 3 (by decide) (by decide)) hf.tip
    (hf.height 2 (by decide) (by decide)) hl

end Ocrypt.ScannedChain
