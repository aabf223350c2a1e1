import Ocrypt.ScanCycles
import Ocrypt.ScannedChain

/-! What a committed rewind leaves behind, and how far cursors are rewound while the providers
serve one fixed chain. -/
namespace Ocrypt.RewindDepth
open Domain Fallible Table Store Scanner Reorg RangeChecks ScanWorker BlockHistory ReorgEffects
  Transactions ScanRuns CanonicalHistory ScannedChain ReorgProgress ScanCycles List

variable (capability : String) (shardOf : String → String) (db : Database) (s : World)

abbrev MarkedUnmatched : Prop :=
  ∀ e ∈ db.transferEvents, e.status = .reorged → ∀ m ∈ db.paymentMatches,
    m.source = .transfer e.id → m.state = .reversed

abbrev KeepsGenesis (chainID : String) (r : ScannedRange) : Prop :=
  r.fromHeight = 0 → ∀ b ∈ db.chainBlocks, b.chainID = chainID → b.height = 0 →
    b.status ≠ .reorged → ∃ c ∈ r.blocks, c.height = 0 ∧ c.hash = b.hash

def GenesisKept : Action → Prop
  | .rewind call a _ _ => ∀ fromHeight toHeight r, a.scanRange fromHeight toHeight = .ok r →
      KeepsGenesis s.db call.lease.chainID r
  | _ => True

/-- One shard for each chain, a hash stands at one height, and a rewind finds neither a marked
transfer that counts nor another start of the chain. -/
def Orderly (heightOf : (chainID hash : String) → ℕ) (s : World) : Action → Prop
  | .start w _ => w.shard = shardOf w.chainID
  | .commit call a _ => ∀ fromHeight toHeight r, a.scanRange fromHeight toHeight = .ok r →
      ∀ b ∈ r.blocks, heightOf call.lease.chainID b.hash = b.height
  | .rewind call a clock ids => MarkedUnmatched s.db ∧ GenesisKept s (.rewind call a clock ids)
  | _ => True

/-- Every block of the history is named, and it holds none at the height of a cursor that is
bound to none. -/
structure Vacant : Prop where
  named : ∀ b ∈ s.db.chainBlocks, b.hash ≠ ""
  free : ∀ chainID, (chainCursor capability shardOf s chainID).hash = "" → ∀ x,
    Canonical s.db.chainBlocks chainID x →
      x.height ≠ (chainCursor capability shardOf s chainID).height

structure Repaired (s t : World) (chainID : String) : Prop where
  unique : ∀ x y, Canonical t.db.chainBlocks chainID x → Canonical t.db.chainBlocks chainID y →
    x.height = y.height → x = y
  below : ∀ x, Canonical t.db.chainBlocks chainID x →
    x.height ≤ (chainCursor capability shardOf t chainID).height
  lower : (chainCursor capability shardOf t chainID).height <
      (chainCursor capability shardOf s chainID).height ∨
    ((chainCursor capability shardOf t chainID).height = 0 ∧
      (chainCursor capability shardOf t chainID).hash = "")
  transfers : ∀ e ∈ t.db.transferEvents, e.identity.chainID = chainID →
    (∃ x, Canonical s.db.chainBlocks chainID x ∧ x.hash = e.blockHash ∧
      ¬Canonical t.db.chainBlocks chainID x) →
    e.status = .reorged ∧ ∀ m ∈ t.db.paymentMatches, m.source = .transfer e.id →
      m.state = .reversed

variable {ext : Externals} {capability committedHash newHash : String} {shardOf : String → String}
  {heightOf : (chainID hash : String) → ℕ} {s t : World} {lease : Lease} {r : ScannedRange}
  {clock : ℤ} {height : ℕ}

section
variable {a : Action} {ids : ReorgIDs} {x : BlockRef} {answers : Answers} {call : Call}

section
variable (h : Orderly shardOf heightOf s a)
include h

lemma Orderly.oneShard : OneShard shardOf a := by
  cases a with
  | start w now => exact h
  | _ => trivial

lemma Orderly.heightsFixed : HeightsFixed heightOf a := by
  cases a with
  | commit call answers clock => exact h
  | _ => trivial

lemma Orderly.genesisKept : GenesisKept s a := by
  cases a with
  | rewind call answers clock ids => exact h.2
  | _ => trivial

end

lemma rewound_transfers (hmr : MarkedUnmatched s.db)
    (hee : exec ext capability s (.rewind call answers clock ids) = .ok t)
    {e : TransferEvent} (he : e ∈ t.db.transferEvents)
    (hchain : e.identity.chainID = call.lease.chainID)
    (hrp : ∃ x, Canonical s.db.chainBlocks call.lease.chainID x ∧ x.hash = e.blockHash ∧
      ¬Canonical t.db.chainBlocks call.lease.chainID x) :
    e.status = .reorged ∧ ∀ m ∈ t.db.paymentMatches, m.source = .transfer e.id →
      m.state = .reversed := by
  simp only [exec,do_ok] at hee
  obtain ⟨-,hee⟩ := hee
  split at hee
  swap
  · cases hee
  rename_i r height committedHash newHash hp
  simp only [do_ok] at hee
  obtain ⟨db,hrw,rfl⟩ := hee
  obtain ⟨d,cursors,ho,rfl⟩ := rewindReorg_effect hrw
  obtain ⟨has,hmt⟩ := traverse_orphaned ho
  obtain ⟨x,hx,hh,hg⟩ := hrp
  -- The block of the transfer is one that the rewind marked.
  have hma : e.blockHash ∈ replacedHashes s.db call.lease r.stored := by
    obtain ⟨b,hb,hbc,hbh,hba,hbs⟩ := hx
    have hra : (rewindPoint s.db call.lease r.stored).height < x.height ∧
        x.height ≤ call.lease.height := by
      by_contra hou
      apply hg
      change Canonical d.chainBlocks call.lease.chainID x
      rw [has.chainBlocks]
      refine canonical_rewoundBlocks.mpr ⟨⟨b,hb,hbc,hbh,hba,hbs⟩,?_⟩
      exact fun hin => hou hin.2
    refine mem_map.mpr ⟨b,mem_filter.mpr ⟨hb,?_⟩,hba.trans hh⟩
    rw [decide_eq_true_eq]
    exact ⟨hbc,hbh ▸ hra.1,hbh ▸ hra.2,hbs⟩
  have hre : ∀ e₀ ∈ s.db.transferEvents, e₀.identity.chainID = call.lease.chainID →
      e₀.blockHash ∈ replacedHashes s.db call.lease r.stored → ∀ m ∈ d.paymentMatches,
      m.source = .transfer e₀.id → m.state = .reversed := by
    intro e₀ he₀ hchain₀ hmk₀ m hm hso
    rcases hmt m hm with ⟨hold,hev⟩ | ⟨m₀,-,rfl⟩
    · by_cases hst : e₀.status = .reorged
      · exact hmr e₀ he₀ hst m hold hso
      · refine hev e₀.id (mem_map.mpr ⟨e₀,mem_filter.mpr ⟨he₀,?_⟩,rfl⟩) hso
        rw [decide_eq_true_eq]
        exact ⟨hchain₀,hmk₀,hst⟩
    · rfl
  change e ∈ update _ _ d.transferEvents at he
  rw [has.transferEvents] at he
  rcases mem_update_iff.mp he with ⟨he₀,hk⟩ | ⟨e₀,he₀,-,rfl⟩
  · refine ⟨?_,hre e he₀ hchain hma⟩
    by_contra hst
    refine hk ⟨mem_map.mpr ⟨e,mem_filter.mpr ⟨he₀,?_⟩,rfl⟩,hst⟩
    rw [decide_eq_true_eq]
    exact ⟨hchain,hma,hst⟩
  · exact ⟨rfl,hre e₀ he₀ hchain hma⟩

lemma exec_repaired (hf : Fenced capability s) (hhi : History capability shardOf heightOf s)
    (ha : Orderly shardOf heightOf s (.rewind call answers clock ids))
    (hee : exec ext capability s (.rewind call answers clock ids) = .ok t) :
    Repaired capability shardOf s t call.lease.chainID := by
  obtain ⟨-,hh'⟩ := hhi.step hf ha.oneShard ha.heightsFixed hee
  obtain ⟨-,r,height,committedHash,newHash,-,hro⟩ := exec_rewind hf hee
  have hshard := hhi.leases hf call (running_of_rewind hee)
  have ho := own_chain hro.moved hshard
  refine ⟨hh'.unique call.lease.chainID,hh'.below call.lease.chainID,?_,?_⟩
  · rw [ho.1.1,ho.2.1,ho.2.2]
    exact .inl hro.lower
  · intro e he hchain hre
    exact rewound_transfers ha.1 hee he hchain hre

lemma named_step (hf : Fenced capability s) (h : ∀ b ∈ s.db.chainBlocks, b.hash ≠ "")
    (hee : exec ext capability s a = .ok t) : ∀ b ∈ t.db.chainBlocks, b.hash ≠ "" := by
  obtain ⟨-,hsp⟩ := exec_stepped hf hee
  cases hsp with
  | quiet hq =>
    rw [hq.chainBlocks]
    exact h
  | extended call answers clock hp he =>
    rw [he.chainBlocks]
    intro b hb
    rcases mem_committed hb with ⟨x,hx,-,-,hha⟩ | ⟨b₀,hb₀,-,-,hha⟩
    · obtain ⟨c,hc,rfl⟩ := mem_map.mp hx
      rw [hha]
      exact (he.shaped.mem hc).2.2
    · rw [hha]
      exact h b₀ hb₀
  | rewound call answers clock ids hp hro =>
    rw [hro.chainBlocks]
    exact forall_update h fun _ _ _ hb => hb

lemma rewound_free (hna : ∀ b ∈ s.db.chainBlocks, b.hash ≠ "")
    (ha : GenesisKept s (.rewind call answers clock ids))
    (hpl : plan call.worker call.lease answers = .rewind r height committedHash newHash)
    (hro : Rewound capability s t call.lease r clock)
    (hha : (rewindPoint s.db call.lease r.stored).hash = "")
    (hx : Canonical s.db.chainBlocks call.lease.chainID x) :
    x.height ≠ (rewindPoint s.db call.lease r.stored).height := by
  have ho : r.stored.blocks.Pairwise fun p q => p.height < q.height :=
    pairwise_map.mpr hro.shaped.ordered
  rcases rewindPoint_cases s.db call.lease r.stored with han | ⟨hn,hz,hpo⟩ |
    ⟨-,-,hpo,hk | ⟨-,hf⟩⟩
  · obtain ⟨hm,-,-⟩ := commonAncestor_some han
    obtain ⟨b,hb,hre⟩ := mem_map.mp hm
    have hsame := congrArg BlockRef.hash hre
    exact absurd (hsame.trans hha) (hro.shaped.mem hb).2.2
  · -- A block that the history holds at height zero would have been the ancestor.
    rw [hpo]
    intro hh
    obtain ⟨fromHeight,toHeight,scanned,has,hra⟩ :=
      plan_answer hpl (.inr ⟨height,committedHash,newHash,rfl⟩)
    have hst : scanned.fromHeight = 0 := by
      rw [hra] at hz
      exact hz
    obtain ⟨b,hb,hbc,hbh,-,hbs⟩ := hx
    have hb0 : b.height = 0 := hbh.trans hh
    obtain ⟨c,hc,hch,hca⟩ := ha fromHeight toHeight scanned has hst b hb
      hbc hb0 hbs
    have hm : c.ref ∈ r.stored.blocks := by
      rw [hra]
      exact mem_map_of_mem hc
    have hag : Canonical s.db.chainBlocks call.lease.chainID c.ref :=
      ⟨b,hb,hbc,hb0.trans hch.symm,hca.symm,hbs⟩
    have hle : c.ref.height ≤ call.lease.height := by
      change c.height ≤ _
      omega
    obtain ⟨y,hy,-⟩ := commonAncestor_max ho hm hle hag
    rw [hy] at hn
    cases hn
  · obtain ⟨b,hb,-,-,hba,-⟩ := hk
    exact absurd (hba.trans hha) (hna b hb)
  · rw [hpo]
    exact fun hh => hf x hh hx

lemma Vacant.step (hf : Fenced capability s) (hhi : History capability shardOf heightOf s)
    (h : Vacant capability shardOf s) (ha : GenesisKept s a)
    (hee : exec ext capability s a = .ok t) : Vacant capability shardOf t := by
  refine ⟨named_step hf h.named hee,?_⟩
  intro chainID hha x hx
  obtain ⟨-,hsp⟩ := exec_stepped hf hee
  cases hsp with
  | quiet hq =>
    rw [(hq.stays _ _).2] at hha
    rw [hq.chainBlocks] at hx
    rw [(hq.stays _ _).1]
    exact h.free chainID hha x hx
  | extended call answers clock hp he =>
    have hshard := hhi.leases hf call (running_of_commit hee)
    by_cases hchain : chainID = call.lease.chainID
    · subst hchain
      have ho := own_chain he.moved hshard
      obtain ⟨b,hb,hre⟩ := mem_map.mp (lastHash_ref he.shaped)
      have hsame := congrArg BlockRef.hash hre
      rw [ho.2.2] at hha
      exact absurd (hsame.trans hha) (he.shaped.mem hb).2.2
    · rw [other_chain he.moved hchain] at hha ⊢
      exact h.free chainID hha x ((canonical_extended_other he hchain).mp hx)
  | rewound call answers clock ids hp hro =>
    have hshard := hhi.leases hf call (running_of_rewind hee)
    have hold := ((canonical_rewound hro).mp hx).1
    by_cases hchain : chainID = call.lease.chainID
    · subst hchain
      have ho := own_chain hro.moved hshard
      rw [ho.2.2] at hha
      rw [ho.2.1]
      exact rewound_free h.named ha hp hro hha hold
    · rw [other_chain hro.moved hchain] at hha ⊢
      exact h.free chainID hha x hold

end

/-- The database over whole cycles, with how many there were and how many of them rewound. -/
structure Scan where
  db : Database
  polls : ℕ := 0
  rewinds : ℕ := 0

/-- A cycle of the worker that nobody interrupts, or a transaction of someone else, none of which
writes a cursor or a block. -/
inductive Turn
  | runOnce (answers : Answers) (clock : ℤ) (ids : ReorgIDs)
  | other (f : Database → Database)

def turn (ext : Externals) (capability : String) (w : Worker) (s : Scan) :
    Turn → Except Failure Scan
  | .runOnce a clock ids =>
    let o := runOnce ext capability w s.db a clock ids
    .ok ⟨o.db,s.polls+1,s.rewinds+(Outcome.rewound o).toNat⟩
  | .other f =>
    .ok { s with db := { f s.db with chainBlocks := s.db.chainBlocks, cursors := s.db.cursors } }

/-- The stored transfers of the recorded blocks that the chain does not have. -/
def orphans (chainID : String) (chain : ℕ → Block) : List String :=
  (db.transferEvents.filter fun e => e.identity.chainID = chainID ∧ e.status ≠ .reorged ∧
    ∃ b ∈ db.chainBlocks, b.chainID = chainID ∧ b.hash = e.blockHash ∧ b.status ≠ .reorged ∧
      b.hash ≠ (chain b.height).hash).map (·.id)

/-- The cycle finds its cursor free and the chain served at least up to it, and nothing stands
against undoing what was settled from blocks that the chain does not have. -/
def Polled (capability : String) (w : Worker) (chain : ℕ → Block) (events : List TransferEvent)
    (s : Scan) : Turn → Prop
  | .runOnce a clock ids =>
    Free w.owner a.now (row capability s.db.cursors w.chainID w.shard) ∧
      clock < a.now+w.leaseDuration ∧
      Serves w chain events (row capability s.db.cursors w.chainID w.shard).height a ∧
      (s.db.transferEvents.map (·.id)).Nodup ∧ Undoable ids (orphans s.db w.chainID chain) s.db
  | .other _ => True

def Joins (chain : ℕ → Block) (height : ℕ) (hash : String) : Prop :=
  hash = (chain height).hash ∨ hash = ""

abbrev Settled (capability : String) (w : Worker) (chain : ℕ → Block) (db : Database) : Prop :=
  Joins chain (row capability db.cursors w.chainID w.shard).height
    (row capability db.cursors w.chainID w.shard).hash

structure Scannable (capability : String) (shardOf : String → String)
    (heightOf : (chainID hash : String) → ℕ) (s : World) : Prop where
  fenced : Fenced capability s
  history : History capability shardOf heightOf s
  vacant : Vacant capability shardOf s

variable {w : Worker} {db : Database} {depth : ℕ}

variable (ext clock) in
/-- What the transactions of a cycle keep holds when the cycle ends. -/
lemma runOnce_invariant {a : Answers} (ids : ReorgIDs) {P : World → Prop}
    (hst : ∀ s x t, P s → CycleOf w a x → exec ext capability s x = .ok t → P t)
    (h : P { db := db }) : ∃ t, P t ∧ t.db = (runOnce ext capability w db a clock ids).db := by
  obtain ⟨xs,hcy,hdb⟩ := runOnce_run ext capability w a clock ids { db := db }
  exact ⟨_,run_invariant hst h (along_of_forall fun x hx _ => hcy x hx),hdb⟩

section
variable {x : Action} {chain : ℕ → Block} {events : List TransferEvent} {a : Answers}
  {ids : ReorgIDs} {evidence : List ConfigEvidence} {fromHeight toHeight : ℕ} {start : ℕ}

lemma Scannable.step (h : Scannable capability shardOf heightOf s) (ho : OneShard shardOf x)
    (hfi : HeightsFixed heightOf x) (hg : GenesisKept s x)
    (he : exec ext capability s x = .ok t) : Scannable capability shardOf heightOf t := by
  obtain ⟨hf,hhi⟩ := h.history.step h.fenced ho hfi he
  exact ⟨hf,hhi,h.vacant.step h.fenced h.history hg he⟩

lemma Scannable.bare (h : Scannable capability shardOf heightOf s)
    (hcu : db.cursors = s.db.cursors) (hbl : db.chainBlocks = s.db.chainBlocks) :
    Scannable capability shardOf heightOf { db := db } := by
  refine ⟨⟨?_,?_,?_⟩,⟨?_,?_,?_,?_,?_⟩,⟨?_,?_⟩⟩
  · rw [hcu]
    exact h.fenced.keys
  · simp
  · rw [hcu]
    exact h.fenced.fits
  · simp
  · rw [hbl]
    exact h.history.heights
  · simp only [chainCursor,hcu,hbl]
    exact h.history.below
  · rw [hbl]
    exact h.history.unique
  · simp only [chainCursor,hcu,hbl]
    exact h.history.cursor
  · rw [hbl]
    exact h.vacant.named
  · simp only [chainCursor,hcu,hbl]
    exact h.vacant.free

lemma cycle_oneShard (hshard : w.shard = shardOf w.chainID) (hcy : CycleOf w a x) :
    OneShard shardOf x := by
  cases x with
  | start w' now =>
    cases hcy
    exact hshard
  | _ => trivial

abbrev Serving (chain : ℕ → Block) (events : List TransferEvent) (a : Answers) : Prop :=
  ∀ fromHeight toHeight,
    a.scanRange fromHeight toHeight = .ok (served chain events fromHeight toHeight)

lemma cycle_served (hse : Serving chain events a) {p : Plan} (hpl : plan w lease a = p)
    (hwr : p = .commit r ∨ ∃ height committedHash newHash,
      p = .rewind r height committedHash newHash) :
    ∃ fromHeight toHeight, r = attested chain events fromHeight toHeight w.runtimeEvidence := by
  obtain ⟨fromHeight,toHeight,scanned,han,rfl⟩ := plan_answer hpl hwr
  rw [hse] at han
  cases han
  exact ⟨fromHeight,toHeight,rfl⟩

section
variable (hchain : FixedChain w.chainID chain events)
include hchain

lemma lastHash_attested
    (hsh : Shaped (attested chain events fromHeight toHeight evidence) fromHeight toHeight) :
    lastHash (attested chain events fromHeight toHeight evidence) = (chain toHeight).hash := by
  have hle : fromHeight ≤ toHeight := hsh.bounds.2.2.1
  obtain ⟨b,hb,hr⟩ := mem_map.mp (lastHash_ref hsh)
  have hh : b.height = toHeight := congrArg BlockRef.height hr
  have hha : b.hash = lastHash (attested chain events fromHeight toHeight evidence) :=
    congrArg BlockRef.hash hr
  rw [mem_attested hchain hle,hh] at hb
  rw [← hha,hb.2.2]

lemma not_rewound (hsr : Serving chain events a) (hse : Joins chain lease.height lease.hash) :
    plan w lease a ≠ .rewind r height committedHash newHash := by
  intro hp
  obtain ⟨safe,-,hj⟩ := plan_eq_judge hp (.inr ⟨r,height,committedHash,newHash,rfl⟩)
  obtain ⟨-,-,hre⟩ := judge_rewind hj
  obtain ⟨hsh,-,hbo,-,b,hb,hh,hha⟩ := validateRange_eq_reorg hre
  obtain ⟨fromHeight,toHeight,rfl⟩ := cycle_served hsr hp
    (.inr ⟨height,committedHash,newHash,rfl⟩)
  have hle : fromHeight ≤ toHeight := hsh.own.bounds.2.2.1
  rw [mem_attested hchain hle,hh] at hb
  rcases hse with hon | hn
  · exact hha (by rw [hb.2.2,hon])
  · exact hbo hn

lemma cycle_heightsFixed
    (hh : ∀ k, heightOf w.chainID (chain k).hash = k) (hse : Serving chain events a)
    (hf : Fenced capability s) (hcy : CycleOf w a x)
    (he : exec ext capability s x = .ok t) : HeightsFixed heightOf x := by
  cases x with
  | commit call answers clock =>
    obtain ⟨rfl,rfl⟩ := hcy
    have hl := hf.calls call (running_of_commit he)
    intro fromHeight toHeight r han b hb
    rw [hse] at han
    cases han
    obtain ⟨k,-,rfl⟩ := mem_map.mp hb
    rw [hl.chainID,hh,hchain.height]
  | _ => trivial

lemma cycle_not_rewound (hsr : Serving chain events a) (hf : Fenced capability s)
    (hse : Settled capability w chain s.db) {call : Call} (hcy : CycleOf w a (.rewind call a clock ids)) :
    exec ext capability s (.rewind call a clock ids) ≠ .ok t := by
  intro he
  obtain ⟨rfl,-⟩ := hcy
  have hl := hf.calls call (running_of_rewind he)
  obtain ⟨-,r,height,committedHash,newHash,hp,hro⟩ := exec_rewind hf he
  refine not_rewound hchain hsr ?_ hp
  rw [Settled,← hl.chainID,← hl.shard,hro.moved.before.1, hro.moved.before.2] at hse
  exact hse

end

section
variable (hshard : w.shard = shardOf w.chainID) (hchain : FixedChain w.chainID chain events)
  (hhe : ∀ k, heightOf w.chainID (chain k).hash = k) (hse : Serving chain events a)
include hshard hchain hhe hse

lemma settled_step (h : Scannable capability shardOf heightOf s)
    (hst : Settled capability w chain s.db) (hcy : CycleOf w a x) (hee : exec ext capability s x = .ok t) :
    Scannable capability shardOf heightOf t ∧ Settled capability w chain t.db := by
  have hg : GenesisKept s x := by
    cases x with
    | rewind call answers clock ids =>
      obtain ⟨hwo,rfl⟩ := hcy
      exact absurd hee (cycle_not_rewound hchain hse h.fenced hst ⟨hwo,rfl⟩)
    | _ => trivial
  refine ⟨h.step (cycle_oneShard hshard hcy)
    (cycle_heightsFixed hchain hhe hse h.fenced hcy hee) hg hee,?_⟩
  obtain ⟨-,hsp⟩ := exec_stepped h.fenced hee
  cases hsp with
  | quiet hq =>
    rw [Settled,(hq.stays _ _).1,(hq.stays _ _).2]
    exact hst
  | extended call answers clock hp he =>
    obtain ⟨rfl,rfl⟩ := hcy
    have hl := h.fenced.calls call (running_of_commit hee)
    obtain ⟨fromHeight,toHeight,rfl⟩ := cycle_served hse hp (.inl rfl)
    rw [Settled,← hl.chainID,← hl.shard,he.moved.after.1,he.moved.after.2]
    exact .inl (lastHash_attested hchain he.shaped)
  | rewound call answers clock ids hp hro =>
    obtain ⟨hwo,rfl⟩ := hcy
    exact absurd hee (cycle_not_rewound hchain hse h.fenced hst ⟨hwo,rfl⟩)

variable (ext clock ids) in
lemma settled_cycle (h : Scannable capability shardOf heightOf { db := db })
    (hst : Settled capability w chain db) : let o := runOnce ext capability w db a clock ids
    Scannable capability shardOf heightOf { db := o.db } ∧ Settled capability w chain o.db ∧
      Outcome.rewound o = false := by
  intro o
  obtain ⟨t,⟨hsc,hke⟩,hdb⟩ := runOnce_invariant ext clock ids
    (fun s x t hs hx hee => settled_step hshard hchain hhe hse hs.1 hs.2 hx hee) ⟨h,hst⟩
  rw [hdb] at hke
  refine ⟨hsc.bare (by rw [hdb]) (by rw [hdb]),hke,?_⟩
  by_contra hro
  rw [Bool.not_eq_false] at hro
  cases hac : w.start capability db a.now with
  | error e => simp [o,runOnce,hac,Outcome.rewound] at hro
  | ok started =>
    obtain ⟨db₁,lease⟩ := started
    obtain ⟨r,height,committedHash,newHash,hp⟩ :=
      plan_of_rewound (s := { db := db }) hac hro
    obtain ⟨-,-,hac,-⟩ := start_eq_ok.mp hac
    obtain ⟨rfl,-,-⟩ := acquire_row h.fenced.keys hac
    exact not_rewound hchain hse hst hp

end

section
variable (hchain : FixedChain w.chainID chain events) (hle : fromHeight ≤ toHeight)
include hchain hle

variable (lease db evidence) in
/-- A rewind to a range of the chain goes to one of its blocks, to no block, or below it. -/
lemma rewindPoint_attested :
    let point := rewindPoint db lease (attested chain events fromHeight toHeight evidence).stored
    (Canonical db.chainBlocks lease.chainID point ∧ point.height ≤ lease.height ∧
      fromHeight ≤ point.height ∧ point.hash = (chain point.height).hash) ∨
    (fromHeight = 0 ∧ point = ⟨0,""⟩) ∨ (0 < fromHeight ∧ point.height = fromHeight - 1) := by
  intro point
  rcases rewindPoint_cases db lease (attested chain events fromHeight toHeight evidence).stored with
    han | ⟨-,hz,hp⟩ | ⟨-,hpo,hp,-⟩
  · obtain ⟨hm,hup,hca⟩ := commonAncestor_some han
    obtain ⟨b,hb,hr⟩ := mem_map.mp hm
    have hh : b.height = point.height := congrArg BlockRef.height hr
    rw [mem_attested hchain hle,hh] at hb
    refine .inl ⟨hca,hup,hb.1,?_⟩
    rw [← hb.2.2]
    exact (congrArg BlockRef.hash hr).symm
  · exact .inr (.inl ⟨hz,hp⟩)
  · exact .inr (.inr ⟨hpo,hp⟩)

/-- A block of the range that the history holds is not above the point of the rewind. -/
lemma le_rewindPoint (hl : fromHeight ≤ height) (hu : height ≤ toHeight)
    (hup : height ≤ lease.height)
    (hca : Canonical db.chainBlocks lease.chainID ⟨height,(chain height).hash⟩) :
    height ≤ (rewindPoint db lease
      (attested chain events fromHeight toHeight evidence).stored).height := by
  have ho : (attested chain events fromHeight toHeight evidence).stored.blocks.Pairwise
      fun p q => p.height < q.height := pairwise_map.mpr (shaped_attested hchain hle).ordered
  have hm : chain height ∈ (attested chain events fromHeight toHeight evidence).blocks := by
    rw [mem_attested hchain hle,hchain.height]
    exact ⟨hl,hu,rfl⟩
  have href : (chain height).ref = ⟨height,(chain height).hash⟩ := by rw [Block.ref,hchain.height]
  obtain ⟨x,hx,hxh⟩ := commonAncestor_max ho (mem_map.mpr ⟨_,hm,href⟩) hup hca
  rw [rewindPoint,hx]
  exact hxh

lemma replacedEvents_orphans (hl : lease.chainID = w.chainID) (hu : lease.height ≤ toHeight) :
    ∀ e ∈ replacedEvents db lease (attested chain events fromHeight toHeight evidence).stored,
      e ∈ orphans db w.chainID chain := by
  intro id hid
  obtain ⟨e,he,rfl⟩ := mem_map.mp hid
  obtain ⟨he,hfa⟩ := mem_filter.mp he
  rw [decide_eq_true_eq] at hfa
  obtain ⟨hec,heh,hes⟩ := hfa
  obtain ⟨b,hb,hbh⟩ := mem_map.mp heh
  obtain ⟨hb,hr⟩ := mem_filter.mp hb
  rw [decide_eq_true_eq] at hr
  obtain ⟨hbc,hao,hbe,hbs⟩ := hr
  refine mem_map.mpr ⟨e,mem_filter.mpr ⟨he,?_⟩,rfl⟩
  rw [decide_eq_true_eq]
  refine ⟨hec.trans hl,hes,b,hb,hbc.trans hl,hbh,hbs,?_⟩
  intro hon
  by_cases hfr : fromHeight ≤ b.height
  · exact absurd (le_rewindPoint hchain hle hfr (hbe.trans hu) hbe ⟨b,hb,hbc,rfl,hon,hbs⟩)
      (Nat.not_le.mpr hao)
  · obtain ⟨-,-,hfo,-⟩ | ⟨hz,-⟩ | ⟨-,hpo⟩ :=
      rewindPoint_attested lease db evidence hchain hle <;> omega

/-- A cursor off the chain is rewound below its height: the history holds its block there and no
other, and block zero is the one of the chain. -/
lemma rewindPoint_lower (hl : fromHeight ≤ lease.height)
    (hne : (chain lease.height).hash ≠ lease.hash)
    (hcu : Canonical db.chainBlocks lease.chainID ⟨lease.height,lease.hash⟩)
    (hu : ∀ x y, Canonical db.chainBlocks lease.chainID x →
      Canonical db.chainBlocks lease.chainID y → x.height = y.height → x = y)
    (hg : ∀ x, Canonical db.chainBlocks lease.chainID x → x.height = 0 → x.hash = (chain 0).hash) :
    (rewindPoint db lease (attested chain events fromHeight toHeight evidence).stored).height <
      lease.height := by
  obtain ⟨hca,hup,-,hon⟩ | ⟨-,hp⟩ | ⟨hpo,hp⟩ :=
    rewindPoint_attested lease db evidence hchain hle
  · refine lt_of_le_of_ne hup fun hh => hne ?_
    rw [hu _ _ hca hcu hh] at hon
    exact hon.symm
  · rw [hp]
    refine Nat.pos_of_ne_zero fun hz => hne ?_
    rw [hz]
    exact (hg _ hcu hz).symm
  · omega

end

lemma Scannable.cursor (h : Scannable capability shardOf heightOf { db := db })
    (hshard : w.shard = shardOf w.chainID) (hof : ¬Settled capability w chain db) :
    let c := row capability db.cursors w.chainID w.shard
    c.hash ≠ (chain c.height).hash ∧ c.hash ≠ "" ∧
      Canonical db.chainBlocks w.chainID ⟨c.height,c.hash⟩ := by
  intro c
  obtain ⟨hne,hbo⟩ := not_or.mp hof
  have hcu := h.history.cursor w.chainID
  rw [chainCursor,← hshard] at hcu
  exact ⟨hne,hbo,hcu hbo⟩

variable (ext) in
/-- A cycle from a cursor off the chain rewinds it: onto the chain, to no block, or down by the
overlap. -/
lemma unsettled_cycle (hre : Ready w) (hshard : w.shard = shardOf w.chainID)
    (hchain : FixedChain w.chainID chain events) {polls rewinds : ℕ}
    (h : Scannable capability shardOf heightOf { db := db }) (hof : ¬Settled capability w chain db)
    (hf : (row capability db.cursors w.chainID w.shard).height+w.rangeSize < 2^64)
    (hg : ∀ x, Canonical db.chainBlocks w.chainID x → x.height = 0 → x.hash = (chain 0).hash)
    (hpo : Polled capability w chain events ⟨db,polls,rewinds⟩ (.runOnce a clock ids)) :
    let o := runOnce ext capability w db a clock ids
    Outcome.rewound o = true ∧ Scannable capability shardOf heightOf { db := o.db } ∧
      (∀ x, Canonical o.db.chainBlocks w.chainID x → Canonical db.chainBlocks w.chainID x) ∧
      (Settled capability w chain o.db ∨
        (row capability o.db.cursors w.chainID w.shard).height+w.overlap =
          (row capability db.cursors w.chainID w.shard).height) := by
  intro o
  obtain ⟨hfr,hli,hse,hi,hu⟩ := hpo
  obtain ⟨hne,hbo,hcu⟩ := h.cursor hshard hof
  have hk : (db.cursors.map cursorKey).Nodup := h.fenced.keys
  obtain ⟨cursors,hst,hhe⟩ := start_commits hre hk hfr (by omega) hli
  set c := row capability db.cursors w.chainID w.shard with hc
  set lease : Lease := ⟨w.chainID,w.shard,w.owner,c.height,c.hash,c.version+1⟩ with hls
  have hf' : lease.height+w.rangeSize < 2^64 := hf
  obtain ⟨toHeight,hl,hup,hwi,hp⟩ :=
    plan_conflict hchain hre.configured hse hbo hf' hne.symm
  have hle := hl.trans hup
  set r := attested chain events (w.scanFrom lease) toHeight w.runtimeEvidence with hr
  -- Nothing refuses the rewind.
  have hrw : ∃ db', rewindReorg capability { db with cursors := cursors } lease r.stored
      lease.height clock ids = .ok db' := by
    have hbl : r.stored.blocks ≠ [] := by
      have hsh : Shaped r (w.scanFrom lease) toHeight := shaped_attested hchain hle
      exact fun hem => hsh.bounds.2.2.2 (map_eq_nil_iff.mp hem)
    refine rewindReorg_commits ⟨hre.names.1,hre.names.2.1,hre.names.2.2,hbo,hbl,hl⟩ hhe
      (rewindPoint_lower hchain hle hl hne.symm hcu (h.history.unique w.chainID) hg)
      (orphans_commit ?_ ((hu.mono ?_).scanned _ cursors))
    · exact hi.sublist (filter_sublist.map _)
    · exact replacedEvents_orphans hchain hle rfl hup
  obtain ⟨db',hrw⟩ := hrw
  have ho : o = ⟨db',[⟨lease.chainID,(rewindPoint { db with cursors := cursors } lease
      r.stored).height+1,lease.height,"canonical_reorg"⟩],
      .error (.range (.reorg lease.height lease.hash (chain lease.height).hash))⟩ := by
    simp [o,runOnce,hst,hp,perform,hrw]
  -- The two transactions of the cycle, step by step.
  set s := leased { db := db } { db with cursors := cursors } ⟨w,lease⟩
  have hla : exec ext capability { db := db } (.start w a.now) = .ok s := exec_leased hst
  have hon : OneShard shardOf (.start w a.now) := hshard
  have h₁ := h.step hon trivial trivial hla
  obtain ⟨t,he,ht⟩ := exec_rewound ext { db := db } hp hrw
  have hke : GenesisKept s (.rewind ⟨w,lease⟩ a clock ids) := by
    intro fromHeight toHeight r han hz b hb hbc hbh hbs
    rw [hse.ranges] at han
    cases han
    subst hz
    refine ⟨chain 0,mem_map_of_mem (by simp),hchain.height 0,?_⟩
    exact (hg ⟨b.height,b.hash⟩ ⟨b,hb,hbc,rfl,rfl,hbs⟩ hbh).symm
  have hsame : OneShard shardOf (.rewind ⟨w,lease⟩ a clock ids) := trivial
  have h₂ := h₁.step hsame trivial hke he
  obtain ⟨-,r,height,committedHash,newHash,hp',hro⟩ := exec_rewind h₁.fenced he
  rw [show plan (⟨w,lease⟩ : Call).worker (⟨w,lease⟩ : Call).lease a = _ from hp] at hp'
  cases hp'
  have haf := hro.moved.after
  rw [ht] at haf
  refine ⟨by rw [ho]; rfl,?_,?_,?_⟩
  · rw [ho,← ht]
    exact h₂.bare rfl rfl
  · rw [ho,← ht]
    intro x hx
    exact ((canonical_rewound hro).mp hx).1
  · rw [ho,Settled]
    rw [haf.1,haf.2]
    rcases rewindPoint_attested (⟨w,lease⟩ : Call).lease s.db w.runtimeEvidence hchain hle with
      ⟨-,-,-,hj⟩ | ⟨-,hn⟩ | ⟨hps,hpi⟩
    · exact .inl (.inl hj)
    · exact .inl (.inr (congrArg BlockRef.hash hn))
    · right
      change _ = lease.height
      rw [← hr] at hpi
      omega

def rewindBound (depth overlap : ℕ) : ℕ := (depth+overlap - 1) / overlap

lemma lt_rewindBound {overlap n : ℕ} (ho : 1 ≤ overlap) (h : overlap*n < depth) :
    n+1 ≤ rewindBound depth overlap := by
  rw [rewindBound,Nat.le_div_iff_mul_le (by omega),Nat.add_mul,Nat.mul_comm]
  omega

/-- Up to `depth` blocks below the start, the history agrees with the chain. -/
def Agreed (db : Database) (chainID : String) (chain : ℕ → Block) (start depth : ℕ) : Prop :=
  ∀ x, Canonical db.chainBlocks chainID x → x.height+depth ≤ start →
    x.hash = (chain x.height).hash

/-- Every cycle so far went down by the overlap, or the cursor is settled. -/
structure Tracking (capability : String) (shardOf : String → String)
    (heightOf : (chainID hash : String) → ℕ) (w : Worker) (chain : ℕ → Block) (start depth : ℕ)
    (s : Scan) : Prop where
  scannable : Scannable capability shardOf heightOf { db := s.db }
  progress : (Settled capability w chain s.db ∧ s.rewinds ≤ rewindBound depth w.overlap) ∨
    (¬Settled capability w chain s.db ∧ s.rewinds = s.polls ∧
      (row capability s.db.cursors w.chainID w.shard).height+w.overlap*s.polls ≤ start ∧
      Agreed s.db w.chainID chain start depth)

lemma Tracking.lt_bound {s : Scan} (hshard : w.shard = shardOf w.chainID) (ho : 1 ≤ w.overlap)
    (h : Scannable capability shardOf heightOf { db := s.db })
    (hof : ¬Settled capability w chain s.db)
    (hd : (row capability s.db.cursors w.chainID w.shard).height+w.overlap*s.polls ≤ start)
    (hag : Agreed s.db w.chainID chain start depth) : s.polls+1 ≤ rewindBound depth w.overlap := by
  obtain ⟨hne,-,hcu⟩ := h.cursor hshard hof
  apply lt_rewindBound ho
  by_contra hde
  exact hne (hag _ hcu (by dsimp only; omega))

lemma Tracking.step (hr : Ready w) (hshard : w.shard = shardOf w.chainID)
    (hchain : FixedChain w.chainID chain events) (hhe : ∀ k, heightOf w.chainID (chain k).hash = k)
    (hde : depth ≤ start) (hfi : start+w.rangeSize < 2^64) {s t : Scan} {x : Turn}
    (h : Tracking capability shardOf heightOf w chain start depth s)
    (hx : Polled capability w chain events s x) (he : turn ext capability w s x = .ok t) :
    Tracking capability shardOf heightOf w chain start depth t := by
  have ho := hr.configured.2.1
  cases x with
  | other f =>
    cases he
    exact ⟨h.scannable.bare rfl rfl,h.progress⟩
  | runOnce a clock ids =>
    cases he
    rcases h.progress with ⟨hse,hco⟩ | ⟨hof,hal,hd,hag⟩
    · obtain ⟨hsc,hke,hn⟩ := settled_cycle ext clock ids hshard hchain
        hhe hx.2.2.1.ranges h.scannable hse
      refine ⟨hsc,.inl ⟨hke,?_⟩⟩
      rw [hn]
      exact hco
    · have hbo := Tracking.lt_bound hshard ho h.scannable hof hd hag
      have hg : ∀ x, Canonical s.db.chainBlocks w.chainID x → x.height = 0 →
          x.hash = (chain 0).hash := by
        intro x hx hz
        have hon := hag x hx (by omega)
        rwa [hz] at hon
      obtain ⟨hro,hsc,hsu,hst⟩ := unsettled_cycle ext hr hshard
        hchain h.scannable hof (by omega) hg hx
      refine ⟨hsc,?_⟩
      rw [hro]
      by_cases hse : Settled capability w chain (runOnce ext capability w s.db a clock ids).db
      · left
        refine ⟨hse,?_⟩
        change s.rewinds+1 ≤ _
        omega
      · right
        refine ⟨hse,?_,?_,fun x hx => hag x (hsu x hx)⟩
        · change s.rewinds+1 = s.polls+1
          omega
        · rcases hst with hj | hl
          · exact absurd hj hse
          · change (row capability (runOnce ext capability w s.db a clock ids).db.cursors w.chainID
              w.shard).height+w.overlap*(s.polls+1) ≤ start
            rw [Nat.mul_add]
            omega

end

section
variable {as : List Action}

lemma scannable_fresh (h : Fresh s) : Scannable capability shardOf heightOf s := by
  refine ⟨h.fenced,h.history,?_,?_⟩
  · simp [h.chainBlocks]
  · intro chainID _ x hx
    exact absurd hx h.not_canonical

/-- After any orderly history of one shard for each chain, every committed rewind leaves one
canonical block at a height and none above the cursor, lowers the cursor or starts over, and
leaves no transfer of a replaced block that counts. While the providers then serve one fixed
chain that shares everything with the history but the uppermost `depth` blocks, no more cycles
rewind the cursor than overlaps cover the depth, and after as many cycles it is on the chain or
at a height without recorded history. -/
theorem rewinds_repair_and_converge (hfresh : Fresh s)
    (hruns : Along (exec ext capability) (Orderly shardOf heightOf) s as) :
    let t := run (exec ext capability) s as
    (∀ call answers clock ids u, Orderly shardOf heightOf t (.rewind call answers clock ids) →
      exec ext capability t (.rewind call answers clock ids) = .ok u →
      Repaired capability shardOf t u call.lease.chainID) ∧
    ∀ w chain events depth turns, Ready w → w.shard = shardOf w.chainID →
      FixedChain w.chainID chain events → (∀ k, heightOf w.chainID (chain k).hash = k) →
      depth ≤ (chainCursor capability shardOf t w.chainID).height →
      (chainCursor capability shardOf t w.chainID).height+w.rangeSize < 2^64 →
      Agreed t.db w.chainID chain (chainCursor capability shardOf t w.chainID).height depth →
      Along (turn ext capability w) (Polled capability w chain events) { db := t.db } turns →
      let u := run (turn ext capability w) { db := t.db } turns
      let cursor := row capability u.db.cursors w.chainID w.shard
      u.rewinds ≤ rewindBound depth w.overlap ∧
        (rewindBound depth w.overlap ≤ u.polls → cursor.hash = (chain cursor.height).hash ∨
          ∀ x, Canonical u.db.chainBlocks w.chainID x → x.height ≠ cursor.height) := by
  intro t
  have hsc :=
    run_invariant (fun s a t hs ha he => hs.step ha.oneShard ha.heightsFixed ha.genesisKept he)
      (scannable_fresh hfresh) hruns
  constructor
  · intro call answers clock ids u ha he
    exact exec_repaired hsc.fenced hsc.history ha he
  · intro w chain events depth turns hr hshard hchain hh hd hfi hag htu u
      cursor
    have hst : Tracking capability shardOf heightOf w chain
        (chainCursor capability shardOf t w.chainID).height depth { db := t.db } := by
      refine ⟨hsc.bare rfl rfl,?_⟩
      by_cases hse : Settled capability w chain t.db
      · exact .inl ⟨hse,Nat.zero_le _⟩
      · refine .inr ⟨hse,rfl,?_,hag⟩
        unfold chainCursor
        rw [← hshard]
        simp
    have htr : Tracking capability shardOf heightOf w chain
        (chainCursor capability shardOf t w.chainID).height depth u :=
      run_invariant (fun s x t hs hx he => hs.step hr hshard hchain hh hd hfi hx
        he) hst htu
    rcases htr.progress with ⟨hse,hco⟩ | ⟨ho,hal,hdo,hag'⟩
    · refine ⟨hco,fun _ => ?_⟩
      rcases hse with hon | hn
      · exact .inl hon
      · right
        have hf := htr.scannable.vacant.free w.chainID
        unfold chainCursor at hf
        rw [← hshard] at hf
        exact hf hn
    · have hbo := Tracking.lt_bound hshard hr.configured.2.1 htr.scannable ho hdo
        hag'
      exact ⟨by omega,fun hm => absurd hm (by omega)⟩

end

def branchHash (branch : Char) (height : ℕ) : String :=
  String.ofList (branch::List.replicate height '|')

def sampleBranch (fork height : ℕ) : Block :=
  ⟨height,branchHash (if height ≤ fork then 'a' else 'b') height,
    branchHash (if height ≤ fork+1 then 'a' else 'b') (height - 1),1000+height⟩

lemma sampleBranch_fixed (fork : ℕ) : FixedChain "tron" (sampleBranch fork) [] := by
  refine ⟨fun k => rfl,fun k => ⟨?_,?_⟩,fun k => ?_,by simp⟩
  · simp [sampleBranch,branchHash]
  · simp only [sampleBranch]
    omega
  · simp [sampleBranch]

def sampleHeightOf (_ hash : String) : ℕ := hash.length - 1

lemma sampleHeightOf_branch (fork k : ℕ) : sampleHeightOf "tron" (sampleBranch fork k).hash = k := by
  simp [sampleHeightOf,sampleBranch,branchHash]

/-- Blocks 1 to 4 and, overlapping them, 3 to 6 of the branch `a` are committed. -/
def branchScan : List Action :=
  [.start sampleScanner minute,
    .commit (sampleCall 2 0 "") (sampleAnswer 4 1 4 ((List.range' 1 4).map (sampleBranch 6))) minute,
    .start sampleScanner minute,.commit (sampleCall 4 4 (branchHash 'a' 4))
      (sampleAnswer 6 3 6 ((List.range' 3 4).map (sampleBranch 6))) minute]

lemma branchScan_orderly : Along (exec Workers.sampleExternals "transfers")
    (Orderly (fun _ => "shard") sampleHeightOf) sampleFresh branchScan := by
  refine ⟨rfl,?_,rfl,?_,trivial⟩ <;>
  · rintro _ _ _ ⟨⟩
    decide +kernel

abbrev branchDB : Database := (sampleRun branchScan).db

/-- The providers serve the chain whose blocks from height 5 on are on the branch `b`. -/
def branchAnswers : Answers where
  now := minute
  heads := .ok [⟨"first","tron","genesis",6,minute⟩]
  scanRange := fun fromHeight toHeight => .ok (served (sampleBranch 4) [] fromHeight toHeight)

lemma sampleReorgIDs_drawn (tag : String) : Drawn (Workers.sampleReorgIDs tag) := by
  refine ⟨?_,?_,?_,?_⟩
  · exact fun x y h => String.append_right_inj _ |>.mp h
  · exact fun x y h => String.append_right_inj _ |>.mp h
  · exact fun x y h => String.append_right_inj _ |>.mp h
  · intro x y h
    have hst := congrArg (fun text : String => text.toList.take 2) h
    simp [Workers.sampleReorgIDs] at hst

lemma branchScan_polled : Polled "transfers" sampleScanner (sampleBranch 4) []
    { db := branchDB }
    (.runOnce branchAnswers minute (Workers.sampleReorgIDs "")) := by
  have hh : (row "transfers" branchDB.cursors "tron" "shard").height = 6 := by
    decide +kernel
  have hi : branchDB.intents = [] :=
    length_eq_zero_iff.mp (by decide +kernel)
  have ho : branchDB.observations = [] :=
    length_eq_zero_iff.mp (by decide +kernel)
  have htr : branchDB.transferEvents = [] :=
    length_eq_zero_iff.mp (by decide +kernel)
  have hor : orphans branchDB "tron" (sampleBranch 4) = [] := by
    simp [orphans,htr]
  refine ⟨.inl (by decide +kernel),by decide,⟨⟨_,6,rfl,by decide +kernel,hh.le⟩,
    fun _ _ => rfl,rfl⟩,by simp [htr],?_⟩
  rw [show sampleScanner.chainID = "tron" from rfl,hor]
  refine ⟨⟨?_,?_,?_,?_,?_⟩,sampleReorgIDs_drawn "",?_,?_,?_,?_,?_,?_,?_⟩ <;>
    simp [hi,ho]

theorem rewinds_repair_and_converge_sample :
    let u := run (turn Workers.sampleExternals "transfers" sampleScanner)
      { db := branchDB }
      [.runOnce branchAnswers minute (Workers.sampleReorgIDs "")]
    u.rewinds ≤ 1 ∧ ((row "transfers" u.db.cursors "tron" "shard").hash =
        (sampleBranch 4 (row "transfers" u.db.cursors "tron" "shard").height).hash ∨
      ∀ x, Canonical u.db.chainBlocks "tron" x →
        x.height ≠ (row "transfers" u.db.cursors "tron" "shard").height) := by
  have hh : (chainCursor "transfers" (fun _ => "shard") (sampleRun branchScan) "tron").height =
      6 := by decide +kernel
  have hbl : ∀ b ∈ branchDB.chainBlocks, b.height+2 ≤ 6 →
      b.hash = (sampleBranch 4 b.height).hash := by decide +kernel
  have hag : Agreed branchDB "tron" (sampleBranch 4)
      (chainCursor "transfers" (fun _ => "shard") (sampleRun branchScan) "tron").height 2 := by
    rintro x ⟨b,hb,-,hbh,hba,-⟩ hbe
    rw [← hbh,← hba]
    exact hbl b hb (by omega)
  have hr : Ready sampleScanner := by
    refine ⟨?_,?_,?_,?_⟩ <;> decide
  have htu : Along (turn Workers.sampleExternals "transfers" sampleScanner)
      (Polled "transfers" sampleScanner (sampleBranch 4) []) { db := branchDB }
      [.runOnce branchAnswers minute (Workers.sampleReorgIDs "")] := ⟨branchScan_polled,trivial⟩
  obtain ⟨hco,hse⟩ := (rewinds_repair_and_converge sampleFresh_fresh branchScan_orderly).2
    sampleScanner (sampleBranch 4) [] 2 _ hr rfl (sampleBranch_fixed 4)
    (sampleHeightOf_branch 4) (hh.ge.trans' (by decide)) (by
      decide) hag htu
  exact ⟨hco,hse (by decide +kernel)⟩

section
variable {x : Action} {a : Answers}

def Skips (a : Answers) (height : ℕ) : Prop :=
  ∀ fromHeight toHeight r, a.scanRange fromHeight toHeight = .ok r → ∀ b ∈ r.blocks,
    b.height ≠ height

lemma plan_skipped (ho : 1 ≤ w.overlap) (hha : lease.hash ≠ "")
    (hsk : Skips a lease.height) (r : ScannedRange) :
    plan w lease a ≠ .commit r ∧ ∀ height committedHash newHash,
      plan w lease a ≠ .rewind r height committedHash newHash := by
  constructor
  · intro hp
    obtain ⟨safe,-,hj⟩ := plan_eq_judge hp (.inl ⟨r,rfl⟩)
    obtain ⟨⟨scanned,han,rfl⟩,-,hac⟩ := judge_commit hj
    obtain ⟨b,hb,hh⟩ := (hac.cursor ho hha).1
    exact hsk _ _ _ han b hb hh
  · intro height committedHash newHash hp
    obtain ⟨safe,-,hj⟩ := plan_eq_judge hp (.inr ⟨r,height,committedHash,newHash,rfl⟩)
    obtain ⟨⟨scanned,han,rfl⟩,-,hre⟩ := judge_rewind hj
    obtain ⟨-,-,-,-,b,hb,hh,-⟩ := validateRange_eq_reorg hre
    exact hsk _ _ _ han b hb hh

structure Stalled (capability : String) (w : Worker) (db : Database) (s : World) : Prop where
  fenced : Fenced capability s
  height : (row capability s.db.cursors w.chainID w.shard).height =
    (row capability db.cursors w.chainID w.shard).height
  hash : (row capability s.db.cursors w.chainID w.shard).hash =
    (row capability db.cursors w.chainID w.shard).hash
  chainBlocks : s.db.chainBlocks = db.chainBlocks

lemma Stalled.step (ho : 1 ≤ w.overlap)
    (hha : (row capability db.cursors w.chainID w.shard).hash ≠ "")
    (hsk : Skips a (row capability db.cursors w.chainID w.shard).height)
    (h : Stalled capability w db s) (hcy : CycleOf w a x)
    (he : exec ext capability s x = .ok t) : Stalled capability w db t := by
  obtain ⟨hf,hsp⟩ := exec_stepped h.fenced he
  cases hsp with
  | quiet hq =>
    obtain ⟨hhe,hsame⟩ := hq.stays w.chainID w.shard
    exact ⟨hf,hhe.trans h.height,hsame.trans h.hash, hq.chainBlocks.trans h.chainBlocks⟩
  | extended call answers clock hp het =>
    obtain ⟨rfl,rfl⟩ := hcy
    have hl := h.fenced.calls call (running_of_commit he)
    obtain ⟨hbe,hbh⟩ := het.moved.before
    rw [hl.chainID,hl.shard,h.height] at hbe
    rw [hl.chainID,hl.shard,h.hash] at hbh
    exact absurd hp (plan_skipped ho (hbh ▸ hha) (hbe ▸ hsk) _).1
  | rewound call answers clock ids hp hro =>
    obtain ⟨rfl,rfl⟩ := hcy
    have hl := h.fenced.calls call (running_of_rewind he)
    obtain ⟨hbe,hbh⟩ := hro.moved.before
    rw [hl.chainID,hl.shard,h.height] at hbe
    rw [hl.chainID,hl.shard,h.hash] at hbh
    exact absurd hp ((plan_skipped ho (hbh ▸ hha) (hbe ▸ hsk) _).2 _ _ _)

lemma Stalled.bare {db' : Database} (h : Stalled capability w db s) (hdb : db' = s.db) :
    Stalled capability w db { db := db' } := by
  subst hdb
  exact ⟨⟨h.fenced.keys,by simp,h.fenced.fits⟩,h.height,h.hash,h.chainBlocks⟩

lemma stalled_run (ho : 1 ≤ w.overlap)
    (hh : (row capability db.cursors w.chainID w.shard).hash ≠ "")
    (hsk : Skips a (row capability db.cursors w.chainID w.shard).height)
    (hf : Fenced capability { db := db }) (clock : ℤ) (ids : ReorgIDs) (n : ℕ) :
    Stalled capability w db { db := (run (turn ext capability w) { db := db }
      (List.replicate n (.runOnce a clock ids))).db } := by
  apply run_invariant (P := fun u : Scan => Stalled capability w db { db := u.db })
    (C := fun _ x => x = .runOnce a clock ids)
  · rintro u x v hu rfl he
    cases he
    obtain ⟨t,ht,hdb⟩ := runOnce_invariant ext clock ids
      (fun s x t hs hx he => Stalled.step ho hh hsk hs hx he) hu
    exact ht.bare hdb.symm
  · exact ⟨hf,rfl,rfl,rfl⟩
  · exact along_of_forall fun x hx _ => eq_of_mem_replicate hx

end

/-- The providers serve a sparse chain that leaves the branch `a` after height 4 and has no block
at height 6. -/
def skippingAnswers : Answers where
  now := minute
  heads := .ok [⟨"first","tron","genesis",8,minute⟩]
  scanRange := fun fromHeight toHeight => .ok {
    fromHeight, toHeight, events := [], sparseBlocks := true
    blocks := (((List.range' fromHeight (toHeight - fromHeight+1)).filter (· ≠ 6)).map
      (sampleBranch 4)).map fun b =>
        if b.height = 7 then { b with parentHash := branchHash 'b' 5 } else b }

/-- The committed block 6 was replaced by a skipped slot. The range is well formed, but a cursor
without a block at its height is reported as a gap and not as a reorganization: however many
cycles follow, the cursor stays on the block that is not on the chain. -/
theorem skipped_slot_never_rewound :
    (∀ r, skippingAnswers.scanRange 5 8 = .ok r → validateShape r 5 8 = .ok ()) ∧ ∀ n : ℕ,
      let cycles := List.replicate n (.runOnce skippingAnswers minute (Workers.sampleReorgIDs ""))
      let u := run (turn Workers.sampleExternals "transfers" sampleScanner)
        { db := branchDB } cycles
      (row "transfers" u.db.cursors "tron" "shard").height = 6 ∧
        (row "transfers" u.db.cursors "tron" "shard").hash = branchHash 'a' 6 ∧
        Canonical u.db.chainBlocks "tron" ⟨6,branchHash 'a' 6⟩ ∧ Skips skippingAnswers 6 := by
  have hh : (row "transfers" branchDB.cursors "tron" "shard").height = 6 := by
    decide +kernel
  have hha : (row "transfers" branchDB.cursors "tron" "shard").hash =
      branchHash 'a' 6 := by decide +kernel
  have hsk : Skips skippingAnswers 6 := by
    rintro fromHeight toHeight _ ⟨⟩ b hb hb6
    simp only [map_map,mem_map,mem_filter,Function.comp_apply, decide_eq_true_eq] at hb
    obtain ⟨k,⟨-,hk⟩,rfl⟩ := hb
    split_ifs at hb6 <;> exact hk hb6
  have hsc :=
    run_invariant (fun s a t hs ha he => hs.step ha.oneShard ha.heightsFixed ha.genesisKept he)
      (scannable_fresh sampleFresh_fresh) branchScan_orderly
  have hca : agrees branchDB "tron" ⟨6,branchHash 'a' 6⟩ := by
    decide +kernel
  constructor
  · rintro _ ⟨⟩
    decide +kernel
  · intro n cycles u
    have hst : Stalled "transfers" sampleScanner branchDB { db := u.db } :=
      stalled_run (by decide) (by
        decide) (by
        exact hsk) (hsc.bare rfl rfl).fenced minute (Workers.sampleReorgIDs "") n
    refine ⟨hst.height.trans hh,hst.hash.trans hha,?_,hsk⟩
    rw [hst.chainBlocks]
    exact hca

end Ocrypt.RewindDepth
