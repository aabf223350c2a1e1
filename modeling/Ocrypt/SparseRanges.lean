import Ocrypt.ScanCycles

/-! The ranges of sources that leave out blocks: the checkpoint of a source without an address to
watch, and the range of the deposits that an indexer names. -/
namespace Ocrypt.SparseRanges
open Domain Fallible Scanner RangeChecks ScanWorker ScanCycles List

/-- The start of the range, the cursor as the source works it out from there, and the end. -/
def idleHeights (overlap fromHeight toHeight : ℕ) : List ℕ :=
  let cursorHeight := min (uint64 (fromHeight+overlap - 1)) toHeight
  fromHeight::((if cursorHeight ≠ fromHeight then [cursorHeight] else []) ++
    if toHeight ≠ cursorHeight then [toHeight] else [])

variable (chain : ℕ → Block)

/-- `EVMSource.scanWatchedRange` without a watched address, for a node with the blocks `chain`. -/
def evmIdleCheckpoint (overlap head fromHeight toHeight : ℕ) : Except String ScannedRange := do
  require (fromHeight ≤ toHeight ∧ toHeight - fromHeight ≤ 2047) "range must contain 1..2048 blocks"
  require (toHeight ≤ head) "range exceeds finalized head"
  pure ⟨fromHeight,toHeight,(idleHeights overlap fromHeight toHeight).map chain,[],[],true,false,
    true⟩

/-- Transactions of an Aptos ledger as blocks. Only neighbours are linked. -/
def versionBlocks (chain : ℕ → Block) : Option Block → List ℕ → List Block
  | _, [] => []
  | previous, height::rest =>
    let parent := previous.filter fun p => height = p.height+1
    let b : Block := ⟨height,(chain height).hash,(parent.map (·.hash)).getD "",(chain height).time⟩
    b::versionBlocks chain (some b) rest

def aptosIdleCheckpoint (overlap fromHeight toHeight : ℕ) : ScannedRange :=
  ⟨fromHeight,toHeight,versionBlocks chain none (idleHeights overlap fromHeight toHeight),[],[],
    true,false,true⟩

structure AptosDepositCandidate where
  (version eventIndex : ℕ)
  (owner assetID : String)
  amount : ℕ

/-- Field separators as in the source. -/
def AptosDepositCandidate.key (c : AptosDepositCandidate) : String :=
  "\x1f".intercalate [toString c.version,toString c.eventIndex,c.owner,c.assetID,toString c.amount]

/-- A full node, with the transfers that `normalizeAptosTransaction` finds at each version, and the
rows of the indexer. -/
structure AptosNode where
  chain : ℕ → Block
  head : ℕ
  transfers : ℕ → Except String (List TransferEvent)
  candidates : List AptosDepositCandidate
  canonicalAptosAddress : String → Except String String
  parseUint : String → Except String ℕ

structure AptosSource where
  watched : List String
  overlap : ℕ

namespace AptosSource
variable (s : AptosSource) (node : AptosNode)

/-- The proof of one transfer of the full node: a deposit of a watched owner takes its candidate. -/
def prove (height : ℕ) (state : List AptosDepositCandidate × List TransferEvent)
    (e : TransferEvent) : Except String (List AptosDepositCandidate × List TransferEvent) := do
  let owner ← node.canonicalAptosAddress e.identity.toAddress
  if owner ∉ s.watched then pure state
  else
    let index ← node.parseUint (Matching.trimPrefix e.identity.eventIndex "event:")
    let proof : AptosDepositCandidate := ⟨height,index,owner,e.identity.assetID,e.amount.n⟩
    require (∃ c ∈ state.1, c.key = proof.key)
      "full-node deposit was omitted or changed by the indexer"
    pure (state.1.filter (·.key ≠ proof.key),state.2 ++
      [{ e with blockHeight := height, blockHash := (node.chain height).hash }])

def indexedHeights (candidates : List AptosDepositCandidate) (fromHeight toHeight : ℕ) : List ℕ :=
  let cursorHeight := uint64 (fromHeight+s.overlap - 1)
  (fromHeight::toHeight::((if cursorHeight ≤ toHeight then [cursorHeight] else []) ++
    candidates.map (·.version))).dedup.insertionSort (· ≤ ·)

def scanIndexedRange (fromHeight toHeight : ℕ) : Except String ScannedRange := do
  require (∀ c ∈ node.candidates, fromHeight ≤ c.version ∧ c.version ≤ toHeight)
    "invalid indexed deposit evidence"
  let heights := s.indexedHeights node.candidates fromHeight toHeight
  let proven ← traverse (fun state height => do
    traverse (s.prove node height) (← node.transfers height) state) heights (node.candidates,[])
  require (proven.1 = []) "indexed deposit was not proven by the full node"
  pure ⟨fromHeight,toHeight,versionBlocks node.chain none heights,proven.2,[],true,false,false⟩

def scanRange (fromHeight toHeight : ℕ) : Except String ScannedRange := do
  require (fromHeight ≤ toHeight ∧ toHeight - fromHeight ≤ 511)
    "range must contain 1..512 ledger versions"
  require (toHeight ≤ node.head) "range exceeds committed ledger version"
  if s.watched = [] then
    pure (aptosIdleCheckpoint node.chain s.overlap fromHeight toHeight)
  else s.scanIndexedRange node fromHeight toHeight

end AptosSource

/-- Rising heights of a range, its end among them. -/
structure Spans (heights : List ℕ) (first last : ℕ) : Prop where
  sorted : heights.IsChain (· < ·)
  inside : ∀ k ∈ heights, first ≤ k ∧ k ≤ last
  ends : last ∈ heights

/-- A range with the blocks that the chain has at some heights. -/
structure Excerpt (heights : List ℕ) (r : ScannedRange) (first last : ℕ) :
    Prop where
  shape : r.fromHeight = first ∧ r.toHeight ≤ last ∧ r.sparseBlocks = true
  idle : r.idleCheckpoint = true → r.indexedCheckpoint = false ∧ r.events = [] ∧ heights.length ≤ 3
  spans : Spans heights first r.toHeight
  listed : r.blocks.map (·.height) = heights
  copied : ∀ b ∈ r.blocks, b.hash = (chain b.height).hash ∧ b.time = (chain b.height).time
  named : ∀ k ∈ heights, (chain k).hash ≠ "" ∧ (chain k).time ≠ 0
  bound : ∀ e ∈ r.events, e.blockHeight ∈ heights ∧ e.blockHash = (chain e.blockHeight).hash

section
variable {chain : ℕ → Block} {heights : List ℕ} {r : ScannedRange} {first last overlap : ℕ}
  {lease : Lease}

lemma Spans.getLast (h : Spans heights first last) : heights.getLast? = some last := by
  have hne := ne_nil_of_mem h.ends
  have hp := isChain_iff_pairwise.mp h.sorted
  have hle := hp.imp (le_of_lt) |>.rel_getLast h.ends
  rw [getLast?_eq_getLast_of_ne_nil hne]
  exact congrArg some (le_antisymm (h.inside _ (getLast_mem hne)).2 hle)

lemma Spans.contiguous_iff (h : Spans heights first last) (hf : first ∈ heights) :
    heights.IsChain (fun p k => k = p+1) ↔ ∀ k, first ≤ k → k ≤ last → k ∈ heights := by
  constructor
  · intro hch k hl
    induction k, hl using Nat.le_induction with
    | base => exact fun _ => hf
    | succ k hl ih =>
      -- The height `k` is not the last one, and the one after it is its successor.
      intro hu
      obtain ⟨before,rest,hsp⟩ := append_of_mem (ih (by omega))
      cases rest with
      | nil =>
        have hla := h.getLast
        simp only [hsp,getLast?_concat,Option.some.injEq] at hla
        omega
      | cons b rest =>
        rw [hsp] at hch
        have hn : b = k+1 := (isChain_cons_cons.mp (isChain_append.mp hch).2.1).1
        simp [hsp,hn]
  · intro hal
    have hr : heights = List.range' first (last - first+1) := by
      apply (isChain_iff_pairwise.mp h.sorted).eq_of_mem_iff pairwise_lt_range'
      intro k
      rw [mem_range'_1]
      have := h.inside first hf
      exact ⟨fun hk => ⟨(h.inside k hk).1,by have := h.inside k hk; omega⟩,
        fun hk => hal k hk.1 (by omega)⟩
    rw [hr]
    exact isChain_range' first _ 1

lemma Excerpt.hashAt (h : Excerpt chain heights r first last) {k : ℕ} (hk : k ∈ heights) :
    r.hashAt? k = some (chain k).hash := by
  unfold ScannedRange.hashAt?
  cases hf : r.blocks.reverse.find? (·.height = k) with
  | none =>
    rw [← h.listed] at hk
    obtain ⟨b,hb,hhe⟩ := mem_map.mp hk
    have hn := find?_eq_none.mp hf b (mem_reverse.mpr hb)
    simp [hhe] at hn
  | some b =>
    obtain ⟨hb,hhe⟩ := Table.mem_of_find? hf
    rw [Option.map_some,(h.copied b (mem_reverse.mp hb)).1,hhe]

/-- What is left to check of an excerpt: the links between its blocks, and that it has the cursor. -/
lemma Excerpt.accepted_iff (h : Excerpt chain heights r first last) (ho : 1 ≤ overlap)
    (hcu : lease.hash = (chain lease.height).hash) (hha : lease.hash ≠ "") :
    validateRange r first last lease overlap = .ok () ↔
      r.blocks.IsChain (Follows r) ∧ lease.height ∈ heights := by
  rw [validateRange_eq_ok]
  constructor
  · intro hac
    refine ⟨hac.linked,?_⟩
    rw [← h.listed]
    exact mem_map.mpr (hac.cursor ho hha).1
  · rintro ⟨hli,hf⟩
    obtain ⟨hfi,hla,hsp⟩ := h.shape
    have hlo := (h.spans.inside _ h.spans.ends).1
    have hg := h.spans.getLast
    rw [← h.listed,getLast?_map,Option.map_eq_some_iff] at hg
    refine ⟨⟨?_,?_,?_,.inl hsp,?_,hli,hg,?_⟩,?_⟩
    · intro hi
      obtain ⟨-,hev,hl⟩ := h.idle hi
      rw [← h.listed,length_map] at hl
      exact ⟨hsp,hev,hl⟩
    · intro hin
      refine ⟨hsp,Bool.eq_false_iff.mpr fun hi => ?_⟩
      simp [(h.idle hi).1] at hin
    · obtain ⟨b,hb,-⟩ := hg
      exact ⟨hfi,hla,hlo,ne_nil_of_mem (mem_of_getLast? hb)⟩
    · intro j b hb
      have hm := mem_of_getElem? hb
      have hhe : b.height ∈ heights := h.listed ▸ mem_map_of_mem hm
      rw [Placed,(h.copied b hm).1,(h.copied b hm).2]
      exact ⟨.inl hsp,(h.spans.inside _ hhe).1,(h.spans.inside _ hhe).2,h.named _ hhe⟩
    · intro e he
      rw [h.hashAt (h.bound e he).1,(h.bound e he).2]
    · refine fun _ _ => ⟨?_,fun b hb hhe => ?_⟩
      · rw [← h.listed] at hf
        exact mem_map.mp hf
      · rw [(h.copied b hb).1,hhe,hcu]

/-- A block comes after one that is lower, as its child if they are neighbours. -/
def Listed (p b : Block) : Prop :=
  p.height < b.height ∧ b.parentHash = if b.height = p.height+1 then p.hash else ""

lemma map_height_versionBlocks (previous : Option Block) (heights : List ℕ) :
    (versionBlocks chain previous heights).map (·.height) = heights := by
  induction heights generalizing previous with
  | nil => rfl
  | cons height rest ih => simp [versionBlocks,ih]

lemma mem_versionBlocks {previous : Option Block} {b : Block}
    (hb : b ∈ versionBlocks chain previous heights) :
    b.hash = (chain b.height).hash ∧ b.time = (chain b.height).time := by
  induction heights generalizing previous with
  | nil => cases hb
  | cons height rest ih =>
    rcases mem_cons.mp hb with rfl | hb
    · exact ⟨rfl,rfl⟩
    · exact ih hb

lemma isChain_versionBlocks {previous : Option Block}
    (h : ((previous.map (·.height)).toList ++ heights).IsChain (· < ·)) :
    (previous.toList ++ versionBlocks chain previous heights).IsChain Listed := by
  induction heights generalizing previous with
  | nil => cases previous <;> simp [versionBlocks]
  | cons height rest ih =>
    have hr (b : Block) (hb : b.height = height) (hch : (height::rest).IsChain (· < ·)) :=
      @ih (some b) (by subst hb; exact hch)
    cases previous with
    | none => exact hr _ rfl h
    | some p =>
      obtain ⟨hlt,hch⟩ := isChain_cons_cons.mp h
      refine isChain_cons_cons.mpr ⟨⟨hlt,?_⟩,hr _ rfl hch⟩
      by_cases hn : height = p.height+1 <;> simp [Option.filter,hn]

lemma follows_of_gaps {p b : Block} (hlt : p.height < b.height)
    (hg : r.idleCheckpoint = true ∨ r.indexedCheckpoint = true)
    (hch : b.height = p.height+1 → b.parentHash = p.hash) : Follows r p b := by
  refine ⟨hlt,?_⟩
  by_cases hn : b.height = p.height+1
  · exact .inl (hch hn)
  · exact .inr ⟨hg,by omega⟩

end

/-- A worker whose cursor is on the chain asks for the range from `first` to `last`. -/
structure Requested (w : Worker) (lease : Lease) (chain : ℕ → Block) (safe first last : ℕ) :
    Prop where
  config : w.Configured
  fits : w.rangeSize < 2^64 ∧ lease.height < 2^64
  reached : lease.height ≤ safe
  hash : lease.hash ≠ ""
  cursor : lease.hash = (chain lease.height).hash
  start : first = w.scanFrom lease
  stop : last = w.scanTo first safe

/-- The range reaches an overlap below the cursor, or the cursor is one of its ends. -/
abbrev CursorListed (w : Worker) (lease : Lease) (last : ℕ) : Prop :=
  w.overlap ≤ uint64 (lease.height+1) ∨ lease.height = 0 ∨ lease.height = last

section
variable {w : Worker} {lease : Lease} {chain : ℕ → Block} {safe first last : ℕ} {r : ScannedRange}
  {node : AptosNode} {s : AptosSource} {heights : List ℕ}

lemma Requested.start_le (h : Requested w lease chain safe first last) :
    first ≤ lease.height ∧ first ≤ uint64 (first+w.overlap - 1) := by
  obtain ⟨⟨-,ho,hsi⟩,hf,-,hha,-,rfl,-⟩ := h
  unfold Worker.scanFrom uint64
  rw [if_pos ⟨ho,hha⟩]
  split_ifs <;> omega

lemma Requested.cursor_iff (h : Requested w lease chain safe first last) (hle : first ≤ last) :
    lease.height = first ∨ lease.height = min (uint64 (first+w.overlap - 1)) last ∨
      lease.height = last ↔ CursorListed w lease last := by
  obtain ⟨⟨-,ho,hsi⟩,hfi,hsa,hha,-,hf,hl⟩ := h
  unfold Worker.scanFrom at hf
  unfold Worker.scanTo at hl
  unfold CursorListed uint64 at *
  rw [if_pos ⟨ho,hha⟩] at hf
  split_ifs at hf <;> omega

lemma mem_idleHeights {overlap k : ℕ} : k ∈ idleHeights overlap first last ↔
    k = first ∨ k = min (uint64 (first+overlap - 1)) last ∨ k = last := by
  unfold idleHeights
  generalize min (uint64 (first+overlap - 1)) last = c
  by_cases hf : c = first <;> by_cases hl : last = c <;> simp [hf]
  all_goals omega

lemma spans_idleHeights {overlap : ℕ} (hcu : first ≤ uint64 (first+overlap - 1))
    (hle : first ≤ last) : Spans (idleHeights overlap first last) first last ∧
      (idleHeights overlap first last).length ≤ 3 := by
  have hlo := le_min hcu hle
  have hu := min_le_right (uint64 (first+overlap - 1)) last
  have hi (k : ℕ) (hk : k ∈ idleHeights overlap first last) : first ≤ k ∧ k ≤ last := by
    have := mem_idleHeights.mp hk
    omega
  have hso : (idleHeights overlap first last).IsChain (· < ·) ∧
      (idleHeights overlap first last).length ≤ 3 := by
    unfold idleHeights
    generalize min (uint64 (first+overlap - 1)) last = c at *
    by_cases hf : c = first <;> by_cases hl : last = c <;> by_cases he : last = first <;>
      simp [hf,hl,he] <;> omega
  exact ⟨⟨hso.1,hi,mem_idleHeights.mpr (.inr (.inr rfl))⟩,hso.2⟩

/-- Of the checkpoints that a worker without an address to watch is given, those are accepted in
which the source finds the cursor. -/
theorem idle_checkpoint_accepted_iff {head : ℕ} (h : Requested w lease chain safe first last)
    (hchain : FixedChain w.chainID chain []) (hledger : node.chain = chain)
    (hr : evmIdleCheckpoint chain w.overlap head first last = .ok r ∨
      (AptosSource.mk [] w.overlap).scanRange node first last = .ok r) :
    validateRange r first last lease w.overlap = .ok () ↔ CursorListed w lease last := by
  have hle : first ≤ last := by
    rcases hr with hr | hr <;>
    · simp only [evmIdleCheckpoint,AptosSource.scanRange,do_eq_ok,exists_require] at hr
      exact hr.1.1
  obtain ⟨hsp,hln⟩ := spans_idleHeights h.start_le.2 hle
  have hac {bs : List Block}
      (hl : bs.map (·.height) = idleHeights w.overlap first last)
      (hco : ∀ b ∈ bs, b.hash = (chain b.height).hash ∧ b.time = (chain b.height).time)
      (hli : bs.IsChain (Follows ⟨first,last,bs,[],[],true,false,true⟩)) :
      validateRange ⟨first,last,bs,[],[],true,false,true⟩ first last lease w.overlap = .ok () ↔
        CursorListed w lease last := by
    have he : Excerpt chain _ ⟨first,last,bs,[],[],true,false,true⟩ first last :=
      ⟨⟨rfl,le_rfl,rfl⟩,fun _ => ⟨rfl,rfl,hln⟩,hsp,hl,hco,
        fun k _ => hchain.named k,nofun⟩
    rw [he.accepted_iff h.config.2.1 h.cursor h.hash,and_iff_right hli,mem_idleHeights,
      h.cursor_iff hle]
  rcases hr with hr | hr
  · simp only [evmIdleCheckpoint,do_eq_ok,exists_require,pure_eq_ok] at hr
    obtain ⟨-,-,rfl⟩ := hr
    refine hac (by simp [Function.comp_def,hchain.height]) (fun b hb => ?_) ?_
    · obtain ⟨k,-,rfl⟩ := mem_map.mp hb
      rw [hchain.height]
      exact ⟨rfl,rfl⟩
    · refine (isChain_map _).mpr (hsp.sorted.imp fun p k hlt => ?_)
      refine follows_of_gaps ?_ (.inl rfl) ?_ <;> simp [hchain.height]
      · exact hlt
      · rintro rfl
        exact hchain.linked p
  · simp only [AptosSource.scanRange,do_eq_ok,exists_require,if_true,pure_eq_ok, hledger] at hr
    obtain ⟨-,-,rfl⟩ := hr
    refine hac (map_height_versionBlocks _ _) (fun b => mem_versionBlocks) ?_
    have hl := @isChain_versionBlocks chain _ none hsp.sorted
    exact hl.imp fun p b hb =>
      follows_of_gaps hb.1 (.inl rfl) fun hn => by rw [hb.2,if_pos hn]

def sampleLease (height : ℕ) : Lease :=
  ⟨"tron","shard","scanner",height,(sampleChain height).hash,1⟩

def sampleNode : AptosNode :=
  ⟨sampleChain,100,fun _ => .ok [],[],.ok,fun _ => .ok 0⟩

lemma sampleChain_fixed : FixedChain "tron" sampleChain [] := by
  refine ⟨fun _ => rfl,fun k => ⟨?_,?_⟩,fun _ => rfl,nofun⟩
  · simp [sampleChain]
  · simp only [sampleChain]
    omega

lemma sampleRequest : Requested sampleWorker (sampleLease 7) sampleChain 100 5 9 :=
  ⟨by decide,by decide,by decide,by decide,rfl,by decide,by decide⟩

theorem idle_checkpoint_sample : ∃ r, evmIdleCheckpoint sampleChain 3 100 5 9 = .ok r ∧
    validateRange r 5 9 (sampleLease 7) 3 = .ok () := by
  obtain ⟨r,hr⟩ : ∃ r, evmIdleCheckpoint sampleChain sampleWorker.overlap 100 5 9 = .ok r := ⟨_,rfl⟩
  exact ⟨r,hr,(idle_checkpoint_accepted_iff sampleRequest sampleChain_fixed
    (show sampleNode.chain = sampleChain from rfl) (.inl hr)).mpr (by decide)⟩

/-- Block 1 of a chain whose first blocks are scanned again with an overlap of three is in neither
checkpoint. -/
theorem early_cursor_unlisted : Requested sampleWorker (sampleLease 1) sampleChain 100 0 4 ∧
      FixedChain sampleWorker.chainID sampleChain [] ∧
      (∃ r, evmIdleCheckpoint sampleChain 3 100 0 4 = .ok r ∧
        validateRange r 0 4 (sampleLease 1) 3 =
          .error (.invalid "overlap does not include committed cursor")) ∧
      ∃ r, (AptosSource.mk [] 3).scanRange sampleNode 0 4 = .ok r ∧
        validateRange r 0 4 (sampleLease 1) 3 =
          .error (.invalid "overlap does not include committed cursor") :=
  ⟨⟨by decide,by decide,by decide,by decide,rfl,by decide,by decide⟩,sampleChain_fixed,
    ⟨_,rfl,by decide +kernel⟩,⟨_,rfl,by decide +kernel⟩⟩

lemma mem_indexedHeights {s : AptosSource} {cs : List AptosDepositCandidate} {k : ℕ} :
    k ∈ s.indexedHeights cs first last ↔ k = first ∨ k = last ∨
      (k = uint64 (first+s.overlap - 1) ∧ k ≤ last) ∨ ∃ c ∈ cs, c.version = k := by
  rw [AptosSource.indexedHeights,mem_insertionSort,mem_dedup]
  split_ifs with hcu
  · simp only [mem_cons,singleton_append,mem_map]
    have : k = uint64 (first+s.overlap - 1) ↔ k = uint64 (first+s.overlap - 1) ∧ k ≤ last := by
      grind
    rw [← this]
  · have : ¬(k = uint64 (first+s.overlap - 1) ∧ k ≤ last) := by grind
    simp [this]

lemma spans_indexedHeights {cs : List AptosDepositCandidate}
    (hst : first ≤ uint64 (first+s.overlap - 1)) (hle : first ≤ last)
    (hcs : ∀ c ∈ cs, first ≤ c.version ∧ c.version ≤ last) :
    Spans (s.indexedHeights cs first last) first last := by
  refine ⟨isChain_iff_pairwise.mpr ?_,?_,mem_indexedHeights.mpr (.inr (.inl rfl))⟩
  · have hn : (s.indexedHeights cs first last).Nodup :=
      (perm_insertionSort _ _).nodup_iff.mpr (nodup_dedup _)
    exact (hn.and (pairwise_insertionSort (· ≤ ·) _)).imp fun hk => lt_of_le_of_ne hk.2 hk.1
  · intro k hk
    rcases mem_indexedHeights.mp hk with rfl | rfl | ⟨rfl,hu⟩ | ⟨c,hc,rfl⟩
    · exact ⟨le_rfl,hle⟩
    · exact ⟨hle,le_rfl⟩
    · exact ⟨hst,hu⟩
    · exact hcs c hc

lemma linked_versionBlocks_iff (hna : ∀ k, (chain k).hash ≠ "")
    (hso : heights.IsChain (· < ·)) (hid : r.idleCheckpoint = false)
    (hin : r.indexedCheckpoint = false) : (versionBlocks chain none heights).IsChain (Follows r) ↔
      heights.IsChain fun p k => k = p+1 := by
  have hl : (versionBlocks chain none heights).IsChain Listed :=
    @isChain_versionBlocks chain heights none hso
  conv_rhs => rw [← @map_height_versionBlocks chain none heights,isChain_map]
  simp only [isChain_iff_getElem] at hl ⊢
  refine forall_congr' fun i => forall_congr' fun hi => ?_
  have hp := (mem_versionBlocks (getElem_mem (Nat.lt_of_succ_lt hi))).1.trans_ne (hna _)
  rw [Follows,gapAllowed,(hl i hi).2,hid,hin]
  split_ifs with hn
  · simp [hn]
  · simpa [hn] using fun _ => hp.symm

lemma proven_bound
    {before proven : List AptosDepositCandidate × List TransferEvent} (hbe : before.2 = [])
    (h : traverse (fun state height => do
      traverse (s.prove node height) (← node.transfers height) state) heights before = .ok proven) :
    ∀ e ∈ proven.2, e.blockHeight ∈ heights ∧ e.blockHash = (node.chain e.blockHeight).hash := by
  let Bound (state : List AptosDepositCandidate × List TransferEvent) : Prop :=
    ∀ e ∈ state.2, e.blockHeight ∈ heights ∧ e.blockHash = (node.chain e.blockHeight).hash
  refine traverse_invariant (P := Bound) ?_ (by simp [Bound,hbe]) h
  intro state height next hhe hk hst
  obtain ⟨transfers,-,hst⟩ := do_eq_ok.mp hst
  refine traverse_invariant (P := Bound) ?_ hk hst
  intro state e next _ hk hst
  simp only [AptosSource.prove,do_ok] at hst
  obtain ⟨owner,-,hst⟩ := hst
  split_ifs at hst
  · simp only [do_ok] at hst
    obtain ⟨index,-,-,rfl⟩ := hst
    simp only [Bound,mem_append,mem_singleton]
    rintro e (he | rfl)
    · exact hk e he
    · exact ⟨hhe,rfl⟩
  · cases hst
    exact hk

/-- An indexed range has no checkpoint flag, so that it must name every version. -/
theorem indexed_range_accepted_iff (h : Requested w lease node.chain safe first last)
    (hledger : FixedChain w.chainID node.chain []) (hoverlap : s.overlap = w.overlap)
    (hwatched : s.watched ≠ []) (hr : s.scanRange node first last = .ok r) :
    validateRange r first last lease w.overlap = .ok () ↔ lease.height ≤ last ∧
      ∀ k, first ≤ k → k ≤ last → k = first ∨ k = last ∨
        (k = uint64 (first+w.overlap - 1) ∧ k ≤ last) ∨ ∃ c ∈ node.candidates, c.version = k := by
  simp only [AptosSource.scanRange,AptosSource.scanIndexedRange,do_eq_ok,exists_require,
    if_neg hwatched,pure_eq_ok] at hr
  obtain ⟨⟨hle,-⟩,-,hcs,proven,hp,-,rfl⟩ := hr
  have hsp := spans_indexedHeights (hoverlap ▸ h.start_le.2) hle hcs
  have hm := @mem_indexedHeights first last s node.candidates
  rw [hoverlap] at hm
  generalize s.indexedHeights node.candidates first last = heights at *
  have he : Excerpt node.chain heights ⟨first,last,versionBlocks node.chain none heights,
      proven.2,[],true,false,false⟩ first last :=
    ⟨⟨rfl,le_rfl,rfl⟩,by simp,hsp,map_height_versionBlocks none _,fun b => mem_versionBlocks,
      fun k _ => hledger.named k,proven_bound rfl hp⟩
  rw [he.accepted_iff h.config.2.1 h.cursor h.hash,
    linked_versionBlocks_iff (fun k => (hledger.named k).1) hsp.sorted rfl rfl,
    hsp.contiguous_iff (hm.mpr (.inl rfl))]
  simp only [← hm]
  constructor
  · exact fun hal => ⟨(hsp.inside _ hal.2).2,hal.1⟩
  · exact fun hal => ⟨hal.2,hal.2 _ h.start_le.1 hal.1⟩

def sampleDeposit : AptosNode :=
  { sampleNode with
    transfers := fun k => .ok (if k = 6 then [Workers.samplePayment "deposit" 70 "block-6"] else [])
    candidates := [⟨6,0,"TMerchant","usdt",70⟩] }

theorem indexed_range_sample :
    ∃ r, (AptosSource.mk ["TMerchant"] 3).scanRange sampleDeposit 5 7 = .ok r ∧
      r.events.map (·.blockHeight) = [6] ∧ validateRange r 5 7 (sampleLease 7) 3 = .ok () := by
  have hre : Requested sampleWorker (sampleLease 7) sampleDeposit.chain 7 5 7 :=
    ⟨by decide,by decide,by decide,by decide,rfl,by decide,by decide⟩
  obtain ⟨r,hr,he⟩ : ∃ r, (AptosSource.mk ["TMerchant"] 3).scanRange sampleDeposit 5 7 = .ok r ∧
      r.events.map (·.blockHeight) = [6] := by decide +kernel
  refine ⟨r,hr,he,(indexed_range_accepted_iff hre sampleChain_fixed rfl (by simp) hr).mpr ?_⟩
  refine ⟨le_rfl,fun k _ _ => ?_⟩
  have hc : (∃ c ∈ sampleDeposit.candidates, c.version = k) ↔ 6 = k := by simp [sampleDeposit]
  rw [hc]
  omega

/-- Versions 5, 7 and 9 are scanned, of which 7 is not linked to 5. -/
theorem quiet_versions_unlinked : Requested sampleWorker (sampleLease 7) sampleNode.chain 100 5 9 ∧
      FixedChain sampleWorker.chainID sampleNode.chain [] ∧
      ∃ r, (AptosSource.mk ["owner"] 3).scanRange sampleNode 5 9 = .ok r ∧
        validateRange r 5 9 (sampleLease 7) 3 = .error (.invalid "parent hash mismatch at 7") :=
  ⟨sampleRequest,sampleChain_fixed,_,rfl,by decide +kernel⟩

end

end Ocrypt.SparseRanges
