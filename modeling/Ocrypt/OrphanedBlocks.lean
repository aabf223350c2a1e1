import Ocrypt.IngestEffects
import Ocrypt.ReorgEffects
import Ocrypt.Workers

/-! Money is credited from canonical blocks only. The scanner, the settlement workers and the
reorg worker write the blocks, the stored transfers and the matches independently; a history
variable remembers the blocks that a rewind marked until the scanner admits them again. -/
namespace Ocrypt.OrphanedBlocks
open Domain Fallible Table Store Settlement Scanner Reorg Transactions Workers IngestEffects
  ReorgEffects List

def blockKey (b : ChainBlock) : String × String := (b.chainID,b.hash)

def blockOf (t : TransferEvent) : String × String := (t.identity.chainID,t.blockHash)

/-- The world with the blocks that a rewind marked and no commit admitted since. -/
structure Traced where
  world : World
  orphaned : List (String × String) := []

variable (db : Database) (g : Traced)

abbrev MarkedReorged (t : TransferEvent) : Prop :=
  ∃ b ∈ db.chainBlocks, blockKey b = blockOf t ∧ b.status = .reorged

def orphanedAfter : Action → List (String × String)
  | .rewindReorg lease batch _ _ =>
    g.orphaned ++ (replacedHashes g.world.db lease batch).map fun hash => (lease.chainID,hash)
  | .commitRange lease batch =>
    g.orphaned.filter fun k => ¬(k.1 = lease.chainID ∧ ∃ b ∈ batch.blocks, b.hash = k.2)
  | _ => g.orphaned

def execTraced (ext : Externals) (capability : String) (g : Traced) (a : Action) :
    Except Failure Traced :=
  (exec ext capability g.world a).map fun world => ⟨world,orphanedAfter g a⟩

/-- The batch brings another block at the height of the block of the transfer. -/
abbrev Displaces (lease : Lease) (batch : RangeBatch) (t : TransferEvent) : Prop :=
  t.identity.chainID = lease.chainID ∧ ∃ block ∈ batch.blocks, block.hash ≠ t.blockHash ∧
    ((∃ b ∈ db.chainBlocks, blockKey b = blockOf t ∧ b.height = block.height) ∨
      ∃ c ∈ batch.blocks, c.hash = t.blockHash ∧ c.height = block.height)

/-- A transfer is reported in a block that still counts: a new transfer in a block that the
scanner holds as canonical, a stored one that was not orphaned in a block that is not marked. -/
abbrev ReportsCanonical (event : TransferEvent) : Prop :=
  event.status ≠ .reorged ∧
    ((∀ s ∈ db.transferEvents, s.identity ≠ event.identity) → canonicalInclusion db event) ∧
    ∀ s ∈ db.transferEvents, s.identity = event.identity → s.status ≠ .reorged →
      ¬MarkedReorged db s

abbrev KeepsSettled (lease : Lease) (batch : RangeBatch) : Prop :=
  ∀ m ∈ db.paymentMatches, m.state = .finalized → ∀ t ∈ db.transferEvents,
    m.source = .transfer t.id → ¬Displaces db lease batch t

/-- The steps of the scanner, of the settlement workers and of the reorg worker, under the
conditions that the transactions themselves do not check. -/
def Sound : Action → Prop
  | .tick _ | .acquire .. | .release _ | .rewindReorg .. | .claimTransfers ..
  | .completeTransfer .. | .retryTransfer .. => True
  | .commitRange lease batch => KeepsSettled g.world.db lease batch
  | .ingestAndSettle event _ _ => ReportsCanonical g.world.db event
  | _ => False

instance (g : Traced) (a : Action) : Decidable (Sound g a) := by
  induction a using Workers.Action.casesOn <;> dsimp only [Sound] <;> infer_instance

/-- What every reachable state keeps: keys are unique, orphaned blocks are marked, a transfer
that is not marked stands in a block that is not orphaned, and the transfer of a final match is
neither marked nor in a marked block. -/
structure Safe : Prop where
  blocks : (g.world.db.chainBlocks.map blockKey).Nodup
  ids : (g.world.db.transferEvents.map (·.id)).Nodup
  linked : ∀ m ∈ g.world.db.paymentMatches, ∀ e, m.source = .transfer e →
    ∃ t ∈ g.world.db.transferEvents, t.id = e
  marked : ∀ b ∈ g.world.db.chainBlocks, blockKey b ∈ g.orphaned → b.status = .reorged
  live : ∀ t ∈ g.world.db.transferEvents, t.status ≠ .reorged → blockOf t ∉ g.orphaned
  settled : ∀ m ∈ g.world.db.paymentMatches, m.state = .finalized →
    ∀ t ∈ g.world.db.transferEvents, m.source = .transfer t.id →
      t.status ≠ .reorged ∧ ¬MarkedReorged g.world.db t

section
variable {lease : Lease} {batch : RangeBatch} {clock : ℤ} {rows : List ChainBlock}

/-- What displacing, confirming and admitting a block keep holds of the rows after a commit. -/
theorem committed_rows (lease : Lease) (batch : RangeBatch) (clock : ℤ) (rows : List ChainBlock)
    {P : ChainBlock → Prop} (hro : ∀ b ∈ rows, P b)
    (hdi : ∀ block ∈ batch.blocks, ∀ b, P b → b.chainID = lease.chainID → b.height = block.height →
      b.hash ≠ block.hash → P { b with status := .reorged, lastObservedAt := clock })
    (hr : ∀ block ∈ batch.blocks, ∀ b, P b → b.chainID = lease.chainID → b.hash = block.hash →
      P { b with
        lastObservedAt := clock, status := if b.status = .finalized then .finalized else .safe })
    (hn : ∀ block ∈ batch.blocks, P ⟨lease.chainID,block.height,block.hash,.safe,clock⟩) :
    ∀ b ∈ pruneBlocks lease.chainID batch.toHeight
      (batch.blocks.foldl (commitBlock lease.chainID clock) rows), P b := by
  have hf : ∀ b ∈ batch.blocks.foldl (commitBlock lease.chainID clock) rows, P b := by
    refine foldlRecOn batch.blocks (commitBlock lease.chainID clock)
      (motive := fun rows => ∀ b ∈ rows, P b) hro ?_
    intro rows hro block hbl
    have hd : ∀ b ∈ displaceBlocks lease.chainID clock block rows, P b :=
      forall_update hro fun b _ hb hP => hdi block hbl b hP hb.1 hb.2.1 hb.2.2.1
    unfold commitBlock admitBlock
    split
    · exact forall_update hd fun b _ hb hP => hr block hbl b hP hb.1 hb.2
    · exact forall_snoc hd (hn block hbl)
  intro b hb
  unfold pruneBlocks at hb
  split at hb
  · exact hf b (mem_filter.mp hb).1
  · exact hf b hb

lemma commitBlock_keys {block : BlockRef} (h : (rows.map blockKey).Nodup) :
    ((commitBlock lease.chainID clock rows block).map blockKey).Nodup := by
  have hd : (displaceBlocks lease.chainID clock block rows).map blockKey =
      rows.map blockKey := map_update fun _ _ _ => rfl
  unfold commitBlock admitBlock
  split
  · convert h using 1
    rw [← hd]
    exact map_update fun _ _ _ => rfl
  · rename_i hn
    rw [← hd] at h
    exact nodup_map_append h fun b hb hke => hn ⟨b,hb,(Prod.mk.inj hke).1,(Prod.mk.inj hke).2⟩

lemma committed_keys (h : (rows.map blockKey).Nodup) : ((pruneBlocks lease.chainID batch.toHeight
      (batch.blocks.foldl (commitBlock lease.chainID clock) rows)).map blockKey).Nodup := by
  have hf := foldlRecOn batch.blocks (commitBlock lease.chainID clock)
      (motive := fun rows => (rows.map blockKey).Nodup) h fun _ hr _ _ => commitBlock_keys hr
  unfold pruneBlocks
  split
  · exact hf.sublist (filter_sublist.map blockKey)
  · exact hf

end

section
variable {ext : Externals} {capability : String} {g : Traced} {db' : Database} {batch : RangeBatch}
  {lease : Lease} {event : TransferEvent} {ids : IngestIDs}

lemma Safe.of_same (h : Safe g) {world : World}
    (hbl : world.db.chainBlocks = g.world.db.chainBlocks)
    (he : world.db.transferEvents = g.world.db.transferEvents)
    (hm : world.db.paymentMatches = g.world.db.paymentMatches) : Safe ⟨world,g.orphaned⟩ := by
  refine ⟨?_,?_,?_,?_,?_,?_⟩ <;> simp only [MarkedReorged,hbl,he,hm]
  · exact h.blocks
  · exact h.ids
  · exact h.linked
  · exact h.marked
  · exact h.live
  · exact h.settled

/-- A committed range admits its blocks and marks their rivals, none of which a final match
counts on. -/
theorem Safe.commit (h : Safe g) (hkp : KeepsSettled g.world.db lease batch)
    (he : commitRange ext capability g.world.db lease batch g.world.clock = .ok db') :
    Safe ⟨{ g.world with db := db' },orphanedAfter g (.commitRange lease batch)⟩ := by
  obtain ⟨queue,cursors,rfl⟩ := commitRange_frame he
  have hsu : ∀ k, k ∈ orphanedAfter g (.commitRange lease batch) → k ∈ g.orphaned ∧
      (k.1 = lease.chainID → ∀ b ∈ batch.blocks, b.hash ≠ k.2) := by
    intro k hk
    obtain ⟨hk,hn⟩ := mem_filter.mp hk
    refine ⟨hk,fun hch b hb hha => ?_⟩
    simp only [decide_eq_true_eq,not_and,not_exists] at hn
    exact hn hch b hb hha
  refine ⟨committed_keys h.blocks,h.ids,h.linked,?_,?_,?_⟩
  · -- A block that stays orphaned is none of the batch, so no row of it is admitted.
    refine committed_rows lease batch g.world.clock g.world.db.chainBlocks (P := fun b =>
      blockKey b ∈ orphanedAfter g (.commitRange lease batch) → b.status = .reorged)
      (fun b hb hk => h.marked b hb (hsu _ hk).1) ?_ ?_ ?_
    · intro block _ b _ _ _ _ _
      rfl
    · intro block hbl b _ hch hha hk
      exact absurd hha.symm ((hsu _ hk).2 hch block hbl)
    · intro block hbl hk
      exact absurd rfl ((hsu _ hk).2 rfl block hbl)
  · intro t ht hst hk
    exact h.live t ht hst (hsu _ hk).1
  · intro m hm hf t ht hso
    have hold := h.settled m hm hf t ht hso
    refine ⟨hold.1,?_⟩
    have hke := hkp m hm hf t ht hso
    -- The rows of the block are not marked and no block of the batch has their height.
    have hro := committed_rows lease batch g.world.clock g.world.db.chainBlocks
      (P := fun b => blockKey b = blockOf t → b.status ≠ .reorged ∧
        (b.chainID = lease.chainID → ∀ block ∈ batch.blocks, block.hash ≠ b.hash →
          b.height ≠ block.height)) ?_ ?_ ?_ ?_
    · rintro ⟨b,hb,hky,hr⟩
      exact (hro b hb hky).1 hr
    · intro b hb hky
      refine ⟨fun hr => hold.2 ⟨b,hb,hky,hr⟩,fun hch block hbl hha hhe => ?_⟩
      have hky' := Prod.mk.inj hky
      refine hke ⟨hky'.1.symm.trans hch,block,hbl,?_,.inl ⟨b,hb,hky,hhe⟩⟩
      rw [← hky'.2]
      exact hha
    · intro block hbl b hP hch hhe hha hky
      exact absurd hhe ((hP hky).2 hch block hbl hha.symm)
    · intro block _ b hP _ _ hky
      refine ⟨?_,(hP hky).2⟩
      split <;> simp
    · intro block hbl hky
      refine ⟨by simp,fun _ other ho hha hhe => ?_⟩
      have hky' := Prod.mk.inj hky
      refine hke ⟨hky'.1.symm,other,ho,?_,.inr ⟨block,hbl,hky'.2,hhe⟩⟩
      rw [← hky'.2]
      exact hha

theorem mem_replacedEvents {db : Database} {t : TransferEvent}
    (ht : t ∈ db.transferEvents) (hst : t.status ≠ .reorged)
    (hch : t.identity.chainID = lease.chainID) (hh : t.blockHash ∈ replacedHashes db lease batch) :
    t.id ∈ replacedEvents db lease batch := by
  refine mem_map.mpr ⟨t,mem_filter.mpr ⟨ht,?_⟩,rfl⟩
  simp only [decide_eq_true_eq]
  exact ⟨hch,hh,hst⟩

section
variable (h : Safe g)
include h

/-- A rewind marks blocks together with all transfers in them and reverses their matches. -/
theorem Safe.rewind {incidentHeight : ℕ} {ids : ReorgIDs}
    (hee : rewindReorg capability g.world.db lease batch incidentHeight g.world.clock ids = .ok db') :
    Safe ⟨{ g.world with db := db' },
      orphanedAfter g (.rewindReorg lease batch incidentHeight ids)⟩ := by
  obtain ⟨d,cursors,ho,rfl⟩ := rewindReorg_effect hee
  obtain ⟨has,hma⟩ := traverse_orphaned ho
  have hbl := has.chainBlocks
  have hev := has.transferEvents
  -- A transfer that is not marked afterwards was stored so, outside the replaced blocks.
  have hke : ∀ t ∈ (markReorged d (replacedEvents g.world.db lease batch)).transferEvents,
      t.status ≠ .reorged → t ∈ g.world.db.transferEvents ∧
        t.id ∉ replacedEvents g.world.db lease batch := by
    intro t ht hst
    rcases mem_update_iff.mp ht with ⟨hold,hn⟩ | ⟨t₀,-,-,rfl⟩
    · rw [hev] at hold
      exact ⟨hold,fun hme => hn ⟨hme,hst⟩⟩
    · exact absurd rfl hst
  refine ⟨?_,?_,?_,?_,?_,?_⟩
  · show (d.chainBlocks.map blockKey).Nodup
    rw [hbl]
    convert h.blocks using 1
    exact map_update fun _ _ _ => rfl
  · convert h.ids using 1
    rw [← hev]
    exact map_update fun _ _ _ => rfl
  · intro m hm e hso
    have hold : ∃ m₀ ∈ g.world.db.paymentMatches, m₀.source = .transfer e := by
      rcases hma m hm with ⟨hm₀,-⟩ | ⟨m₀,hm₀,rfl⟩
      · exact ⟨m,hm₀,hso⟩
      · exact ⟨m₀,hm₀,hso⟩
    obtain ⟨m₀,hm₀,hso₀⟩ := hold
    obtain ⟨t,ht,hid⟩ := h.linked m₀ hm₀ e hso₀
    rw [← hev] at ht
    refine ⟨_,mem_update.mpr ⟨t,ht,rfl⟩,?_⟩
    split <;> exact hid
  · intro b hb hk
    change b ∈ d.chainBlocks at hb
    rw [hbl] at hb
    rcases mem_update_iff.mp hb with ⟨hold,hn⟩ | ⟨b₀,-,-,rfl⟩
    · rcases mem_append.mp hk with hk | hk
      · exact h.marked b hold hk
      · -- The key is that of a replaced row, and there is only one row of that key.
        obtain ⟨hash,hha,hky⟩ := mem_map.mp hk
        obtain ⟨b₁,hb₁,rfl⟩ := mem_map.mp hha
        obtain ⟨hb₁,hr⟩ := mem_filter.mp hb₁
        simp only [decide_eq_true_eq] at hr
        have hsame : b₁ = b := by
          refine inj_on_of_nodup_map h.blocks hb₁ hold ?_
          rw [← hky,blockKey,hr.1]
        rw [hsame] at hr
        exact absurd hr hn
    · rfl
  · intro t ht hst hk
    obtain ⟨hold,hou⟩ := hke t ht hst
    rcases mem_append.mp hk with hk | hk
    · exact h.live t hold hst hk
    · obtain ⟨hash,hha,hky⟩ := mem_map.mp hk
      obtain ⟨hch,rfl⟩ := Prod.mk.inj hky
      exact hou (mem_replacedEvents hold hst hch.symm hha)
  · intro m hm hf t ht hso
    rcases hma m hm with ⟨hm₀,hre⟩ | ⟨m₀,-,rfl⟩
    swap
    · cases hf
    have hou : t.id ∉ replacedEvents g.world.db lease batch := by
      intro hme
      have := hre t.id hme hso
      rw [hf] at this
      cases this
    have hold : t ∈ g.world.db.transferEvents := by
      rcases mem_update_iff.mp ht with ⟨hold,-⟩ | ⟨t₀,-,hme,rfl⟩
      · rwa [hev] at hold
      · exact absurd hme.1 hou
    obtain ⟨hst,hu⟩ := h.settled m hm₀ hf t hold hso
    refine ⟨hst,?_⟩
    rintro ⟨b,hb,hky,hro⟩
    change b ∈ d.chainBlocks at hb
    rw [hbl] at hb
    rcases mem_update_iff.mp hb with ⟨hb,-⟩ | ⟨b₀,hb₀,hr,rfl⟩
    · exact hu ⟨b,hb,hky,hro⟩
    · obtain ⟨hch,hha⟩ := Prod.mk.inj hky
      refine hou (mem_replacedEvents hold hst (hch.symm.trans hr.1) ?_)
      refine mem_map.mpr ⟨b₀,mem_filter.mpr ⟨hb₀,?_⟩,hha⟩
      simpa using hr

lemma Safe.canonical (hbl : canonicalInclusion g.world.db event) :
    ¬MarkedReorged g.world.db event ∧ blockOf event ∉ g.orphaned := by
  obtain ⟨b,hb,hch,-,hha,hst⟩ := hbl
  have hke : blockKey b = blockOf event := Prod.ext hch hha
  have hca : b.status ≠ .reorged := by
    intro hr
    simp [hr] at hst
  constructor
  · rintro ⟨b',hb',hke',hr⟩
    have hsame : b' = b := inj_on_of_nodup_map h.blocks hb' hb (hke'.trans hke.symm)
    exact hca (hsame ▸ hr)
  · intro hk
    exact hca (h.marked b hb (hke ▸ hk))

/-- Rewriting transfers is safe if none is moved into an orphaned block. -/
theorem Safe.rewriteTransfer {p : TransferEvent → Prop} [DecidablePred p]
    {f : TransferEvent → TransferEvent} (hid : ∀ t, (f t).id = t.id)
    (hl : ∀ t ∈ g.world.db.transferEvents, p t → blockOf (f t) ∉ g.orphaned)
    (hse : ∀ t ∈ g.world.db.transferEvents, p t → t.status ≠ .reorged →
      (f t).status ≠ .reorged ∧ blockOf (f t) = blockOf t) : Safe ⟨{ g.world with
      db := { g.world.db with transferEvents := update p f g.world.db.transferEvents } },
      g.orphaned⟩ := by
  refine ⟨h.blocks,?_,?_,h.marked,?_,?_⟩
  · convert h.ids using 1
    exact map_update fun t _ _ => hid t
  · intro m hm e hso
    obtain ⟨t,ht,rfl⟩ := h.linked m hm e hso
    refine ⟨_,mem_update.mpr ⟨t,ht,rfl⟩,?_⟩
    split
    · exact hid t
    · rfl
  · intro t ht hst
    rcases mem_update_iff.mp ht with ⟨hold,-⟩ | ⟨t₀,ht₀,hp,rfl⟩
    · exact h.live t hold hst
    · exact hl t₀ ht₀ hp
  · intro m hm hfi t ht hso
    rcases mem_update_iff.mp ht with ⟨hold,-⟩ | ⟨t₀,ht₀,hp,rfl⟩
    · exact h.settled m hm hfi t hold hso
    · rw [hid] at hso
      obtain ⟨hst,hu⟩ := h.settled m hm hfi t₀ ht₀ hso
      obtain ⟨hst',hbl⟩ := hse t₀ ht₀ hp hst
      refine ⟨hst',?_⟩
      unfold MarkedReorged
      rw [hbl]
      exact hu

lemma Safe.record {c : Canonical} (hro : ReportsCanonical g.world.db event)
    (hre : Recorded g.world.db event c) : Safe ⟨{ g.world with db := c.db },g.orphaned⟩ ∧
      (c.actionable = true → ¬MarkedReorged g.world.db c.event) := by
  obtain ⟨hst,hn,hsr⟩ := hro
  cases hre with
  | stored hie hid hpo =>
    obtain ⟨hu,ho⟩ := h.canonical (hn hie)
    refine ⟨⟨h.blocks,?_,?_,h.marked,?_,?_⟩,fun _ => hu⟩
    · exact nodup_map_append h.ids hid
    · intro m hm e hso
      obtain ⟨t,ht,hid⟩ := h.linked m hm e hso
      exact ⟨t,mem_append_left _ ht,hid⟩
    · exact forall_snoc h.live fun _ => ho
    · refine fun m hm hfi => forall_snoc (h.settled m hm hfi) fun hso => ?_
      -- No match refers to an identifier that is not stored yet.
      obtain ⟨t₀,ht₀,hid₀⟩ := h.linked m hm _ hso
      exact absurd hid₀ (hid t₀ ht₀)
  | reincluded s hs hfa hr hfn hbl =>
    obtain ⟨hu,ho⟩ := h.canonical hbl
    have hch : ∀ t ∈ g.world.db.transferEvents, t.id = s.id →
        blockOf (withInclusion event t) = blockOf event := by
      intro t ht hid
      have hsame : t = s := inj_on_of_nodup_map h.ids ht hs hid
      have hie := congrArg TransferFacts.identity hfa
      rw [hsame]
      exact Prod.ext (congrArg EventIdentity.chainID hie) rfl
    refine ⟨h.rewriteTransfer (fun _ => rfl) ?_ ?_,fun _ => hu⟩
    · intro t ht hp
      rw [hch t ht hp.1]
      exact ho
    · intro t _ hp hl
      exact absurd hp.2 hl
  | progressed s merged hs hr hfa hin hrp =>
    have hsame : blockOf merged = blockOf s := Prod.ext
      (congrArg (fun f => f.identity.chainID) hfa).symm (congrArg Inclusion.blockHash hin).symm
    refine ⟨h.rewriteTransfer (fun _ => rfl) ?_ ?_,fun _ => ?_⟩
    · intro t ht hp
      exact h.live t ht (hp.2.1 ▸ hr)
    · intro t _ _ _
      exact ⟨hst,rfl⟩
    · unfold MarkedReorged
      rw [hsame]
      exact hsr s hs hrp.1 hr
  | unchanged merged => exact ⟨h,fun hac => by cases hac⟩

lemma Safe.classify
    (hro : ∃ t ∈ g.world.db.transferEvents, factsOf t = factsOf event ∧ inclusionOf t = inclusionOf event)
    (hu : ¬MarkedReorged g.world.db event) {outcome : SettlementOutcome}
    (hcl : Classified ext g.world.db event ids db' outcome) :
    Safe ⟨{ g.world with db := db' },g.orphaned⟩ := by
  cases hcl with
  | noted _ _ observations observationEvents callbacks intents hk
  | unmatched _ _ rows candidates callbacks intents jobs hk hr =>
    exact h.of_same rfl rfl rfl
  | settled candidate _ hfi hca hfn hse =>
    obtain ⟨observations,observationEvents,callbacks,providerOrders,rfl⟩ := hse.result
    obtain ⟨row,hro,hfa,hi⟩ := hro
    have hid : row.id = event.id := congrArg TransferFacts.id hfa
    refine ⟨h.blocks,h.ids,?_,h.marked,h.live,?_⟩
    · exact forall_snoc h.linked
        fun e hso => ⟨row,hro,hid.trans (MatchSource.transfer.inj hso)⟩
    · refine forall_snoc h.settled fun _ t ht hso => ?_
      have hsame : t = row := inj_on_of_nodup_map h.ids ht hro
        ((MatchSource.transfer.inj hso).symm.trans hid.symm)
      have hst : row.status = event.status := congrArg Inclusion.status hi
      have hbl : blockOf row = blockOf event := Prod.ext
        (congrArg (fun f => f.identity.chainID) hfa) (congrArg Inclusion.blockHash hi)
      subst hsame
      constructor
      · rw [hst,hfi]
        decide
      · unfold MarkedReorged
        rw [hbl]
        exact hu

lemma Safe.ingest {now : ℤ} {result : SettlementResult} (hre : ReportsCanonical g.world.db event)
    (he : ingestAndSettle ext g.world.db event now ids = .ok (db',result)) :
    Safe ⟨{ g.world with db := db' },g.orphaned⟩ := by
  obtain ⟨c,hr,-,haf⟩ := ingestAndSettle_effect he
  obtain ⟨hsa,hu⟩ := h.record hre hr
  rcases haf with ⟨hac,hcl⟩ | ⟨-,rfl,-⟩
  · obtain ⟨rows,hf⟩ := hr.frame
    have hsame : ¬MarkedReorged c.db c.event := by
      rw [hf]
      exact hu hac
    exact hsa.classify (hr.row hac) hsame hcl
  · exact hsa

/-- One transaction keeps the final matches out of the orphaned blocks. -/
lemma Safe.step {g' : Traced} {a : Action} (hso : Sound g a)
    (he : execTraced ext capability g a = .ok g') : Safe g' := by
  obtain ⟨w,hw,rfl⟩ := map_eq_ok.mp he
  cases a with
  | tick duration =>
    cases hw
    exact h.of_same rfl rfl rfl
  | acquire chainID shard owner duration =>
    obtain ⟨r,hr,rfl⟩ := map_eq_ok.mp hw
    obtain ⟨cursors,hdb⟩ := acquire_frame hr
    exact h.of_same (by rw [hdb]) (by rw [hdb]) (by rw [hdb])
  | release lease =>
    obtain ⟨d,hd,rfl⟩ := map_eq_ok.mp hw
    obtain ⟨cursors,rfl⟩ := release_frame hd
    exact h.of_same rfl rfl rfl
  | commitRange lease batch =>
    obtain ⟨d,hd,rfl⟩ := map_eq_ok.mp hw
    exact h.commit hso hd
  | rewindReorg lease batch incidentHeight ids =>
    obtain ⟨d,hd,rfl⟩ := map_eq_ok.mp hw
    exact h.rewind hd
  | claimTransfers worker now lease limit token =>
    obtain ⟨r,hr,rfl⟩ := map_eq_ok.mp hw
    obtain ⟨queue,hdb⟩ := claimTransfers_frame hr
    exact h.of_same (by rw [hdb]) (by rw [hdb]) (by rw [hdb])
  | completeTransfer worker eventID claimToken =>
    obtain ⟨d,hd,rfl⟩ := map_eq_ok.mp hw
    obtain ⟨queue,rfl⟩ := completeTransfer_frame hd
    exact h.of_same rfl rfl rfl
  | retryTransfer worker eventID claimToken next deadLetter =>
    obtain ⟨d,hd,rfl⟩ := map_eq_ok.mp hw
    obtain ⟨queue,rfl⟩ := retryTransfer_frame hd
    exact h.of_same rfl rfl rfl
  | ingestAndSettle event now ids =>
    obtain ⟨⟨d,result⟩,hd,rfl⟩ := map_eq_ok.mp hw
    exact h.ingest hso hd
  | enqueueMatching | claimMatching | reconcileMatching | retryMatching | claimResolutions
  | resolve | ingestProviderPayment => exact hso.elim

end

end

structure Unscanned : Prop where
  chainBlocks : db.chainBlocks = []
  transferEvents : db.transferEvents = []
  paymentMatches : db.paymentMatches = []

lemma Unscanned.safe {w : World} (h : Unscanned w.db) : Safe ⟨w,[]⟩ := by
  refine ⟨?_,?_,?_,?_,?_,?_⟩ <;>
    simp [h.chainBlocks,h.transferEvents,h.paymentMatches]

/-- Along every sound run, a final match that is not reversed refers to no transfer of a block
that a rewind marked and no commit admitted again, nor of a block marked in chain_blocks. -/
theorem finalized_match_block_canonical (ext : Externals) (capability : String) (w : World)
    (as : List Action) (hstart : Unscanned w.db)
    (hsound : Along (execTraced ext capability) Sound ⟨w,[]⟩ as) :
    let g := run (execTraced ext capability) ⟨w,[]⟩ as
    ∀ m ∈ g.world.db.paymentMatches, m.state = .finalized →
      ∀ t ∈ g.world.db.transferEvents, m.source = .transfer t.id →
        blockOf t ∉ g.orphaned ∧ ¬MarkedReorged g.world.db t := by
  intro g m hm hf t ht hso
  have hsa : Safe g := run_invariant (fun g a g' h hs he => h.step hs he) hstart.safe hsound
  obtain ⟨hst,hu⟩ := hsa.settled m hm hf t ht hso
  exact ⟨hsa.live t ht hst,hu⟩

def sampleReinclusion : List Action :=
  sampleScanned [samplePayment "paid" 100 "block-7"] ++
    .ingestAndSettle (samplePayment "paid" 100 "block-7") 60 (sampleIngestIDs "1")::sampleReplaced ++
    sampleRescanned [samplePayment "paid" 100 "rival-7"] ++
    [.ingestAndSettle (samplePayment "paid" 100 "rival-7") 70 (sampleIngestIDs "2")]

theorem finalized_match_block_canonical_sample :
    let g := run (execTraced sampleExternals "transfers") ⟨sampleStart,[]⟩ sampleReinclusion
    g.world.db.paymentMatches.map (·.state) = [.reversed,.finalized] ∧
      ∀ m ∈ g.world.db.paymentMatches, m.state = .finalized →
        ∀ t ∈ g.world.db.transferEvents, m.source = .transfer t.id →
          blockOf t ∉ g.orphaned ∧ ¬MarkedReorged g.world.db t :=
  ⟨by decide +kernel,finalized_match_block_canonical sampleExternals "transfers" sampleStart
    sampleReinclusion ⟨rfl,rfl,rfl⟩ (by decide +kernel)⟩

def sampleQueuedOrphan : List Action :=
  sampleScanned [samplePayment "paid" 100 "block-7"] ++
    .claimTransfers "worker" 1 minute 10 id::sampleReplaced ++
    [.ingestAndSettle (samplePayment "paid" 100 "block-7") 60 (sampleIngestIDs "1")]

/-- The rewind finds no stored transfer, so the queued one survives it: the worker settles it
from the block that is marked. -/
theorem finalized_match_block_orphaned :
    let g := run (execTraced sampleExternals "transfers") ⟨sampleStart,[]⟩ sampleQueuedOrphan
    ∃ m ∈ g.world.db.paymentMatches, m.state = .finalized ∧
      ∃ t ∈ g.world.db.transferEvents, m.source = .transfer t.id ∧
        blockOf t ∈ g.orphaned ∧ MarkedReorged g.world.db t := by
  decide +kernel

end Ocrypt.OrphanedBlocks
