import Mathlib.Data.List.TakeWhile
import Ocrypt.ReorgEffects

/-! The canonical blocks of a chain in the shared history: what a committed range and a rewind
make of them, and where a rewind finds its common ancestor. -/
namespace Ocrypt.BlockHistory
open Table Store Scanner Reorg ReorgEffects List

def Canonical (rows : List ChainBlock) (chainID : String) (x : BlockRef) : Prop :=
  ∃ b ∈ rows, b.chainID = chainID ∧ b.height = x.height ∧ b.hash = x.hash ∧ b.status ≠ .reorged

abbrev KeepsHeight (rows : List ChainBlock) (chainID : String) (x : BlockRef) : Prop :=
  ∀ b ∈ rows, b.chainID = chainID → b.hash = x.hash → b.height = x.height

variable {chainID : String} {clock : ℤ} {x : BlockRef} {blocks : List BlockRef}

section
variable {rows : List ChainBlock} {other : String} {block : BlockRef} {b : ChainBlock}
  {toHeight : ℕ}

lemma canonical_orphaned {p : ChainBlock → Prop} [DecidablePred p] {q : Prop}
    (h : ∀ b, b.chainID = chainID → b.height = x.height → b.hash = x.hash → b.status ≠ .reorged →
      (p b ↔ q)) :
    Canonical (update p (fun b => { b with status := .reorged, lastObservedAt := clock }) rows)
      chainID x ↔ Canonical rows chainID x ∧ ¬q := by
  constructor
  · rintro ⟨b,hb,hch,hh,hha,hst⟩
    rcases mem_update_iff.mp hb with ⟨hb,hn⟩ | ⟨b₀,-,-,rfl⟩
    · exact ⟨⟨b,hb,hch,hh,hha,hst⟩,(h b hch hh hha hst).not.mp hn⟩
    · exact absurd rfl hst
  · rintro ⟨⟨b,hb,hch,hh,hha,hst⟩,hn⟩
    exact ⟨b,mem_update_of hb ((h b hch hh hha hst).not.mpr hn),hch,hh,hha,hst⟩

lemma canonical_displaceBlocks : Canonical (displaceBlocks chainID clock block rows) chainID x ↔
    Canonical rows chainID x ∧ ¬(x.height = block.height ∧ x.hash ≠ block.hash) :=
  canonical_orphaned fun b hch hh hha hst => by simp [hch,hh,hha,hst]

lemma canonical_admitBlock (hk : KeepsHeight rows chainID block) :
    Canonical (admitBlock chainID clock block rows) chainID x ↔
      x = block ∨ Canonical rows chainID x := by
  unfold admitBlock
  split_ifs with hso
  · constructor
    · rintro ⟨b,hb,hch,hhe,hha,hst⟩
      rcases mem_update_iff.mp hb with ⟨hb,-⟩ | ⟨b₀,hb₀,⟨hch₀,hha₀⟩,rfl⟩
      · exact .inr ⟨b,hb,hch,hhe,hha,hst⟩
      · left
        cases block
        simp_all
    · rintro (rfl | ⟨b,hb,hch,hhe,hha,hst⟩)
      · obtain ⟨b,hb,hch,hha⟩ := hso
        refine ⟨_,mem_update_self hb ⟨hch,hha⟩,hch, hk b hb hch hha,hha,?_⟩
        split <;> simp
      · by_cases hsame : b.hash = block.hash
        · refine ⟨_,mem_update_self hb ⟨hch,hsame⟩,hch,hhe,hha,?_⟩
          split <;> simp
        · exact ⟨b,mem_update_of hb (fun h => hsame h.2),hch,hhe,hha,hst⟩
  · constructor
    · rintro ⟨b,hb,hch,hhe,hha,hst⟩
      rcases mem_append.mp hb with hb | hb
      · exact .inr ⟨b,hb,hch,hhe,hha,hst⟩
      · left
        cases block
        simp_all
    · rintro (rfl | ⟨b,hb,hch,hhe,hha,hst⟩)
      · exact ⟨_,mem_append_right rows (mem_singleton_self _),rfl,rfl,rfl,by simp⟩
      · exact ⟨b,mem_append_left _ hb,hch,hhe,hha,hst⟩

lemma canonical_commitBlock (hk : KeepsHeight rows chainID block) :
    Canonical (commitBlock chainID clock rows block) chainID x ↔
      x = block ∨ (Canonical rows chainID x ∧ x.height ≠ block.height) := by
  have hd : KeepsHeight (displaceBlocks chainID clock block rows) chainID block :=
    forall_update hk fun _ _ _ h => h
  unfold commitBlock
  rw [canonical_admitBlock hd,canonical_displaceBlocks]
  constructor
  · rintro (rfl | ⟨hca,hn⟩)
    · exact .inl rfl
    · by_cases hhe : x.height = block.height
      · left
        cases x
        simp_all
      · exact .inr ⟨hca,hhe⟩
  · rintro (rfl | ⟨hca,hhe⟩)
    · exact .inl rfl
    · exact .inr ⟨hca,fun h => hhe h.1⟩

lemma mem_commitBlock (hb : b ∈ commitBlock chainID clock rows block) :
    (b.chainID = chainID ∧ b.height = block.height ∧ b.hash = block.hash) ∨
      ∃ b₀ ∈ rows, b.chainID = b₀.chainID ∧ b.height = b₀.height ∧ b.hash = b₀.hash := by
  have hd : ∀ b ∈ displaceBlocks chainID clock block rows,
      ∃ b₀ ∈ rows, b.chainID = b₀.chainID ∧ b.height = b₀.height ∧ b.hash = b₀.hash :=
    forall_update (fun b hb => ⟨b,hb,rfl,rfl,rfl⟩) fun _ _ _ h => h
  unfold commitBlock admitBlock at hb
  split_ifs at hb
  · have ho := of_mem_update hb hd fun _ h => h
    exact .inr ho
  · rcases mem_snoc.mp hb with hb | rfl
    · exact .inr (hd b hb)
    · exact .inl ⟨rfl,rfl,rfl⟩

lemma mem_committed
    (hb : b ∈ pruneBlocks chainID toHeight (blocks.foldl (commitBlock chainID clock) rows)) :
    (∃ x ∈ blocks, b.chainID = chainID ∧ b.height = x.height ∧ b.hash = x.hash) ∨
      ∃ b₀ ∈ rows, b.chainID = b₀.chainID ∧ b.height = b₀.height ∧ b.hash = b₀.hash := by
  have hfo : b ∈ blocks.foldl (commitBlock chainID clock) rows := by
    unfold pruneBlocks at hb
    split_ifs at hb
    · exact (mem_filter.mp hb).1
    · exact hb
  clear hb
  induction blocks generalizing rows with
  | nil => exact .inr ⟨b,hfo,rfl,rfl,rfl⟩
  | cons block blocks ih =>
    rcases ih hfo with ⟨x,hx,hf⟩ | ⟨b₁,hb₁,hch,hh,hha⟩
    · exact .inl ⟨x,mem_cons_of_mem block hx,hf⟩
    · rw [hch,hh,hha]
      rcases mem_commitBlock hb₁ with hf | hold
      · exact .inl ⟨block,mem_cons_self,hf⟩
      · exact .inr hold

/-- Blocks at different heights, none of whose hashes is known at another height. -/
structure Admissible (rows : List ChainBlock) (chainID : String) (blocks : List BlockRef) :
    Prop where
  keeps : ∀ b ∈ blocks, KeepsHeight rows chainID b
  hashes : ∀ b ∈ blocks, ∀ c ∈ blocks, b.hash = c.hash → b.height = c.height
  heights : (blocks.map (·.height)).Nodup

lemma Admissible.tail (h : Admissible rows chainID (block::blocks)) :
    Admissible (commitBlock chainID clock rows block) chainID blocks := by
  refine ⟨fun c hc b hb hch hha => ?_,?_,(nodup_cons.mp h.heights).2⟩
  · rcases mem_commitBlock hb with ⟨-,hhe,hha'⟩ | ⟨b₀,hb₀,hch₀,hhe₀,hha₀⟩
    · rw [hhe]
      exact h.hashes block mem_cons_self c (mem_cons_of_mem block hc)
        (hha'.symm.trans hha)
    · rw [hhe₀]
      exact h.keeps c (mem_cons_of_mem block hc) b₀ hb₀ (hch₀ ▸ hch) (hha₀ ▸ hha)
  · intro b hb c hc
    exact h.hashes b (mem_cons_of_mem block hb) c (mem_cons_of_mem block hc)

/-- A committed range replaces the canonical blocks at its own heights and no others. -/
theorem canonical_committed (h : Admissible rows chainID blocks) :
    Canonical (blocks.foldl (commitBlock chainID clock) rows) chainID x ↔
      x ∈ blocks ∨ (Canonical rows chainID x ∧ ∀ b ∈ blocks, x.height ≠ b.height) := by
  induction blocks generalizing rows with
  | nil => simp
  | cons block blocks ih =>
    have hf : block.height ∉ blocks.map (·.height) := (nodup_cons.mp h.heights).1
    have hfi := h.keeps block mem_cons_self
    rw [foldl_cons,ih h.tail,canonical_commitBlock hfi]
    simp only [mem_cons,forall_eq_or_imp]
    constructor
    · rintro (hm | ⟨rfl | ⟨hca,hhe⟩,hr⟩)
      · exact .inl (.inr hm)
      · exact .inl (.inl rfl)
      · exact .inr ⟨hca,hhe,hr⟩
    · rintro ((rfl | hm) | ⟨hca,hhe,hr⟩)
      · refine .inr ⟨.inl rfl,fun b hb heq => ?_⟩
        exact hf (heq ▸ mem_map_of_mem hb)
      · exact .inl hm
      · exact .inr ⟨.inr ⟨hca,hhe⟩,hr⟩

lemma canonical_of_pruneBlocks
    (h : Canonical (pruneBlocks chainID toHeight rows) other x) : Canonical rows other x := by
  obtain ⟨b,hb,hf⟩ := h
  unfold pruneBlocks at hb
  split_ifs at hb
  · exact ⟨b,(mem_filter.mp hb).1,hf⟩
  · exact ⟨b,hb,hf⟩

lemma canonical_pruneBlocks (h : Canonical rows chainID x) :
    Canonical (pruneBlocks chainID x.height rows) chainID x := by
  obtain ⟨b,hb,hch,hhe,hf⟩ := h
  unfold pruneBlocks
  split_ifs
  · refine ⟨b,mem_filter.mpr ⟨hb,?_⟩,hch,hhe,hf⟩
    simp only [decide_eq_true_eq]
    omega
  · exact ⟨b,hb,hch,hhe,hf⟩

lemma mem_commitBlock_other (hne : b.chainID ≠ chainID) :
    b ∈ commitBlock chainID clock rows block ↔ b ∈ rows := by
  have hd : b ∈ displaceBlocks chainID clock block rows ↔ b ∈ rows := by
    unfold displaceBlocks
    rw [mem_update_iff]
    constructor
    · rintro (⟨hb,-⟩ | ⟨b₀,-,hb₀,rfl⟩)
      · exact hb
      · exact absurd hb₀.1 hne
    · intro hb
      exact .inl ⟨hb,fun h => hne h.1⟩
  unfold commitBlock admitBlock
  split_ifs
  · rw [mem_update_iff,hd]
    constructor
    · rintro (⟨hb,-⟩ | ⟨b₀,-,hb₀,rfl⟩)
      · exact hb
      · exact absurd hb₀.1 hne
    · intro hb
      exact .inl ⟨hb,fun h => hne h.1⟩
  · rw [mem_append,hd,mem_singleton]
    constructor
    · rintro (hb | rfl)
      · exact hb
      · exact absurd rfl hne
    · exact .inl

lemma canonical_committed_other (hne : other ≠ chainID) :
    Canonical (pruneBlocks chainID toHeight (blocks.foldl (commitBlock chainID clock) rows)) other x ↔
      Canonical rows other x := by
  have hr : ∀ b : ChainBlock, b.chainID ≠ chainID →
      (b ∈ blocks.foldl (commitBlock chainID clock) rows ↔ b ∈ rows) := by
    intro b hb
    induction blocks generalizing rows with
    | nil => rfl
    | cons block blocks ih => rw [foldl_cons,ih,mem_commitBlock_other hb]
  have hp : ∀ b : ChainBlock, b.chainID ≠ chainID →
      (b ∈ pruneBlocks chainID toHeight (blocks.foldl (commitBlock chainID clock) rows) ↔
        b ∈ rows) := by
    intro b hb
    unfold pruneBlocks
    split_ifs
    · simp [hb,hr b hb]
    · exact hr b hb
  constructor
  · rintro ⟨b,hb,hch,hf⟩
    exact ⟨b,(hp b (hch ▸ hne)).mp hb,hch,hf⟩
  · rintro ⟨b,hb,hch,hf⟩
    exact ⟨b,(hp b (hch ▸ hne)).mpr hb,hch,hf⟩

end

section
variable {db : Database} {lease : Lease} {batch : RangeBatch} {best : Option BlockRef}
  {a : BlockRef} {height : ℕ} {b : BlockRef}

lemma canonical_rewoundBlocks : Canonical (rewoundBlocks db lease batch clock) chainID x ↔
      Canonical db.chainBlocks chainID x ∧ ¬(chainID = lease.chainID ∧
        (rewindPoint db lease batch).height < x.height ∧ x.height ≤ lease.height) :=
  canonical_orphaned fun b hch hh hha hst => by simp [replaced,hch,hh,hst]

def preferred (db : Database) (lease : Lease) (best : Option BlockRef) (block : BlockRef) :
    Option BlockRef :=
  if agrees db lease.chainID block ∧ ∀ a ∈ best, a.height < block.height then some block else best

lemma foldl_preferred_some (h : blocks.foldl (preferred db lease) best = some a) :
    best = some a ∨ (a ∈ blocks ∧ Canonical db.chainBlocks lease.chainID a) := by
  induction blocks generalizing best with
  | nil => exact .inl h
  | cons block blocks ih =>
    rcases ih h with hbe | ⟨hm,hca⟩
    · unfold preferred at hbe
      split_ifs at hbe with hag
      · cases hbe
        exact .inr ⟨mem_cons_self,hag.1⟩
      · exact .inl hbe
    · exact .inr ⟨mem_cons_of_mem block hm,hca⟩

lemma foldl_preferred_start (hbe : ∃ a ∈ best, height ≤ a.height) :
    ∃ a, blocks.foldl (preferred db lease) best = some a ∧ height ≤ a.height := by
  induction blocks generalizing best with
  | nil =>
    obtain ⟨a,ha,hle⟩ := hbe
    exact ⟨a,ha,hle⟩
  | cons block blocks ih =>
    apply ih
    unfold preferred
    split_ifs with hag
    · obtain ⟨a,ha,hle⟩ := hbe
      have hlt := hag.2 a ha
      exact ⟨block,rfl,by omega⟩
    · exact hbe

lemma foldl_preferred_of_mem (hb : b ∈ blocks) (hca : Canonical db.chainBlocks lease.chainID b) :
    ∃ a, blocks.foldl (preferred db lease) best = some a ∧ b.height ≤ a.height := by
  induction blocks generalizing best with
  | nil => cases hb
  | cons block blocks ih =>
    rw [foldl_cons]
    rcases mem_cons.mp hb with rfl | hb
    · apply foldl_preferred_start
      unfold preferred
      split_ifs with hag
      · exact ⟨b,rfl,le_rfl⟩
      · by_contra hn
        refine hag ⟨hca,fun a ha => ?_⟩
        by_contra hle
        exact hn ⟨a,ha,by omega⟩
    · exact ih hb

lemma commonAncestor_some (h : commonAncestor db lease batch = some a) :
    a ∈ batch.blocks ∧ a.height ≤ lease.height ∧ Canonical db.chainBlocks lease.chainID a := by
  rcases foldl_preferred_some h with hn | ⟨hm,hca⟩
  · cases hn
  · have hbe := mem_takeWhile_imp hm
    exact ⟨(takeWhile_sublist _).subset hm,by simpa using hbe,hca⟩

lemma mem_takeWhile_of_ordered
    (ho : blocks.Pairwise fun p q => p.height < q.height) (hb : b ∈ blocks)
    (hle : b.height ≤ height) : b ∈ blocks.takeWhile (·.height ≤ height) := by
  induction blocks with
  | nil => cases hb
  | cons block blocks ih =>
    obtain ⟨hf,hr⟩ := pairwise_cons.mp ho
    rcases mem_cons.mp hb with rfl | hb
    · simp [hle]
    · have hlt := hf b hb
      rw [takeWhile_cons_of_pos (by simp; omega)]
      exact mem_cons_of_mem block (ih hr hb)

lemma commonAncestor_max
    (ho : batch.blocks.Pairwise fun p q => p.height < q.height) (hb : b ∈ batch.blocks)
    (hle : b.height ≤ lease.height) (hca : Canonical db.chainBlocks lease.chainID b) :
    ∃ a, commonAncestor db lease batch = some a ∧ b.height ≤ a.height := by
  exact foldl_preferred_of_mem (mem_takeWhile_of_ordered ho hb hle) hca

/-- Where a rewind goes: to a canonical block of the range; below a range that shares no block
with the history, to the canonical block there or to none; or to the start of the chain. -/
theorem rewindPoint_cases (db : Database) (lease : Lease) (batch : RangeBatch) :
    (commonAncestor db lease batch = some (rewindPoint db lease batch)) ∨
    (commonAncestor db lease batch = none ∧ batch.fromHeight = 0 ∧
      rewindPoint db lease batch = ⟨0,""⟩) ∨
    (commonAncestor db lease batch = none ∧ 0 < batch.fromHeight ∧
      (rewindPoint db lease batch).height = batch.fromHeight - 1 ∧
      (Canonical db.chainBlocks lease.chainID (rewindPoint db lease batch) ∨
        ((rewindPoint db lease batch).hash = "" ∧ ∀ x : BlockRef, x.height = batch.fromHeight - 1 →
          ¬Canonical db.chainBlocks lease.chainID x))) := by
  unfold rewindPoint
  cases han : commonAncestor db lease batch with
  | some a => exact .inl rfl
  | none =>
    by_cases hfr : batch.fromHeight = 0
    · exact .inr (.inl ⟨rfl,hfr,by simp [hfr]⟩)
    · refine .inr (.inr ⟨rfl,by omega,by simp [hfr],?_⟩)
      simp only [if_neg hfr]
      generalize hk : (db.chainBlocks.filter _).insertionSort (fun a b => b.lastObservedAt ≤
        a.lastObservedAt) = below
      have hin : ∀ b, b ∈ below ↔ b ∈ db.chainBlocks ∧ b.chainID = lease.chainID ∧
          b.height = batch.fromHeight - 1 ∧ b.status ≠ .reorged := by
        intro b
        rw [← hk,mem_insertionSort,mem_filter,decide_eq_true_eq]
      cases below with
      | nil =>
        refine .inr ⟨rfl,fun x hx hca => ?_⟩
        obtain ⟨b,hb,hch,hh,-,hst⟩ := hca
        exact absurd ((hin b).mpr ⟨hb,hch,hh.trans hx,hst⟩) not_mem_nil
      | cons b rest =>
        obtain ⟨hb,hch,hh,hst⟩ := (hin b).mp mem_cons_self
        exact .inl ⟨b,hb,hch,hh,rfl,hst⟩

end

end Ocrypt.BlockHistory
