import Mathlib

/-! TON shard frontiers: when the shards of a workchain tile the address space. -/
namespace Ocrypt.ShardFrontiers
open List

/-- The loop over the sorted shards; zero stands for both ends of the address space. -/
def tiled (next : BitVec 64) : List (BitVec 64) → Bool
  | [] => next == 0
  | shard::rest =>
    let tag := shard &&& -shard
    if tag = 0 ∨ shard - tag ≠ next then false
    else
      let next := shard + tag
      if next = 0 ∧ rest ≠ [] then false else tiled next rest

def tonCompleteShardFrontier (shards : List (BitVec 64)) : Bool :=
  if shards = [] then false else tiled 0 (shards.mergeSort fun a b => decide (a ≤ b))

/-- The lowest set bit as a number. -/
def lowbit (shard : BitVec 64) : ℤ := 2^shard.ctz.toNat

def interval (shard : BitVec 64) : Set ℤ :=
  Set.Ico (shard.toNat - lowbit shard) (shard.toNat + lowbit shard)

/-- The intervals of the shards are a partition of the addresses from `start` on. -/
structure Tiling (start : ℤ) (shards : List (BitVec 64)) : Prop where
  nonzero : ∀ shard ∈ shards, shard ≠ 0
  disjoint : shards.Pairwise fun a b => Disjoint (interval a) (interval b)
  union : (⋃ shard ∈ shards, interval shard) = Set.Ico start (2^64)

variable {s t : BitVec 64} {l rest : List (BitVec 64)} {n x : ℤ}

lemma ctz_lt (hs : s ≠ 0) : s.ctz.toNat < 64 := by
  have hl := BitVec.getLsbD_true_ctz_of_ne_zero hs
  by_contra h
  simp [BitVec.getLsbD_of_ge s _ (not_lt.mp h)] at hl

lemma tag_eq (hs : s ≠ 0) : s &&& -s = BitVec.twoPow 64 s.ctz.toNat := by
  have hl := BitVec.getLsbD_true_ctz_of_ne_zero hs
  refine BitVec.eq_of_getLsbD_eq fun i hi => ?_
  rw [BitVec.getLsbD_and,BitVec.getLsbD_neg,BitVec.getLsbD_twoPow]
  rcases lt_trichotomy i s.ctz.toNat with h | h | h
  · simp [BitVec.getLsbD_false_of_lt_ctz h,h.ne']
  · have hn : ¬∃ j < i, s.getLsbD j = true := by
      rintro ⟨j,hj,hbi⟩
      rw [BitVec.getLsbD_false_of_lt_ctz (h ▸ hj)] at hbi
      cases hbi
    simp [hn,← h,hi]
    exact h ▸ hl
  · have hso : ∃ j < i, s.getLsbD j = true := ⟨_,h,hl⟩
    simp [hso,hi,h.ne]

/-- The tag neither borrows below zero nor carries beyond the end of the address space. -/
lemma tag_bounds (hs : s ≠ 0) : ((s &&& -s).toNat : ℤ) = lowbit s ∧ 0 < lowbit s ∧
    lowbit s ≤ s.toNat ∧ s.toNat + lowbit s ≤ 2^64 := by
  have hta : ((s &&& -s).toNat : ℤ) = lowbit s := by
    rw [tag_eq hs,BitVec.toNat_twoPow,Nat.mod_eq_of_lt (Nat.pow_lt_pow_right (by decide) (ctz_lt hs))]
    norm_cast
  have hp : 0 < s.toNat := Nat.pos_of_ne_zero fun h => hs (BitVec.eq_of_toNat_eq (by simpa using h))
  have hl : (s &&& -s).toNat ≤ s.toNat := by
    exact Nat.and_le_left
  have hr : (s &&& -s).toNat ≤ 2^64 - s.toNat := by
    rw [BitVec.toNat_and,BitVec.toNat_neg,Nat.mod_eq_of_lt (by omega)]
    exact Nat.and_le_right
  have hlo : 0 < lowbit s := Int.pow_pos (by decide)
  refine ⟨hta,hlo,by omega,by omega⟩

lemma mem_interval : x ∈ interval s ↔ s.toNat - lowbit s ≤ x ∧ x < s.toNat + lowbit s := Iff.rfl

lemma self_mem (hs : s ≠ 0) : (s.toNat : ℤ) ∈ interval s := by
  have hb := tag_bounds hs
  exact mem_interval.mpr ⟨by omega,by omega⟩

lemma Tiling.mem_iff (h : Tiling n l) : (∃ s ∈ l, x ∈ interval s) ↔ n ≤ x ∧ x < 2^64 := by
  have hx := Set.ext_iff.mp h.union x
  simpa only [Set.mem_iUnion,exists_prop,Set.mem_Ico] using hx

/-- In a sorted tiling the first shard starts where the tiling does. -/
lemma Tiling.head_start (h : Tiling n (s::rest)) (hs : (s::rest).Pairwise (· ≤ ·)) (hn : n < 2^64) :
    s.toNat - lowbit s = n := by
  have hb := fun t ht => tag_bounds (h.nonzero t ht)
  have hge := fun t ht =>
    (h.mem_iff.mp ⟨t,ht,le_rfl,by have := hb t ht; omega⟩).1
  obtain ⟨t,ht,hm⟩ := h.mem_iff.mpr ⟨le_rfl,hn⟩
  rcases mem_cons.mp ht with rfl | htr
  · exact le_antisymm hm.1 (hge _ ht)
  · -- the first shard's own address would lie in both intervals
    have hd := (pairwise_cons.mp h.disjoint).1 t htr
    have hle : s.toNat ≤ t.toNat := (pairwise_cons.mp hs).1 t htr
    have hs₀ := hge s mem_cons_self
    have hbs := hb s mem_cons_self
    rw [mem_interval] at hm
    refine Set.disjoint_left.mp hd (self_mem (h.nonzero s mem_cons_self)) ?_ |>.elim
    exact mem_interval.mpr ⟨by omega,by omega⟩

lemma tiling_cons (hs : (s::rest).Pairwise (· ≤ ·)) (hn : n < 2^64) : Tiling n (s::rest) ↔
    s ≠ 0 ∧ s.toNat - lowbit s = n ∧ Tiling (s.toNat + lowbit s) rest := by
  constructor
  · intro h
    have h₀ := h.nonzero s mem_cons_self
    have hst := h.head_start hs hn
    have hd := (pairwise_cons.mp h.disjoint)
    have hb := tag_bounds h₀
    refine ⟨h₀,hst,fun t ht => h.nonzero t (mem_cons_of_mem _ ht),hd.2,?_⟩
    ext x
    have hx := h.mem_iff (x := x)
    simp only [mem_cons,exists_eq_or_imp] at hx
    simp only [Set.mem_iUnion,exists_prop,Set.mem_Ico]
    constructor
    · rintro ⟨t,ht,hm⟩
      have hno : x ∉ interval s := fun hc => Set.disjoint_left.mp (hd.1 t ht) hc hm
      have hr := hx.mp (.inr ⟨t,ht,hm⟩)
      rw [mem_interval] at hno
      omega
    · rintro ⟨hlo,hhi⟩
      refine (hx.mpr ⟨by omega,hhi⟩).resolve_left fun hc => ?_
      rw [mem_interval] at hc
      omega
  · rintro ⟨h₀,hst,h⟩
    have hb := tag_bounds h₀
    have hf : ∀ {x t}, t ∈ rest → x ∈ interval t → s.toNat + lowbit s ≤ x :=
      fun ht hx => (h.mem_iff.mp ⟨_,ht,hx⟩).1
    refine ⟨forall_mem_cons.mpr ⟨h₀,h.nonzero⟩,pairwise_cons.mpr ⟨fun t ht => ?_,h.disjoint⟩,?_⟩
    · refine Set.disjoint_left.mpr fun x hx hy => ?_
      have := hf ht hy
      rw [mem_interval] at hx
      omega
    · ext x
      have hx := h.mem_iff (x := x)
      simp only [Set.mem_iUnion,exists_prop,Set.mem_Ico,mem_cons,exists_eq_or_imp,hx]
      rw [mem_interval]
      omega

lemma tag_sub (hs : s ≠ 0) : (((s - (s &&& -s)).toNat : ℕ) : ℤ) = s.toNat - lowbit s := by
  have hb := tag_bounds hs
  rw [BitVec.toNat_sub]
  omega

/-- The next address, which wraps to zero exactly at the end of the address space. -/
lemma tag_add (hs : s ≠ 0) : (s + (s &&& -s) = 0 ∧ s.toNat + lowbit s = 2^64) ∨
    (s + (s &&& -s) ≠ 0 ∧ ((s + (s &&& -s)).toNat : ℤ) = s.toNat + lowbit s) := by
  have hb := tag_bounds hs
  rw [Ne,← BitVec.toNat_inj,BitVec.toNat_add]
  simp only [BitVec.ofNat_eq_ofNat,BitVec.toNat_ofNat]
  omega

lemma tiled_cons (hs : s ≠ 0) (next : BitVec 64) : tiled next (s::rest) = true ↔
    s.toNat - lowbit s = next.toNat ∧ ¬(s + (s &&& -s) = 0 ∧ rest ≠ []) ∧
      tiled (s + (s &&& -s)) rest = true := by
  have hb := tag_bounds hs
  have hta : ¬s &&& -s = 0 := fun h => by
    rw [h] at hb
    simp only [BitVec.ofNat_eq_ofNat,BitVec.toNat_ofNat] at hb
    omega
  have hsu : s - (s &&& -s) = next ↔ s.toNat - lowbit s = next.toNat := by
    rw [← tag_sub hs,Nat.cast_inj,BitVec.toNat_inj]
  simp only [tiled,hta,false_or,ne_eq,hsu]
  by_cases hst : s.toNat - lowbit s = next.toNat
  swap
  · simp [hst]
  simp only [hst,not_true_eq_false,if_false,true_and]
  by_cases he : s + (s &&& -s) = 0 ∧ ¬rest = []
  · rw [if_pos he]
    exact ⟨fun h => (Bool.false_ne_true h).elim,fun h => absurd he h.1⟩
  · rw [if_neg he,and_iff_right he]

lemma tiling_nil : Tiling n [] ↔ 2^64 ≤ n := by
  have hse : Set.Ico n (2^64) = ∅ ↔ 2^64 ≤ n := by rw [Set.Ico_eq_empty_iff,not_lt]
  rw [← hse]
  exact ⟨fun h => by simpa only [not_mem_nil,Set.iUnion_of_empty,Set.iUnion_empty] using h.union.symm,
    fun h => ⟨by simp,.nil,by
      rw [h]
      simp⟩⟩

lemma tiled_iff_of_rest (hs : (s::rest).Pairwise (· ≤ ·)) (next : BitVec 64)
    (h : s ≠ 0 → ((¬(s + (s &&& -s) = 0 ∧ rest ≠ []) ∧ tiled (s + (s &&& -s)) rest = true) ↔
      Tiling (s.toNat + lowbit s) rest)) :
    tiled next (s::rest) = true ↔ Tiling next.toNat (s::rest) := by
  have hlt : (next.toNat : ℤ) < 2^64 := by
    omega
  by_cases h₀ : s = 0
  · exact ⟨fun h => by simp [tiled,h₀] at h,fun h => absurd h₀ (h.nonzero s mem_cons_self)⟩
  · rw [tiling_cons hs hlt,tiled_cons h₀,and_iff_right h₀,h h₀]

lemma tiled_iff (hs : (s::rest).Pairwise (· ≤ ·)) (next : BitVec 64) :
    tiled next (s::rest) = true ↔ Tiling next.toNat (s::rest) := by
  induction rest generalizing s next with
  | nil =>
    refine tiled_iff_of_rest hs next fun h₀ => ?_
    rw [tiling_nil,and_iff_right (fun h => h.2 rfl),tiled,beq_iff_eq]
    rcases tag_add h₀ with h | h
    · exact iff_of_true h.1 h.2.ge
    · exact iff_of_false h.1 (by omega)
  | cons t rest ih =>
    refine tiled_iff_of_rest hs next fun h₀ => ?_
    rcases tag_add h₀ with h | h
    · -- nothing is left for a further shard
      refine iff_of_false (fun hc => hc.1 ⟨h.1,cons_ne_nil _ _⟩) fun hc => ?_
      have hx := hc.mem_iff.mp ⟨t,mem_cons_self,self_mem (hc.nonzero t mem_cons_self)⟩
      omega
    · rw [and_iff_right fun hc => h.1 hc.1,ih (pairwise_cons.mp hs).2,h.2]

lemma Tiling.perm {l' : List (BitVec 64)} (hp : l.Perm l') (h : Tiling n l) : Tiling n l' where
  nonzero s hs := h.nonzero s (hp.mem_iff.mpr hs)
  disjoint := (hp.pairwise_iff fun {_ _} hab => hab.symm).mp h.disjoint
  union := by simpa only [hp.mem_iff] using h.union

/-- The shards are accepted exactly when their intervals tile the address space, whatever their
order. -/
theorem frontier_complete_iff (shards : List (BitVec 64)) :
    (tonCompleteShardFrontier shards = true ↔ Tiling 0 shards) ∧
      ∀ l, l.Perm shards → tonCompleteShardFrontier l = tonCompleteShardFrontier shards := by
  have hso : ∀ l : List (BitVec 64),
      (l.mergeSort fun a b => decide (a ≤ b)).Pairwise fun a b => decide (a ≤ b) = true :=
    pairwise_mergeSort
      (fun a b c hab hbc => by simpa using BitVec.le_trans (of_decide_eq_true hab) (of_decide_eq_true hbc))
      (by simpa using BitVec.le_total)
  have hi : ∀ l, tonCompleteShardFrontier l = true ↔ Tiling 0 l := by
    intro l
    have hp := mergeSort_perm l fun a b => decide (a ≤ b)
    have hl := hso l
    simp only [decide_eq_true_eq] at hl
    rw [← show Tiling 0 (l.mergeSort fun a b => decide (a ≤ b)) ↔ Tiling 0 l from
      ⟨.perm hp,.perm hp.symm⟩,tonCompleteShardFrontier]
    cases h : l.mergeSort fun a b => decide (a ≤ b) with
    | nil =>
      rw [h] at hp
      rw [if_pos (nil_perm.mp hp),tiling_nil]
      simp
    | cons s rest =>
      rw [h] at hl hp
      rw [if_neg fun hn => by simp [hn] at hp,tiled_iff hl]
      rfl
  refine ⟨hi shards,fun l hl => Bool.eq_iff_iff.mpr ?_⟩
  rw [hi,hi]
  exact ⟨.perm hl,.perm hl.symm⟩

end Ocrypt.ShardFrontiers
