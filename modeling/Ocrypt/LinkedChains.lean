import Mathlib.Tactic

/-! Chains of records that name their parent by a hash. A span picks one record for each height
of an interval, every one of them the child of the one below it. -/
namespace Ocrypt.LinkedChains
open List

/-- How a record is read: its height, its hash and the hash of its parent. -/
structure Reading (β η : Type*) where
  height : β → ℕ
  (hash parent : β → η)

variable {β η : Type*} {R : Reading β η} {S T : β → Prop} {s s' h h' k : ℕ} {tip tip' : η}
  {f g : ℕ → β}

/-- The records `f s` to `f h` of `S`, linked from each height to the next and ending in `tip`. -/
structure Span (R : Reading β η) (S : β → Prop) (s h : ℕ) (tip : η) (f : ℕ → β) : Prop where
  le : s ≤ h
  mem : ∀ k, s ≤ k → k ≤ h → S (f k)
  height : ∀ k, s ≤ k → k ≤ h → R.height (f k) = k
  linked : ∀ k, s ≤ k → k < h → R.parent (f (k+1)) = R.hash (f k)
  tip : R.hash (f h) = tip

/-- Some records of `S` span the heights from `s` to `h`, up to the tip. -/
def Reaches (R : Reading β η) (S : β → Prop) (s h : ℕ) (tip : η) : Prop := ∃ f, Span R S s h tip f

lemma Reaches.mono (hST : ∀ b, S b → T b) (hr : Reaches R S s h tip) : Reaches R T s h tip := by
  obtain ⟨f,hf⟩ := hr
  exact ⟨f,hf.le,fun k hs hk => hST _ (hf.mem k hs hk),hf.height,hf.linked,hf.tip⟩

lemma Span.cut (hf : Span R S s h tip f) (hs : s ≤ k) (hk : k ≤ h) :
    Span R S s k (R.hash (f k)) f := by
  refine ⟨hs,?_,?_,?_,rfl⟩
  · intro j hj hjk
    exact hf.mem j hj (by omega)
  · intro j hj hjk
    exact hf.height j hj (by omega)
  · intro j hj hjk
    exact hf.linked j hj (by omega)

lemma Span.raise (hf : Span R S s h tip f) (hs : s ≤ k) (hk : k ≤ h) : Span R S k h tip f := by
  refine ⟨hk,?_,?_,?_,hf.tip⟩
  · intro j hj hjh
    exact hf.mem j (by omega) hjh
  · intro j hj hjh
    exact hf.height j (by omega) hjh
  · intro j hj hjh
    exact hf.linked j (by omega) hjh

lemma Span.glue (hf : Span R S s h tip f) (hg : Span R S s' h' tip' g) (hs : s' ≤ h) (hh : h ≤ h')
    (hm : R.hash (g h) = tip) : Reaches R S s h' tip' := by
  refine ⟨fun k => if k ≤ h then f k else g k,le_trans hf.le hh,?_,?_,?_,?_⟩
  · intro k hk hk'
    split_ifs with hle
    · exact hf.mem k hk hle
    · exact hg.mem k (by omega) hk'
  · intro k hk hk'
    split_ifs with hle
    · exact hf.height k hk hle
    · exact hg.height k (by omega) hk'
  · intro k hk hk'
    rcases lt_trichotomy k h with hlt | rfl | hgt
    · rw [if_pos (by omega),if_pos (by omega)]
      exact hf.linked k hk hlt
    · rw [if_neg (by omega),if_pos le_rfl,hf.tip,← hm]
      exact hg.linked k hs hk'
    · rw [if_neg (by omega),if_neg (by omega)]
      exact hg.linked k (by omega) hk'
  · split_ifs with hle
    · have heq : h' = h := by omega
      subst heq
      rw [hf.tip,← hm,hg.tip]
    · exact hg.tip

lemma Span.hash_eq (hp : ∀ b c, S b → S c → R.hash b = R.hash c → R.parent b = R.parent c)
    (hf : Span R S s h tip f) (hg : Span R S s' h tip g) (hs : s ≤ k) (hs' : s' ≤ k) (hk : k ≤ h) :
    R.hash (f k) = R.hash (g k) := by
  -- Down from the tip, by the distance to it.
  induction hd : h - k generalizing k with
  | zero =>
    have heq : k = h := by omega
    rw [heq]
    exact hf.tip.trans hg.tip.symm
  | succ d ih =>
    have hao : R.hash (f (k+1)) = R.hash (g (k+1)) :=
      ih (by omega) (by omega) (by omega) (by omega)
    have hf' := hf.linked k hs (by omega)
    have hg' := hg.linked k hs' (by omega)
    rw [← hf',← hg']
    exact hp _ _ (hf.mem (k+1) (by omega) (by omega)) (hg.mem (k+1) (by omega) (by omega))
      hao

lemma span_of_list [Inhabited β] {bs : List β} {last : β} (hl : bs.getLast? = some last)
    (hh : ∀ j b, bs[j]? = some b → R.height b = s+j)
    (hli : bs.IsChain fun p b => R.parent b = R.hash p) (hS : ∀ b ∈ bs, S b) :
    Span R S s (s+bs.length - 1) (R.hash last) fun k => bs.getD (k - s) default := by
  have hpo : 0 < bs.length := by
    rw [length_pos_iff]
    rintro rfl
    cases hl
  have hg : ∀ k, k < bs.length → ∃ b, bs[k]? = some b ∧ bs.getD k default = b := by
    intro k hk
    exact ⟨bs[k],getElem?_eq_getElem hk,by simp [hk]⟩
  refine ⟨by omega,?_,?_,?_,?_⟩
  · intro k hk hk'
    obtain ⟨b,hb,hv⟩ := hg (k - s) (by omega)
    rw [hv]
    exact hS b (mem_of_getElem? hb)
  · intro k hk hk'
    obtain ⟨b,hb,hv⟩ := hg (k - s) (by omega)
    rw [hv,hh _ b hb]
    omega
  · intro k hk hk'
    obtain ⟨b,hb,hv⟩ := hg (k - s) (by omega)
    obtain ⟨c,hc,hv'⟩ := hg (k - s+1) (by omega)
    rw [show k+1 - s = k - s+1 by omega,hv,hv']
    have hst := isChain_iff_getElem.mp hli (k - s) (by omega)
    rw [getElem?_eq_some_iff] at hb hc
    obtain ⟨_,hb⟩ := hb
    obtain ⟨_,hc⟩ := hc
    rw [← hb,← hc]
    exact hst
  · rw [getLast?_eq_getElem?] at hl
    rw [show s+bs.length - 1 - s = bs.length - 1 by omega]
    obtain ⟨b,hb,hv⟩ := hg (bs.length - 1) (by omega)
    rw [hv]
    rw [hl] at hb
    cases hb
    rfl

end Ocrypt.LinkedChains
