import Ocrypt.Table

/-! Sums over the rows of a table by a key: how they change when a row is added or rewritten, and
that two tables whose sums agree at every key agree in total. -/
namespace Ocrypt.KeyedSums
open Table List

variable {α β κ ι M : Type*} [DecidableEq κ] [DecidableEq ι]

section
variable [AddCommMonoid M] {key : α → κ} {f : α → M} {xs : List α} {k : κ} {p : α → Prop}
  {rows : List α} {w : α → α}

/-- The sum of `f` over the elements with the key `k`. -/
def sumAt (key : α → κ) (f : α → M) (xs : List α) (k : κ) : M :=
  (xs.map fun x => if key x = k then f x else 0).sum

@[simp] lemma sumAt_nil (k : κ) : sumAt key f [] k = 0 := rfl

lemma sumAt_cons (x : α) (xs : List α) (k : κ) :
    sumAt key f (x::xs) k = (if key x = k then f x else 0)+sumAt key f xs k := by
  simp [sumAt]

lemma sumAt_append (xs ys : List α) (k : κ) :
    sumAt key f (xs ++ ys) k = sumAt key f xs k+sumAt key f ys k := by
  simp [sumAt]

lemma sumAt_singleton (x : α) (k : κ) : sumAt key f [x] k = if key x = k then f x else 0 := by
  simp [sumAt]

lemma sumAt_congr {g : α → M} (h : ∀ x ∈ xs, key x = k → f x = g x) :
    sumAt key f xs k = sumAt key g xs k := by
  unfold sumAt
  congr 1
  refine map_congr_left fun x hx => ?_
  split_ifs with hk
  · exact h x hx hk
  · rfl

lemma sumAt_eq_zero (h : ∀ x ∈ xs, key x = k → f x = 0) : sumAt key f xs k = 0 := by
  rw [sumAt_congr h]
  simp [sumAt]

lemma sumAt_eq_sum (h : ∀ x ∈ xs, key x = k) : sumAt key f xs k = (xs.map f).sum := by
  unfold sumAt
  congr 1
  exact map_congr_left fun x hx => if_pos (h x hx)

lemma sumAt_eq_sum_filter (xs : List α) (k : κ) :
    sumAt key f xs k = ((xs.filter fun x => key x = k).map f).sum := by
  induction xs with
  | nil => rfl
  | cons x xs ih =>
    rw [sumAt_cons,ih]
    by_cases hk : key x = k <;> simp [hk]

lemma sumAt_eq_single [DecidablePred p] {x : α}
    (ho : xs.countP p ≤ 1) (hx : x ∈ xs) (hp : p x) (hk : key x = k)
    (hze : ∀ y ∈ xs, key y = k → ¬p y → f y = 0) : sumAt key f xs k = f x := by
  have hfi : sumAt key f xs k = sumAt key f (xs.filter p) k := by
    clear ho hx
    induction xs with
    | nil => rfl
    | cons y xs ih =>
      have ih := ih fun z hz => hze z (mem_cons_of_mem y hz)
      by_cases hpy : p y
      · rw [filter_cons_of_pos (by simpa using hpy),sumAt_cons,sumAt_cons,ih]
      · rw [filter_cons_of_neg (by simpa using hpy),sumAt_cons,ih]
        split_ifs with hky
        · rw [hze y mem_cons_self hky hpy,zero_add]
        · rw [zero_add]
  rw [hfi,filter_eq_singleton ho hx hp,sumAt_singleton,if_pos hk]

lemma sum_sumAt {K : Finset κ} (h : ∀ x ∈ xs, key x ∈ K) :
    ∑ k ∈ K, sumAt key f xs k = (xs.map f).sum := by
  induction xs with
  | nil => simp
  | cons x xs ih =>
    obtain ⟨hx,hxs⟩ := forall_mem_cons.mp h
    simp only [sumAt_cons,Finset.sum_add_distrib,ih hxs,Finset.sum_ite_eq,hx,if_true,
      map_cons,sum_cons]

lemma sum_eq_of_sumAt_eq (key : α → κ) (key' : β → κ) {g : β → M} {ys : List β}
    (h : ∀ k, sumAt key f xs k = sumAt key' g ys k) : (xs.map f).sum = (ys.map g).sum := by
  have hxs : ∀ x ∈ xs, key x ∈ (xs.map key ++ ys.map key').toFinset := fun x hx => by
    simp only [toFinset_append,Finset.mem_union,mem_toFinset]
    exact .inl (mem_map_of_mem hx)
  have hys : ∀ y ∈ ys, key' y ∈ (xs.map key ++ ys.map key').toFinset := fun y hy => by
    simp only [toFinset_append,Finset.mem_union,mem_toFinset]
    exact .inr (mem_map_of_mem hy)
  rw [← sum_sumAt hxs,← sum_sumAt hys]
  exact Finset.sum_congr rfl fun k _ => h k

/-- A sum at a pair of keys is a sum at the second one over the elements with the first. -/
theorem sumAt_pair {first : α → ι} (xs : List α) (a : ι) (k : κ) :
    sumAt (fun x => (first x,key x)) f xs (a,k) =
      sumAt key (fun x => if first x = a then f x else 0) xs k := by
  unfold sumAt
  congr 1
  refine map_congr_left fun x _ => ?_
  by_cases hfi : first x = a <;> by_cases hke : key x = k <;> simp [hfi]

lemma sumAt_update [DecidablePred p]
    (hke : ∀ r ∈ rows, p r → key (w r) = key r) (h : ∀ r ∈ rows, p r → key r = k → f (w r) = f r) :
    sumAt key f (update p w rows) k = sumAt key f rows k := by
  unfold sumAt
  rw [sum_update]
  congr 1
  refine map_congr_left fun r hr => ?_
  by_cases hp : p r
  · rw [hke r hr hp]
    split_ifs with hk
    · exact h r hr hp hk
    · rfl
  · rw [if_neg hp]

/-- Rewriting the one row that meets a condition, when it contributed nothing before. -/
theorem sumAt_update_one [DecidablePred p] {r : α} (ho : rows.countP p = 1) (hr : r ∈ rows)
    (hp : p r) (hke : key (w r) = key r)
    (hz : f r = 0) : sumAt key f (update p w rows) k =
      sumAt key f rows k+if key r = k then f (w r) else 0 := by
  induction rows with
  | nil => cases hr
  | cons s rows ih =>
    rw [update_cons,sumAt_cons,sumAt_cons]
    by_cases hs : p s
    · -- The row is found: no other one is rewritten.
      have hn : rows.countP p = 0 := by
        rw [countP_cons_of_pos (by simpa using hs)] at ho
        omega
      have hre : ∀ t ∈ rows, ¬p t := by simpa using countP_eq_zero.mp hn
      rcases mem_cons.mp hr with rfl | hr
      · have hse : update p w rows = rows := update_eq_self fun t ht hpt => absurd hpt (hre t ht)
        rw [if_pos hp,hse,hke,hz]
        simp [add_comm]
      · exact absurd hp (hre r hr)
    · rcases mem_cons.mp hr with rfl | hr
      · exact absurd hp hs
      · rw [countP_cons_of_neg (by simpa using hs)] at ho
        rw [if_neg hs,ih ho hr,add_assoc]

end

lemma eq_zero_of_sumAt_eq_zero {key : α → κ} {f : α → ℤ} {xs : List α} {k : κ} {x : α}
    (hn : ∀ x, 0 ≤ f x) (hsu : sumAt key f xs k = 0) (hx : x ∈ xs) (hk : key x = k) : f x = 0 := by
  have hte : ∀ y, 0 ≤ if key y = k then f y else 0 := fun y => by
    split_ifs
    · exact hn y
    · exact le_rfl
  have hle : (if key x = k then f x else 0) ≤ sumAt key f xs k :=
    single_le_sum (fun z hz => by
      obtain ⟨y,-,rfl⟩ := mem_map.mp hz
      exact hte y) _ (mem_map_of_mem hx)
  rw [if_pos hk,hsu] at hle
  exact le_antisymm hle (hn x)

end Ocrypt.KeyedSums
