import Mathlib.Data.List.Sort
import Mathlib.Tactic

/-! Order statistics of sorted lists. A sublist of a sorted list is matched by a window of
consecutive elements that ends where the sublist ends: no wider, and with a median as large. -/
namespace Ocrypt.OrderStatistics
open List

variable {α : Type*} [LinearOrder α]

def middle (n : ℕ) : ℕ := (n - 1) / 2

/-- `q` consecutive elements. -/
def window (l : List α) (start q : ℕ) : List α := (l.drop start).take q

omit [LinearOrder α] in
lemma length_window {l : List α} {start q : ℕ} (h : start+q ≤ l.length) :
    (window l start q).length = q := by
  simp only [window,length_take,length_drop]
  omega

omit [LinearOrder α] in
lemma window_sublist (l : List α) (start q : ℕ) : (window l start q).Sublist l :=
  (take_sublist _ _).trans (drop_sublist _ _)

section
variable {l s : List α} {q i : ℕ} {x y : α}

lemma getElem?_le_of_sublist (hs : s.Sublist l) (hl : l.Pairwise (· ≥ ·)) (hx : s[i]? = some x) :
    ∃ y, l[i]? = some y ∧ x ≤ y := by
  induction hs generalizing i with
  | slnil => simp at hx
  | @cons s l a hs ih =>
    obtain ⟨hh,hta⟩ := List.pairwise_cons.mp hl
    obtain ⟨y,hy,hle⟩ := ih hta hx
    cases i with
    | zero => exact ⟨a,rfl,hle.trans (hh y (List.mem_of_getElem? hy))⟩
    | succ i =>
      obtain ⟨hlt,hg⟩ := List.getElem?_eq_some_iff.mp hy
      refine ⟨l[i],by simp [Nat.lt_of_succ_lt hlt],hle.trans ?_⟩
      rw [← hg]
      exact List.pairwise_iff_getElem.mp hta i (i+1) (Nat.lt_of_succ_lt hlt) hlt (Nat.lt_succ_self i)
  | @cons_cons s l a hs ih =>
    cases i with
    | zero => exact ⟨x,hx,le_refl x⟩
    | succ i => exact ih (List.pairwise_cons.mp hl).2 hx

lemma getElem?_antitone {j : ℕ} (hl : l.Pairwise (· ≥ ·)) (hij : i ≤ j) (hx : l[i]? = some x)
    (hy : l[j]? = some y) : y ≤ x := by
  obtain ⟨hi,rfl⟩ := List.getElem?_eq_some_iff.mp hx
  obtain ⟨hj,rfl⟩ := List.getElem?_eq_some_iff.mp hy
  rcases Nat.eq_or_lt_of_le hij with rfl | hlt
  · exact le_refl _
  · exact List.pairwise_iff_getElem.mp hl i j hi hj hlt

/-- The element at position `i` is the largest value that more than `i` elements reach. -/
theorem isGreatest_getElem (hl : l.Pairwise (· ≥ ·)) (hi : i < l.length) :
    IsGreatest {h | i < l.countP (h ≤ ·)} l[i] := by
  have hsp : ∀ (n : ℕ) (h : α), l.countP (h ≤ ·) =
      (l.take n).countP (h ≤ ·)+(l.drop n).countP (h ≤ ·) := by
    intro n h
    rw [← countP_append,take_append_drop]
  constructor
  · have hal : (l.take (i+1)).countP (l[i] ≤ ·) = (l.take (i+1)).length := by
      refine countP_eq_length.mpr fun x hx => ?_
      obtain ⟨j,hj,rfl⟩ := mem_take_iff_getElem.mp hx
      simpa using getElem?_antitone hl (by omega) (getElem?_eq_getElem (by omega))
        (getElem?_eq_getElem hi)
    have hln : (l.take (i+1)).length = i+1 := by simp [Nat.succ_le_of_lt hi]
    have hco := hsp (i+1) l[i]
    change i < _
    omega
  · intro h hh
    by_contra hlt
    have hno : (l.drop i).countP (h ≤ ·) = 0 := by
      refine countP_eq_zero.mpr fun x hx => ?_
      obtain ⟨j,hj,rfl⟩ := mem_drop_iff_getElem.mp hx
      have hle := getElem?_antitone hl (Nat.le_add_right i j) (getElem?_eq_getElem hi)
        (getElem?_eq_getElem (by omega))
      simpa using hle.trans_lt (not_le.mp hlt)
    have hf := (countP_le_length (p := fun x => decide (h ≤ x))).trans (length_take_le i l)
    have hco := hsp i h
    change i < _ at hh
    omega

omit [LinearOrder α] in
lemma exists_split_last (hs : s.Sublist l) (hne : s ≠ []) :
    ∃ before x after, l = before ++ x::after ∧ s.Sublist (before ++ [x]) ∧ x ∈ s := by
  induction hs with
  | slnil => exact absurd rfl hne
  | @cons s l a hs ih =>
    obtain ⟨before,x,after,rfl,hsu,hx⟩ := ih hne
    exact ⟨a::before,x,after,rfl,hsu.cons a,hx⟩
  | @cons_cons s l a hs ih =>
    by_cases he : s = []
    · subst he
      exact ⟨[],a,l,rfl,by simp,by simp⟩
    · obtain ⟨before,x,after,rfl,hsu,hx⟩ := ih he
      exact ⟨a::before,x,after,rfl,hsu.cons_cons a,mem_cons_of_mem _ hx⟩

omit [LinearOrder α] in
lemma getElem?_window {start : ℕ} (h : i < q) : (window l start q)[i]? = l[start+i]? := by
  simp [window,h]

lemma reverse_pairwise (hl : l.Pairwise (· ≤ ·)) : l.reverse.Pairwise (· ≥ ·) :=
  pairwise_reverse.mpr hl

lemma exists_window (hl : l.Pairwise (· ≤ ·)) (hs : s.Sublist l) (hq : 1 ≤ q)
    (hqs : q ≤ s.length) : ∃ start, start+q ≤ l.length ∧
      (∀ w ∈ window l start q, (∃ x ∈ s, x ≤ w) ∧ ∃ y ∈ s, w ≤ y) ∧
      ∀ m m', s[middle s.length]? = some m → (window l start q)[middle q]? = some m' → m ≤ m' := by
  have hne : s ≠ [] := by
    rintro rfl
    simp at hqs
    omega
  obtain ⟨before,x,after,rfl,hsb,hx⟩ := exists_split_last hs hne
  have hlo := hsb.length_le
  rw [List.length_append,List.length_singleton] at hlo
  have hso : (before ++ [x]).Pairwise (· ≤ ·) := by
    rw [List.append_cons] at hl
    exact (List.pairwise_append.mp hl).1
  have hla : ∀ w ∈ before ++ [x], w ≤ x := by
    intro w hw
    rcases List.mem_append.mp hw with hw | hw
    · exact (List.pairwise_append.mp hso).2.2 w hw x List.mem_cons_self
    · rw [List.mem_singleton.mp hw]
  set start := before.length+1 - q with hst
  -- The element `j` of the window is the element `q - 1 - j` from the end.
  have hwi : ∀ j, j < q → (window (before ++ x::after) start q)[j]? =
      (before ++ [x]).reverse[q - 1 - j]? := by
    intro j hj
    rw [getElem?_window hj,List.append_cons,List.getElem?_append_left (by simp; omega),
      List.getElem?_reverse (by simp; omega)]
    congr 1
    simp
    omega
  have hlg : ∀ j w, j < q → (window (before ++ x::after) start q)[j]? = some w →
      ∃ z, s.reverse[q - 1 - j]? = some z ∧ z ≤ w := by
    intro j w hj hw
    rw [hwi j hj] at hw
    have hlt : q - 1 - j < s.reverse.length := by
      rw [List.length_reverse]
      omega
    obtain ⟨y,hy,hle⟩ := getElem?_le_of_sublist (hsb.reverse) (reverse_pairwise hso)
      (List.getElem?_eq_getElem hlt)
    rw [hw] at hy
    cases hy
    exact ⟨_,List.getElem?_eq_getElem hlt,hle⟩
  refine ⟨start,by simp; omega,fun w hw => ?_,fun m m' hm hm' => ?_⟩
  · obtain ⟨j,hj⟩ := List.getElem?_of_mem hw
    have hjq : j < q := by
      have hlt := (List.getElem?_eq_some_iff.mp hj).1
      simp only [window,List.length_take] at hlt
      omega
    obtain ⟨z,hz,hle⟩ := hlg j w hjq hj
    have hme : w ∈ before ++ [x] := by
      rw [hwi j hjq] at hj
      exact List.mem_reverse.mp (List.mem_of_getElem? hj)
    exact ⟨⟨z,List.mem_reverse.mp (List.mem_of_getElem? hz),hle⟩,x,hx,hla w hme⟩
  · have hmi : middle q < q := by
      unfold middle
      omega
    obtain ⟨z,hz,hle⟩ := hlg _ m' hmi hm'
    have hlt := (List.getElem?_eq_some_iff.mp hm).1
    have hba : s.reverse[s.length - 1 - middle s.length]? = some m := by
      rw [List.getElem?_reverse (by omega),← hm]
      congr 1
      omega
    have hp : q - 1 - middle q ≤ s.length - 1 - middle s.length := by
      unfold middle
      omega
    have hsu := reverse_pairwise (hso.sublist hsb)
    exact (getElem?_antitone hsu hp hz hba).trans hle

end

end Ocrypt.OrderStatistics
