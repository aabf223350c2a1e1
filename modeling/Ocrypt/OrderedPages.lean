import Mathlib.Tactic

/-! The first page of an ordered query, ORDER BY with LIMIT: a row is on it exactly when fewer rows
than the limit come before it. -/
namespace Ocrypt.OrderedPages
open List

variable {α : Type*} {le : α → α → Bool} {rows : List α} {r s : α} {n : ℕ}

/-- `s` comes before `r` and not the other way round. -/
def before (le : α → α → Bool) (r s : α) : Bool := le s r && !le r s

lemma mem_take_iff_of_pairwise (hso : rows.Pairwise fun a b => le a b)
    (hno : rows.Nodup) (han : ∀ a ∈ rows, ∀ b ∈ rows, le a b → le b a → a = b)
    (hr : r ∈ rows) : r ∈ rows.take n ↔ rows.countP (before le r) < n := by
  induction rows generalizing n with
  | nil => cases hr
  | cons a rows ih =>
    obtain ⟨hf,hso⟩ := pairwise_cons.mp hso
    obtain ⟨hnw,hno⟩ := nodup_cons.mp hno
    have han' := fun b hb c hc =>
      han b (mem_cons_of_mem a hb) c (mem_cons_of_mem a hc)
    cases n with
    | zero => simp
    | succ n =>
      rw [take_succ_cons,mem_cons,countP_cons]
      rcases mem_cons.mp hr with rfl | hr
      · -- nothing of a sorted list comes before its first element
        have hnn : rows.countP (before le r) = 0 := by
          rw [countP_eq_zero]
          intro s hs
          simp [before,hf s hs]
        simp [hnn,before]
      · have hne : r ≠ a := fun h => hnw (h ▸ hr)
        have hnt : le r a = false := by
          by_contra h
          have hra : le r a = true := by simpa using h
          exact hne (han r (mem_cons_of_mem a hr) a mem_cons_self hra (hf r hr))
        have hbe : before le r a = true := by simp [before,hf r hr,hnt]
        rw [ih hso hno han' hr,hbe]
        simp [hne]

lemma mem_page_iff (htr : ∀ a b c, le a b → le b c → le a c)
    (hto : ∀ a b, (le a b || le b a) = true) (hno : rows.Nodup)
    (han : ∀ a ∈ rows, ∀ b ∈ rows, le a b → le b a → a = b) (hr : r ∈ rows) :
    r ∈ (rows.mergeSort le).take n ↔ rows.countP (before le r) < n := by
  have hp := mergeSort_perm rows le
  rw [← hp.countP_eq]
  apply mem_take_iff_of_pairwise (pairwise_mergeSort htr hto rows)
  · exact hp.nodup_iff.mpr hno
  · exact fun a ha b hb => han a (hp.mem_iff.mp ha) b (hp.mem_iff.mp hb)
  · exact hp.mem_iff.mpr hr

end Ocrypt.OrderedPages
