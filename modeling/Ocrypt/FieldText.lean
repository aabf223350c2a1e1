import Mathlib.Tactic

/-! Fields written one after the other, each as its key, a sign and its value, with a separator
between them. The text tells the fields apart if no value holds the separator, or if the lengths of
the values are known. -/
namespace Ocrypt.FieldText
open List

variable {α : Type*} {sep assign : α} {k k' v v' : List α} {fields fields' : List (List α × List α)}

def segment (assign : α) (field : List α × List α) : List α := field.1 ++ assign::field.2

def join (sep assign : α) (fields : List (List α × List α)) : List α :=
  [sep].intercalate (fields.map (segment assign))

lemma segment_inj (hk : assign ∉ k) (hk' : assign ∉ k')
    (h : segment assign (k,v) = segment assign (k',v')) : k = k' ∧ v = v' := by
  induction k generalizing k' with
  | nil =>
    cases k' with
    | nil => exact ⟨rfl,(List.cons.inj h).2⟩
    | cons c k' =>
      have hc : assign = c := (List.cons.inj h).1
      exact absurd (hc ▸ mem_cons_self) hk'
  | cons c k ih =>
    cases k' with
    | nil =>
      have hc : c = assign := (List.cons.inj h).1
      exact absurd (hc ▸ mem_cons_self) hk
    | cons c' k' =>
      obtain ⟨hc,hta⟩ := List.cons.inj h
      obtain ⟨hke,hva⟩ := ih (fun hm => hk (mem_cons_of_mem _ hm))
        (fun hm => hk' (mem_cons_of_mem _ hm)) hta
      exact ⟨by rw [hc,hke],hva⟩

/-- Nothing written in a field is taken for a separator, and no key holds the sign. -/
def Free (sep assign : α) (fields : List (List α × List α)) : Prop :=
  ∀ field ∈ fields, sep ∉ field.1 ∧ sep ∉ field.2 ∧ assign ∉ field.1

lemma not_mem_segment (hne : sep ≠ assign) (h : Free sep assign fields) :
    ∀ text ∈ fields.map (segment assign), sep ∉ text := by
  intro text hte
  obtain ⟨field,hf,rfl⟩ := mem_map.mp hte
  obtain ⟨hk,hv,-⟩ := h field hf
  simp [segment,hk,hv,hne]

lemma segments_inj (h : Free sep assign fields) (h' : Free sep assign fields')
    (heq : fields.map (segment assign) = fields'.map (segment assign)) : fields = fields' := by
  induction fields generalizing fields' with
  | nil => exact (map_eq_nil_iff.mp heq.symm).symm
  | cons field fields ih =>
    cases fields' with
    | nil => cases heq
    | cons field' fields' =>
      obtain ⟨hhe,hta⟩ := List.cons.inj heq
      obtain ⟨hk,hv⟩ := segment_inj (h field mem_cons_self).2.2
        (h' field' mem_cons_self).2.2 hhe
      have hr := ih (fun f hf => h f (mem_cons_of_mem _ hf))
        (fun f hf => h' f (mem_cons_of_mem _ hf)) hta
      rw [hr,Prod.ext hk hv]

lemma join_inj_of_free [BEq α] [LawfulBEq α] (hne : sep ≠ assign) (hf : fields ≠ [])
    (hf' : fields' ≠ []) (h : Free sep assign fields) (h' : Free sep assign fields')
    (heq : join sep assign fields = join sep assign fields') : fields = fields' := by
  have hsp := congrArg (splitOn sep) heq
  unfold join at hsp
  rw [splitOn_intercalate sep (not_mem_segment hne h) (by simpa using hf),
    splitOn_intercalate sep (not_mem_segment hne h') (by simpa using hf')] at hsp
  exact segments_inj h h' hsp

/-- Fields of the same keys, with values of the same lengths, are told by their text. -/
theorem join_inj_of_lengths (hk : fields.map Prod.fst = fields'.map Prod.fst)
    (hl : fields.map (fun f => f.2.length) = fields'.map (fun f => f.2.length))
    (heq : join sep assign fields = join sep assign fields') : fields = fields' := by
  induction fields generalizing fields' with
  | nil => exact (map_eq_nil_iff.mp hk.symm).symm
  | cons field fields ih =>
    cases fields' with
    | nil => cases hk
    | cons field' fields' =>
      obtain ⟨hke,hk⟩ := List.cons.inj hk
      obtain ⟨hle,hl⟩ := List.cons.inj hl
      have hsame : (segment assign field).length = (segment assign field').length := by
        simp [segment,hke,hle]
      have hfi : segment assign field = segment assign field' → field = field' := by
        intro hse
        unfold segment at hse
        rw [hke] at hse
        exact Prod.ext hke (List.cons.inj (append_cancel_left hse)).2
      cases fields with
      | nil =>
        obtain rfl : fields' = [] := map_eq_nil_iff.mp hk.symm
        simp only [join,map_cons,map_nil,intercalate_singleton] at heq
        rw [hfi heq]
      | cons next fields =>
        cases fields' with
        | nil => cases hk
        | cons next' fields' =>
          obtain ⟨hse,hr⟩ := append_inj heq hsame
          rw [hfi hse,ih hk hl (append_cancel_left hr)]

end Ocrypt.FieldText
