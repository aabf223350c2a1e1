import Ocrypt.Fallible

/-! Tables as lists of rows. An update rewrites the rows a predicate selects; the lemmas say
which rows a table holds after it and what it does to a sum over the rows. -/
namespace Ocrypt.Table
open List

variable {α β : Type*} {p q : α → Prop} [DecidablePred p] [DecidablePred q] {f : α → α}
  {rows : List α} {r : α} {κ : Type*} {rows' : List α} {R : α → β → Prop} {as : List α}
  {bs : List β} {ε : Type*}

/-- Rewrite by `f` the rows that satisfy `p`. -/
def update (p : α → Prop) [DecidablePred p] (f : α → α) (rows : List α) : List α :=
  rows.map fun r => if p r then f r else r

@[simp] lemma update_nil : update p f [] = [] := rfl

lemma update_cons : update p f (r::rows) = (if p r then f r else r)::update p f rows := rfl

lemma mem_update : r ∈ update p f rows ↔ ∃ s ∈ rows, (if p s then f s else s) = r :=
  mem_map

/-- A row of the updated table is an old row that was not selected, or the image of one
that was. -/
theorem mem_update_iff : r ∈ update p f rows ↔ (r ∈ rows ∧ ¬p r) ∨ ∃ s ∈ rows, p s ∧ f s = r := by
  rw [mem_update]
  constructor
  · rintro ⟨s,hs,rfl⟩
    by_cases h : p s
    · exact .inr ⟨s,hs,h,(if_pos h).symm⟩
    · rw [if_neg h]
      exact .inl ⟨hs,h⟩
  · rintro (⟨hr,h⟩ | ⟨s,hs,h,rfl⟩)
    · exact ⟨r,hr,if_neg h⟩
    · exact ⟨s,hs,if_pos h⟩

lemma update_eq_self (h : ∀ r ∈ rows, p r → f r = r) : update p f rows = rows := by
  unfold update
  conv_rhs => rw [← map_id rows]
  refine map_congr_left fun r hr => ?_
  split_ifs with hp
  · exact h r hr hp
  · rfl

lemma update_congr (h : ∀ r ∈ rows, (p r ↔ q r)) : update p f rows = update q f rows := by
  refine map_congr_left fun r hr => ?_
  simp [h r hr]

lemma update_update (hf : ∀ r, f (f r) = f r) :
    update q f (update p f rows) = update (fun r => p r ∨ q r) f rows := by
  unfold update
  rw [map_map]
  refine map_congr_left fun r _ => ?_
  by_cases hp : p r
  · simp [hp,hf]
  · simp [hp]

lemma map_update {g : α → β} (h : ∀ r ∈ rows, p r → g (f r) = g r) :
    (update p f rows).map g = rows.map g := by
  unfold update
  rw [map_map]
  refine map_congr_left fun r hr => ?_
  simp only [Function.comp]
  split_ifs with hp
  · exact h r hr hp
  · rfl

lemma mem_update_self (hr : r ∈ rows) (hp : p r) : f r ∈ update p f rows :=
  mem_update_iff.mpr (.inr ⟨r,hr,hp,rfl⟩)

lemma mem_update_of (hr : r ∈ rows) (hp : ¬p r) : r ∈ update p f rows :=
  mem_update_iff.mpr (.inl ⟨hr,hp⟩)

lemma exists_mem_update {Q : α → Prop} (hr : r ∈ rows) (hp : p r → Q (f r)) (hn : ¬p r → Q r) :
    ∃ s ∈ update p f rows, Q s := by
  by_cases h : p r
  · exact ⟨f r,mem_update_self hr h,hp h⟩
  · exact ⟨r,mem_update_of hr h,hn h⟩

lemma exists_update {g : α → β} {k : β} (h : ∀ r ∈ rows, p r → g (f r) = g r)
    (hk : ∃ r ∈ rows, g r = k) : ∃ r ∈ update p f rows, g r = k := by
  obtain ⟨r,hr,rfl⟩ := hk
  exact exists_mem_update hr (h r hr) fun _ => rfl

lemma forall_mem_update {P : α → Prop} (hn : ∀ r ∈ rows, ¬p r → P r)
    (hp : ∀ r ∈ rows, p r → P (f r)) : ∀ r ∈ update p f rows, P r := by
  intro r hr
  rcases mem_update_iff.mp hr with ⟨hr,hr'⟩ | ⟨s,hs,hs',rfl⟩
  · exact hn r hr hr'
  · exact hp s hs hs'

lemma forall_update {P : α → Prop} (hro : ∀ r ∈ rows, P r)
    (h : ∀ r ∈ rows, p r → P r → P (f r)) : ∀ r ∈ update p f rows, P r :=
  forall_mem_update (fun r hr _ => hro r hr) fun r hr hp => h r hr hp (hro r hr)

lemma of_mem_update {P : α → Prop} (hr : r ∈ update p f rows) (h : ∀ s ∈ rows, P s)
    (hf : ∀ s, P s → P (f s)) : P r :=
  forall_update h (fun s _ _ => hf s) r hr

lemma sum_update {M : Type*} [AddCommMonoid M] (g : α → M) :
    ((update p f rows).map g).sum = (rows.map fun r => if p r then g (f r) else g r).sum := by
  unfold update
  rw [map_map]
  congr 1
  refine map_congr_left fun r _ => ?_
  simp only [Function.comp]
  split_ifs <;> rfl

/-- The first row with a property, in the updated table: enough that the update neither
creates nor removes the property and leaves its witness alone. -/
theorem find?_update {q : α → Bool} (h : ∀ r ∈ rows, p r → q (f r) = q r) :
    (update p f rows).find? q = (rows.find? q).map fun r => if p r then f r else r := by
  induction rows with
  | nil => rfl
  | cons r rows ih =>
    have hr := h r mem_cons_self
    have ih := ih fun s hs => h s (mem_cons_of_mem r hs)
    have hq : q (if p r then f r else r) = q r := by
      split_ifs with hp
      · exact hr hp
      · rfl
    rw [update_cons,find?_cons,find?_cons,hq,ih]
    cases q r <;> rfl

lemma find?_same_keys {key : α → κ} (h : rows'.map key = rows.map key) (q : κ → Bool) :
    (rows'.find? (q ∘ key)).map key = (rows.find? (q ∘ key)).map key := by
  rw [← find?_map,← find?_map,h]

lemma mem_of_find? (h : rows.find? (fun r => decide (p r)) = some r) : r ∈ rows ∧ p r := by
  have hp := find?_some h
  exact ⟨mem_of_find?_eq_some h,by simpa using hp⟩

lemma find?_unique (hr : r ∈ rows) (hp : p r) (ho : ∀ s ∈ rows, p s → s = r) :
    rows.find? (fun s => decide (p s)) = some r := by
  cases hf : rows.find? (fun s => decide (p s)) with
  | none => exact absurd (decide_eq_true hp) (find?_eq_none.mp hf r hr)
  | some s =>
    obtain ⟨hs,hps⟩ := mem_of_find? hf
    rw [ho s hs hps]

lemma mem_snoc {s : α} : s ∈ rows ++ [r] ↔ s ∈ rows ∨ s = r := by
  rw [mem_append,mem_singleton]

lemma forall_snoc {P : α → Prop} (hro : ∀ s ∈ rows, P s) (hr : P r) : ∀ s ∈ rows ++ [r], P s := by
  intro s hs
  rcases mem_snoc.mp hs with hs | rfl
  · exact hro s hs
  · exact hr

lemma nodup_map_append {key : α → β} (h : (rows.map key).Nodup) (hn : ∀ s ∈ rows, key s ≠ key r) :
    ((rows ++ [r]).map key).Nodup := by
  rw [map_append,nodup_append]
  refine ⟨h,nodup_singleton _,fun i hi j hj => ?_⟩
  obtain ⟨s,hs,rfl⟩ := mem_map.mp hi
  rw [mem_singleton.mp hj]
  exact hn s hs

section
variable {key : α → κ} (h : (rows.map key).Nodup) (hr : r ∈ rows)
include h hr

lemma filter_key [DecidableEq κ] : rows.filter (fun s => key s = key r) = [r] := by
  induction rows with
  | nil => cases hr
  | cons s rows ih =>
    obtain ⟨hno,hre⟩ := nodup_cons.mp h
    rcases mem_cons.mp hr with rfl | hr
    · have hn : rows.filter (fun s => key s = key r) = [] := by
        rw [filter_eq_nil_iff]
        intro t ht
        simp only [decide_eq_true_eq]
        intro hk
        exact hno (hk ▸ mem_map_of_mem ht)
      simp [hn]
    · have hne : key s ≠ key r := fun hk => hno (hk ▸ mem_map_of_mem hr)
      simp [hne,ih hre hr]

lemma find?_key [DecidableEq κ] : rows.find? (fun s => key s = key r) = some r := by
  rw [← head?_filter,filter_key h hr]
  rfl

lemma countP_key [DecidableEq κ] (hp : p r) (hk : ∀ s ∈ rows, p s → key s = key r) : rows.countP p = 1 := by
  have hf : rows.filter p = (rows.filter fun s => key s = key r).filter p := by
    rw [filter_filter]
    refine filter_congr fun s hs => ?_
    by_cases hps : p s
    · simp [hk s hs hps]
    · simp [hps]
  rw [countP_eq_length_filter,hf,filter_key h hr]
  simp [hp]

end

lemma filter_eq_singleton (ho : rows.countP p ≤ 1) (hr : r ∈ rows) (hp : p r) :
    rows.filter p = [r] := by
  have hm : r ∈ rows.filter p := mem_filter.mpr ⟨hr,by simpa using hp⟩
  rw [countP_eq_length_filter] at ho
  obtain ⟨s,hs⟩ := length_eq_one_iff.mp (le_antisymm ho (length_pos_of_mem hm))
  rw [hs,mem_singleton] at hm
  rw [hs,hm]

lemma eq_of_countP_le_one {s : α} (ho : rows.countP p ≤ 1) (hr : r ∈ rows) (hp : p r)
    (hs : s ∈ rows) (hps : p s) : s = r := by
  have hm : s ∈ rows.filter p := mem_filter.mpr ⟨hs,by simpa using hps⟩
  rw [filter_eq_singleton ho hr hp] at hm
  exact mem_singleton.mp hm

/-- An update after which no other rows meet a condition does not raise their number. -/
theorem countP_update_le (h : ∀ r ∈ rows, p r → q (f r) → q r) :
    (update p f rows).countP q ≤ rows.countP q := by
  unfold update
  rw [countP_map]
  refine countP_mono_left fun r hr hq => decide_eq_true ?_
  simp only [Function.comp_apply,decide_eq_true_eq] at hq
  split_ifs at hq with hp
  · exact h r hr hp hq
  · exact hq

lemma sum_update_le {g : α → ℕ} {c : ℕ} (h : ∀ r ∈ rows, p r → g (f r) ≤ g r+c) :
    ((update p f rows).map g).sum ≤ (rows.map g).sum+rows.countP p*c := by
  induction rows with
  | nil => simp
  | cons r rows ih =>
    have hr := h r mem_cons_self
    have ih := ih fun s hs => h s (mem_cons_of_mem r hs)
    simp only [update_cons,map_cons,sum_cons,countP_cons]
    by_cases hp : p r
    · have hfi := hr hp
      simp only [hp,if_true,decide_true]
      rw [Nat.add_mul]
      omega
    · simp only [hp,if_false,decide_false,Bool.false_eq_true,Nat.add_zero]
      omega

lemma forall₂_map_of_mem {γ δ : Type*} {S : γ → δ → Prop} {g : α → γ} {k : β → δ} (h : List.Forall₂ R as bs)
    (hst : ∀ a ∈ as, ∀ b ∈ bs, R a b → S (g a) (k b)) : List.Forall₂ S (as.map g) (bs.map k) := by
  induction h with
  | nil => exact .nil
  | @cons a b as bs hab hre ih =>
    refine .cons (hst a mem_cons_self b mem_cons_self hab) (ih ?_)
    intro x hx y hy
    exact hst x (mem_cons_of_mem a hx) y (mem_cons_of_mem b hy)

lemma exists_of_forall₂ (h : List.Forall₂ R as bs) {b : β} (hb : b ∈ bs) : ∃ a ∈ as, R a b := by
  induction h with
  | nil => cases hb
  | @cons a c as bs hac hre ih =>
    rcases mem_cons.mp hb with rfl | hb
    · exact ⟨a,mem_cons_self,hac⟩
    · obtain ⟨a',ha',hab⟩ := ih hb
      exact ⟨a',mem_cons_of_mem a ha',hab⟩

/-- An update that must select exactly one row, failing with `e` otherwise. -/
def updateOne {ε : Type*} (p : α → Prop) [DecidablePred p] (f : α → α) (e : ε) (rows : List α) :
    Except ε (List α) :=
  if rows.countP p = 1 then .ok (update p f rows) else .error e

lemma updateOne_eq_ok {e : ε} :
    updateOne p f e rows = .ok rows' ↔ rows.countP p = 1 ∧ update p f rows = rows' := by
  unfold updateOne
  split_ifs with h <;> simp [h]

lemma updateOne_eq_error {e e' : ε} (h : updateOne p f e rows = .error e') : e = e' := by
  unfold updateOne at h
  split_ifs at h
  simpa using h

def insertUnique {ε : Type*} (conflicts : α → Prop) [DecidablePred conflicts] (r : α) (e : ε)
    (rows : List α) : Except ε (List α) :=
  if ∃ s ∈ rows, conflicts s then .error e else .ok (rows ++ [r])

lemma insertUnique_eq_ok {e : ε} :
    insertUnique p r e rows = .ok rows' ↔ (∀ s ∈ rows, ¬p s) ∧ rows ++ [r] = rows' := by
  unfold insertUnique
  split_ifs with h
  · obtain ⟨s,hs,hp⟩ := h
    have hno : ¬((∀ s ∈ rows, ¬p s) ∧ rows ++ [r] = rows') := fun hal => hal.1 s hs hp
    simp [hno]
  · have hal := fun s hs hp => h ⟨s,hs,hp⟩
    rw [Except.ok.injEq]
    exact (and_iff_right hal).symm

lemma exists_insertUnique {e : ε} {q : List α → Prop} :
    (∃ rows', insertUnique p r e rows = .ok rows' ∧ q rows') ↔ (∀ s ∈ rows, ¬p s) ∧ q (rows ++ [r]) := by
  simp only [insertUnique_eq_ok,and_assoc,exists_and_left,exists_eq_left']

lemma insertUnique_eq_error {e e' : ε} (h : insertUnique p r e rows = .error e') : e = e' := by
  unfold insertUnique at h
  split_ifs at h
  simpa using h

end Ocrypt.Table
