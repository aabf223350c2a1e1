import Mathlib.Tactic
import Mathlib.Data.List.Perm.Basic

/-! Agreement of a quorum among answers that arrive one after the other. Answers with one key form
a class; the first class with enough answers decides, with what its answers so far amount to. -/
namespace Ocrypt.QuorumAgreement
open List

variable {α κ : Type*} [DecidableEq κ]

/-- The answers of a class, in the order of their arrival. An answer without a key is in none. -/
def classOf (key : α → Option κ) (k : κ) (xs : List α) : List α :=
  xs.filter fun x => key x = some k

def merged (merge : α → α → α) : List α → Option α
  | [] => none
  | x::xs => some (xs.foldl merge x)

abbrev Classes (α κ : Type*) := κ → Option (ℕ × α)

def joined (merge : α → α → α) (x : α) : Option (ℕ × α) → ℕ × α
  | none => (1,x)
  | some (n,y) => (n+1,merge y x)

def tally (key : α → Option κ) (merge : α → α → α) (quorum : ℕ) : Classes α κ → List α → Option α
  | _, [] => none
  | classes, x::xs =>
    match key x with
    | none => tally key merge quorum classes xs
    | some k =>
      let c := joined merge x (classes k)
      if quorum ≤ c.1 then some c.2
      else tally key merge quorum (Function.update classes k (some c)) xs

section
variable {key : α → Option κ} {k : κ} {x : α} {xs ys : List α}

lemma classOf_append : classOf key k (xs ++ ys) = classOf key k xs ++ classOf key k ys :=
  filter_append ..

lemma classOf_snoc : classOf key k (xs ++ [x]) =
    if key x = some k then classOf key k xs ++ [x] else classOf key k xs := by
  split_ifs with h <;> simp [classOf,h]

lemma mem_classOf : x ∈ classOf key k xs ↔ x ∈ xs ∧ key x = some k := by
  simp [classOf]

lemma length_classOf_perm (h : xs.Perm ys) :
    (classOf key k xs).length = (classOf key k ys).length :=
  (h.filter _).length_eq

lemma length_classOf_add_le {l : κ} (hne : k ≠ l) :
    (classOf key k xs).length+(classOf key l xs).length ≤ xs.length := by
  induction xs with
  | nil => simp [classOf]
  | cons x xs ih =>
    unfold classOf at ih ⊢
    rw [filter_cons,filter_cons]
    by_cases hk : key x = some k
    · have hl : key x ≠ some l := by
        rw [hk]
        simpa using hne
      simp only [hk,decide_true,if_true,length_cons,Option.some.injEq,hne,decide_false,
        Bool.false_eq_true,if_false]
      omega
    · by_cases hl : key x = some l
      · simp only [hl,Option.some.injEq,hne.symm,decide_false,Bool.false_eq_true,if_false,
          decide_true,if_true,length_cons]
        omega
      · simp only [hk,hl,decide_false,Bool.false_eq_true,if_false,length_cons]
        omega

end

section
variable {key : α → Option κ} {merge : α → α → α} {quorum : ℕ} {x y : α} {xs before : List α}
  {classes : Classes α κ} {k : κ}

def record (merge : α → α → α) (c : List α) : Option (ℕ × α) :=
  (merged merge c).map fun y => (c.length,y)

lemma record_snoc (c : List α) : record merge (c ++ [x]) = some (joined merge x (record merge c)) := by
  cases c with
  | nil => rfl
  | cons y ys => simp [record,merged,joined]

/-- The classes after some answers, none of which is large enough yet. -/
structure Open (key : α → Option κ) (merge : α → α → α) (quorum : ℕ) (before : List α)
    (classes : Classes α κ) : Prop where
  records : ∀ k, classes k = record merge (classOf key k before)
  small : ∀ k, (classOf key k before).length < quorum

lemma Open.empty (key : α → Option κ) (merge : α → α → α) (h : 1 ≤ quorum) :
    Open key merge quorum [] fun _ => none := ⟨fun _ => rfl,fun _ => h⟩

section
variable (h : Open key merge quorum before classes)
include h

lemma Open.skip (hke : key x = none) : Open key merge quorum (before ++ [x]) classes := by
  have hsame : ∀ k, classOf key k (before ++ [x]) = classOf key k before := by
    intro k
    rw [classOf_snoc,if_neg (by simp [hke])]
  refine ⟨fun k => ?_,fun k => ?_⟩
  · rw [hsame]
    exact h.records k
  · rw [hsame]
    exact h.small k

lemma Open.joined_eq (hke : key x = some k) :
    some (joined merge x (classes k)) = record merge (classOf key k (before ++ [x])) := by
  rw [classOf_snoc,if_pos hke,record_snoc,h.records]

lemma Open.joined_fst (hke : key x = some k) :
    (joined merge x (classes k)).1 = (classOf key k (before ++ [x])).length := by
  have hj := h.joined_eq hke
  obtain ⟨y,-,hy⟩ := Option.map_eq_some_iff.mp hj.symm
  rw [← hy]

lemma Open.join (hke : key x = some k)
    (hsm : ¬quorum ≤ (joined merge x (classes k)).1) : Open key merge quorum (before ++ [x])
      (Function.update classes k (some (joined merge x (classes k)))) := by
  have ho : ∀ l, l ≠ k → classOf key l (before ++ [x]) = classOf key l before := by
    intro l hl
    rw [classOf_snoc]
    rw [hke]
    simpa using hl.symm
  refine ⟨fun l => ?_,fun l => ?_⟩
  · by_cases hl : l = k
    · subst hl
      rw [Function.update_self,h.joined_eq hke]
    · rw [Function.update_of_ne hl,ho l hl]
      exact h.records l
  · by_cases hl : l = k
    · subst hl
      rw [h.joined_fst hke] at hsm
      omega
    · rw [ho l hl]
      exact h.small l

lemma tally_eq_none : tally key merge quorum classes xs = none ↔
      ∀ k, (classOf key k (before ++ xs)).length < quorum := by
  induction xs generalizing before classes with
  | nil => simpa [tally] using h.small
  | cons x xs ih =>
    rw [append_cons]
    cases hke : key x with
    | none =>
      simp only [tally,hke]
      exact ih (h.skip hke)
    | some k =>
      simp only [tally,hke]
      split_ifs with hl
      · rw [h.joined_fst hke] at hl
        have hm : classOf key k (before ++ [x] ++ xs) =
            classOf key k (before ++ [x]) ++ classOf key k xs := classOf_append
        simp only [false_iff,not_forall]
        refine ⟨k,?_⟩
        rw [hm,length_append]
        omega
      · exact ih (h.join hke hl)

/-- What decides: the answer with which a class becomes large enough, when none was before. -/
theorem tally_eq_some (hta : tally key merge quorum classes xs = some y) :
    ∃ as x bs k, xs = as ++ x::bs ∧ key x = some k ∧
      (∀ l, (classOf key l (before ++ as)).length < quorum) ∧
      quorum ≤ (classOf key k (before ++ as ++ [x])).length ∧
      merged merge (classOf key k (before ++ as ++ [x])) = some y := by
  induction xs generalizing before classes with
  | nil => simp [tally] at hta
  | cons x xs ih =>
    cases hke : key x with
    | none =>
      simp only [tally,hke] at hta
      obtain ⟨as,z,bs,k,rfl,hz,hsm,hla,hm⟩ := ih (h.skip hke) hta
      refine ⟨x::as,z,bs,k,rfl,hz,?_⟩
      rw [append_cons]
      exact ⟨hsm,hla,hm⟩
    | some k =>
      simp only [tally,hke] at hta
      split_ifs at hta with hla
      · have hj := h.joined_eq hke
        obtain ⟨z,hz,hr⟩ := Option.map_eq_some_iff.mp hj.symm
        rw [← hr] at hta hla
        cases hta
        refine ⟨[],x,xs,k,rfl,hke,?_⟩
        rw [append_nil]
        exact ⟨h.small,hla,hz⟩
      · obtain ⟨as,z,bs,l,rfl,hz,hsm,hla',hm⟩ := ih (h.join hke hla) hta
        refine ⟨x::as,z,bs,l,rfl,hz,?_⟩
        rw [append_cons]
        exact ⟨hsm,hla',hm⟩

end

lemma tally_isSome_perm {ys : List α} (hq : 1 ≤ quorum) (hp : xs.Perm ys) :
    (tally key merge quorum (fun _ => none) xs).isSome =
      (tally key merge quorum (fun _ => none) ys).isSome := by
  have hn : tally key merge quorum (fun _ => none) xs = none ↔
      tally key merge quorum (fun _ => none) ys = none := by
    rw [tally_eq_none (Open.empty key merge hq),tally_eq_none (Open.empty key merge hq)]
    refine forall_congr' fun k => ?_
    rw [nil_append,nil_append,length_classOf_perm hp]
  rw [Bool.eq_iff_iff,Option.isSome_iff_ne_none,Option.isSome_iff_ne_none]
  exact not_congr hn

end

section
variable {ν : Type*} {view : α → ν} {merge : α → α → α} {y : α} {c : List α}

lemma view_merged (hm : ∀ x y, view (merge x y) = view x)
    (h : merged merge c = some y) : ∃ x, c.head? = some x ∧ view y = view x := by
  cases c with
  | nil => cases h
  | cons x xs =>
    cases h
    refine ⟨x,rfl,?_⟩
    induction xs generalizing x with
    | nil => rfl
    | cons z zs ih => exact (ih (merge x z)).trans (hm x z)

lemma least_merged {β : Type*} [LinearOrder β] {f : α → β} {v : ν}
    (hk : ∀ x y, view (merge x y) = view x)
    (hm : ∀ x y, view x = v → view y = v → f (merge x y) = min (f x) (f y))
    (hvi : ∀ x ∈ c, view x = v) (h : merged merge c = some y) :
    (∃ x ∈ c, f y = f x) ∧ ∀ x ∈ c, f y ≤ f x := by
  cases c with
  | nil => cases h
  | cons x xs =>
    cases h
    induction xs generalizing x with
    | nil => simp
    | cons z zs ih =>
      have hx := hvi x mem_cons_self
      have hz := hvi z (mem_cons_of_mem _ mem_cons_self)
      have hfi := hm x z hx hz
      obtain ⟨⟨w,hw,hfw⟩,hle⟩ := ih (merge x z) fun w hw => by
        rcases mem_cons.mp hw with rfl | hw
        · exact (hk x z).trans hx
        · exact hvi w (mem_cons_of_mem _ (mem_cons_of_mem _ hw))
      have hmi := hle (merge x z) mem_cons_self
      rw [hfi] at hmi
      refine ⟨?_,fun u hu => ?_⟩
      · rcases mem_cons.mp hw with rfl | hw
        · rw [hfi] at hfw
          rcases min_choice (f x) (f z) with hmi | hmi
          · exact ⟨x,by simp,hfw.trans hmi⟩
          · exact ⟨z,by simp,hfw.trans hmi⟩
        · exact ⟨w,by simp [hw],hfw⟩
      · rcases mem_cons.mp hu with rfl | hu
        · exact hmi.trans (min_le_left _ _)
        rcases mem_cons.mp hu with rfl | hu
        · exact hmi.trans (min_le_right _ _)
        · exact hle u (mem_cons_of_mem _ hu)

end

end Ocrypt.QuorumAgreement
