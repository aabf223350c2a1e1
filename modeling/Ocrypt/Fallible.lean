import Mathlib.Data.String.Basic
import Mathlib.Tactic

/-! Fallible computations in `Except`: a guard, and what a successful run of a
sequence of guarded steps says about each of its steps. -/
namespace Ocrypt.Fallible
open List

variable {ε α β : Type*} {e : ε} {c : Prop} {step : α → β → Except ε α} {xs : List β} {s t : α}

/-- Continue when `c` holds, stop with `e` otherwise. -/
def require (c : Prop) [Decidable c] (e : ε) : Except ε Unit :=
  if c then .ok () else .error e

@[simp] lemma require_eq_ok [Decidable c] {u : Unit} : require c e = .ok u ↔ c := by
  unfold require
  split_ifs with h <;> simp [h]

@[simp] lemma require_eq_error [Decidable c] {e e' : ε} :
    require c e = .error e' ↔ ¬c ∧ e = e' := by
  unfold require
  split_ifs with h <;> simp [h]

lemma require_pos [Decidable c] (h : c) : require c e = .ok () :=
  require_eq_ok.mpr h

lemma bind_eq_ok {α β : Type*} {x : Except ε α} {f : α → Except ε β} {b : β} :
    Except.bind x f = .ok b ↔ ∃ a, x = .ok a ∧ f a = .ok b := by
  cases x <;> simp [Except.bind]

@[simp] lemma do_eq_ok {α β : Type} {x : Except ε α} {f : α → Except ε β} {b : β} :
    (x >>= f) = .ok b ↔ ∃ a, x = .ok a ∧ f a = .ok b :=
  bind_eq_ok

/-- A guard at the head of a sequence of steps. -/
lemma exists_require [Decidable c] {p : Unit → Prop} :
    (∃ u, require c e = .ok u ∧ p u) ↔ c ∧ p () := by
  simp [show (∃ u, p u) ↔ p () from ⟨fun ⟨_,h⟩ => h,fun h => ⟨_,h⟩⟩]

lemma do_eq_error {α β : Type} {x : Except ε α} {f : α → Except ε β} :
    (x >>= f) = .error e ↔ x = .error e ∨ ∃ a, x = .ok a ∧ f a = .error e := by
  cases x <;> simp [Bind.bind,Except.bind]

@[simp] lemma pure_eq_ok {α : Type} {a b : α} : (pure a : Except ε α) = .ok b ↔ a = b := by
  simp [pure,Except.pure]

/-- What the steps of a successful run are: a bind, a guard and a final `pure` at once. -/
lemma do_ok : (∀ {α β : Type} {x : Except ε α} {f : α → Except ε β} {b : β},
      (x >>= f) = .ok b ↔ ∃ a, x = .ok a ∧ f a = .ok b) ∧
    (∀ {c : Prop} [Decidable c] {e : ε} {p : Unit → Prop},
      (∃ u, require c e = .ok u ∧ p u) ↔ c ∧ p ()) ∧
    ∀ {α : Type} {a b : α}, (pure a : Except ε α) = .ok b ↔ a = b :=
  ⟨do_eq_ok,exists_require,pure_eq_ok⟩

@[simp] lemma map_eq_ok {α β : Type} {x : Except ε α} {f : α → β} {b : β} :
    (f <$> x) = .ok b ↔ ∃ a, x = .ok a ∧ f a = b := by
  cases x <;> simp [Functor.map,Except.map]

@[simp] lemma ok_bind {α β : Type} {a : α} {f : α → Except ε β} :
    ((Except.ok a : Except ε α) >>= f) = f a := rfl

lemma toOption_bind {α β : Type} {x : Except ε α} {f : α → Except ε β} :
    (x >>= f).toOption = x.toOption.bind fun a => (f a).toOption := by
  cases x <;> rfl

@[simp] lemma exists_unit_ok {x : Except ε Unit} : (∃ u : Unit, x = .ok u) ↔ x = .ok () :=
  ⟨fun ⟨(),h⟩ => h,fun h => ⟨(),h⟩⟩

/-- A property of the result of a successful run can be checked by running it. -/
instance decidableExistsOk {x : Except ε α} {P : α → Prop} [DecidablePred P] :
    Decidable (∃ a, x = .ok a ∧ P a) :=
  match x with
  | .ok a => decidable_of_iff (P a) (by simp)
  | .error _ => .isFalse (by simp)

instance decidableEqError [DecidableEq ε] {x : Except ε α} {e : ε} : Decidable (x = .error e) :=
  match x with
  | .ok _ => .isFalse (by simp)
  | .error e' => decidable_of_iff (e' = e) (by simp)

/-- Read an optional value, stopping with `e` when there is none. -/
def orFail (x : Option α) (e : ε) : Except ε α :=
  match x with
  | some a => .ok a
  | none => .error e

@[simp] lemma orFail_eq_ok {x : Option α} {a : α} : orFail x e = .ok a ↔ x = some a := by
  cases x <;> simp [orFail]

/-- Run a fallible step over a list from left to right, threading a state and
stopping at the first failure. -/
def traverse (step : α → β → Except ε α) : List β → α → Except ε α
  | [], s => .ok s
  | x::xs, s => (step s x).bind (traverse step xs)

@[simp] lemma traverse_nil (step : α → β → Except ε α) (s : α) : traverse step [] s = .ok s := rfl

lemma traverse_cons_eq_ok {x : β} :
    traverse step (x::xs) s = .ok t ↔ ∃ m, step s x = .ok m ∧ traverse step xs m = .ok t :=
  bind_eq_ok

lemma exists_of_traverse_eq_error {s : α}
    (h : traverse step xs s = .error e) : ∃ t, ∃ x ∈ xs, step t x = .error e := by
  induction xs generalizing s with
  | nil => cases h
  | cons x xs ih =>
    cases hst : step s x with
    | error e' =>
      simp only [traverse,hst] at h
      exact ⟨s,x,mem_cons_self,h ▸ hst⟩
    | ok m =>
      simp only [traverse,hst] at h
      obtain ⟨t,y,hy,hf⟩ := ih h
      exact ⟨t,y,mem_cons_of_mem x hy,hf⟩

lemma traverse_append_eq_ok {xs ys : List β} : traverse step (xs ++ ys) s = .ok t ↔
      ∃ m, traverse step xs s = .ok m ∧ traverse step ys m = .ok t := by
  induction xs generalizing s with
  | nil => simp
  | cons x xs ih =>
    simp only [cons_append,traverse_cons_eq_ok,ih]
    constructor
    · rintro ⟨m,hm,n,hn,ht⟩
      exact ⟨n,⟨m,hm,hn⟩,ht⟩
    · rintro ⟨n,⟨m,hm,hn⟩,ht⟩
      exact ⟨m,hm,n,hn,ht⟩

/-- Invariant rule for a traversal: what each successful step keeps, a successful
run keeps. The step may use that its element is one of the list. -/
theorem traverse_invariant {P : α → Prop} (hst : ∀ s x t, x ∈ xs → P s → step s x = .ok t → P t)
    (hs : P s) (h : traverse step xs s = .ok t) : P t := by
  induction xs generalizing s with
  | nil =>
    cases h
    exact hs
  | cons x xs ih =>
    obtain ⟨m,hm,hr⟩ := traverse_cons_eq_ok.mp h
    have hPm := hst s x m mem_cons_self hs hm
    exact ih (fun s y t hy => hst s y t (mem_cons_of_mem x hy)) hPm hr

/-- What a run is computed to give, extended by what follows from it. -/
lemma exists_and_and_of {p q r : α → Prop} (h : ∃ a, p a ∧ q a) (hr : ∀ a, p a → q a → r a) :
    ∃ a, p a ∧ q a ∧ r a :=
  h.imp fun a ha => ⟨ha.1,ha.2,hr a ha.1 ha.2⟩

end Ocrypt.Fallible
