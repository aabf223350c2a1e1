import Mathlib.Tactic
import Mathlib.Algebra.BigOperators.Group.List.Basic

/-! Greedy filling: an amount is poured into a list of capacities from left to right. -/
namespace Ocrypt.GreedyFill

def fill : ℕ → List ℕ → List ℕ
  | _, [] => []
  | remaining, c::cs => min c remaining::fill (remaining - c) cs

@[simp] lemma fill_nil (remaining : ℕ) : fill remaining [] = [] := rfl

@[simp] lemma fill_cons (remaining c : ℕ) (cs : List ℕ) :
    fill remaining (c::cs) = min c remaining::fill (remaining - c) cs := rfl

lemma sum_fill (remaining : ℕ) (cs : List ℕ) : (fill remaining cs).sum = min remaining cs.sum := by
  induction cs generalizing remaining with
  | nil => simp
  | cons c cs ih =>
    rw [fill_cons,List.sum_cons,List.sum_cons,ih]
    omega

end Ocrypt.GreedyFill
