import Mathlib.Tactic

/-! Runs of atomic transactions. A transaction either commits a new state or aborts and
leaves the old one; a run is a sequence of them in any order. -/
namespace Ocrypt.Transactions

variable {σ α ε : Type*} {exec : σ → α → Except ε σ} {s t : σ} {a : α} {as : List α}

def commit (exec : σ → α → Except ε σ) (s : σ) (a : α) : σ :=
  match exec s a with
  | .ok t => t
  | .error _ => s

lemma commit_of_ok (h : exec s a = .ok t) : commit exec s a = t := by
  simp [commit,h]

lemma commit_of_not_ok (h : ∀ t, exec s a ≠ .ok t) : commit exec s a = s := by
  unfold commit
  split
  · rename_i t ht
    exact absurd ht (h t)
  · rfl

def run (exec : σ → α → Except ε σ) (s : σ) (as : List α) : σ :=
  as.foldl (commit exec) s

@[simp] lemma run_nil : run exec s [] = s := rfl

@[simp] lemma run_cons : run exec s (a::as) = run exec (commit exec s a) as := rfl

/-- Every transaction of the sequence meets `C` in the state that it finds. -/
def Along (exec : σ → α → Except ε σ) (C : σ → α → Prop) : σ → List α → Prop
  | _, [] => True
  | s, a::as => C s a ∧ Along exec C (commit exec s a) as

variable {C D : σ → α → Prop} {P : σ → Prop}

lemma along_of_forall (h : ∀ a ∈ as, ∀ s, C s a) : Along exec C s as := by
  induction as generalizing s with
  | nil => trivial
  | cons a as ih =>
    exact ⟨h a List.mem_cons_self s,ih fun b hb => h b (List.mem_cons_of_mem a hb)⟩

lemma Along.and (hC : Along exec C s as) (hD : Along exec D s as) :
    Along exec (fun s a => C s a ∧ D s a) s as := by
  induction as generalizing s with
  | nil => trivial
  | cons a as ih => exact ⟨⟨hC.1,hD.1⟩,ih hC.2 hD.2⟩

/-- Invariant rule: what every committed transaction that meets its condition keeps, holds
in every state that a run of such transactions reaches. -/
theorem run_invariant (hst : ∀ s a t, P s → C s a → exec s a = .ok t → P t)
    (hs : P s) (h : Along exec C s as) : P (run exec s as) := by
  induction as generalizing s with
  | nil => exact hs
  | cons a as ih =>
    obtain ⟨ha,has⟩ := h
    refine ih ?_ has
    unfold commit
    cases hee : exec s a with
    | ok t => exact hst s a t hs ha hee
    | error e => exact hs

/-- The invariant rule for transactions without a condition. -/
lemma run_keeps (hst : ∀ s a t, P s → exec s a = .ok t → P t) (hs : P s) : P (run exec s as) :=
  run_invariant (C := fun _ _ => True) (fun s a t hs _ => hst s a t hs) hs
    (along_of_forall fun _ _ _ => trivial)

def decidableAlong (exec : σ → α → Except ε σ) (C : σ → α → Prop) [∀ s a, Decidable (C s a)] :
    ∀ s as, Decidable (Along exec C s as)
  | _, [] => inferInstanceAs (Decidable True)
  | s, a::as =>
    have := decidableAlong exec C (commit exec s a) as
    inferInstanceAs (Decidable (C s a ∧ Along exec C (commit exec s a) as))

instance [∀ s a, Decidable (C s a)] : Decidable (Along exec C s as) :=
  decidableAlong exec C s as

end Ocrypt.Transactions
