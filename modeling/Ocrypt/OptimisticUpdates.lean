import Mathlib.Logic.Relation
import Ocrypt.Table

/-! Optimistic concurrency on a table of versioned rows. A writer reads a row at some moment and
later replaces it under a compare-and-set on the version. `seen` records every row that was ever
stored, so a stale read is a member of it; rows of one key form a chain of moves. -/
namespace Ocrypt.OptimisticUpdates
open Table Relation List

variable {α κ : Type*}

structure Versioning (α κ : Type*) where
  key : α → κ
  version : α → ℤ

def Versioning.Advances (v : Versioning α κ) (Moves : α → α → Prop) : Prop :=
  ∀ r s, Moves r s → v.key s = v.key r ∧ v.version r < v.version s

/-- The stored rows are the latest versions, and all versions of a key are linked by moves. -/
structure Coherent (v : Versioning α κ) (Moves : α → α → Prop) (rows seen : List α) : Prop where
  unique : (rows.map v.key).Nodup
  stored : ∀ r ∈ rows, r ∈ seen
  latest : ∀ s ∈ seen, ∃ r ∈ rows, v.key r = v.key s ∧ v.version s ≤ v.version r
  chain : ∀ r ∈ seen, ∀ s ∈ seen, v.key r = v.key s → v.version r ≤ v.version s →
    ReflTransGen Moves r s

variable {v : Versioning α κ} {Moves : α → α → Prop} {rows seen : List α} {r s current next : α}

lemma Coherent.nil : Coherent v Moves [] [] where
  unique := List.nodup_nil
  stored := fun _ hr => hr
  latest := fun _ hs => absurd hs List.not_mem_nil
  chain := fun _ hr => absurd hr List.not_mem_nil

namespace Versioning.Advances

lemma reflTransGen (h : v.Advances Moves) (hrs : ReflTransGen Moves r s) :
    v.key s = v.key r ∧ v.version r ≤ v.version s := by
  induction hrs with
  | refl => exact ⟨rfl,le_rfl⟩
  | tail _ hl ih =>
    obtain ⟨hk,hve⟩ := h _ _ hl
    exact ⟨hk.trans ih.1,ih.2.trans hve.le⟩

lemma eq_of_version (h : v.Advances Moves) (hrs : ReflTransGen Moves r s)
    (hve : v.version r = v.version s) : r = s := by
  cases hrs with
  | refl => rfl
  | tail hre hl =>
    have hle := (h.reflTransGen hre).2
    have hlt := (h _ _ hl).2
    omega

end Versioning.Advances

namespace Coherent

section
variable (h : Coherent v Moves rows seen)
include h

lemma eq_of_key (hr : r ∈ rows) (hs : s ∈ rows) (hk : v.key r = v.key s) : r = s :=
  inj_on_of_nodup_map h.unique hr hs hk

lemma version_le (hr : r ∈ rows) (hs : s ∈ seen) (hk : v.key s = v.key r) : v.version s ≤ v.version r := by
  obtain ⟨t,ht,htk,htv⟩ := h.latest s hs
  have htr : t = r := h.eq_of_key ht hr (htk.trans hk)
  rwa [← htr]

lemma leads (hs : s ∈ seen) : ∃ r ∈ rows, v.key r = v.key s ∧ ReflTransGen Moves s r := by
  obtain ⟨r,hr,hk,hve⟩ := h.latest s hs
  exact ⟨r,hr,hk,h.chain s hs r (h.stored r hr) hk.symm hve⟩

end

/-- Compare-and-set: the stored row that still has the version a writer read is the row that
the writer read. -/
lemma read_current (had : v.Advances Moves) (h : Coherent v Moves rows seen) (hr : r ∈ rows)
    (hs : s ∈ seen) (hk : v.key r = v.key s) (hve : v.version r = v.version s) : r = s :=
  had.eq_of_version (h.chain r (h.stored r hr) s hs hk hve.le) hve

lemma congr (h : Coherent v Moves rows seen) {seen' : List α} (hse : ∀ s, s ∈ seen' ↔ s ∈ seen) :
    Coherent v Moves rows seen' where
  unique := h.unique
  stored := fun r hr => (hse r).mpr (h.stored r hr)
  latest := fun s hs => h.latest s ((hse s).mp hs)
  chain := fun r hr s hs => h.chain r ((hse r).mp hr) s ((hse s).mp hs)

lemma insert (h : Coherent v Moves rows seen) (hf : ∀ s ∈ rows, v.key s ≠ v.key r) :
    Coherent v Moves (rows ++ [r]) (seen ++ [r]) := by
  have hu : ∀ s ∈ seen, v.key s ≠ v.key r := by
    intro s hs hk
    obtain ⟨t,ht,htk,-⟩ := h.latest s hs
    exact hf t ht (htk.trans hk)
  refine ⟨nodup_map_append h.unique hf,?_,?_,?_⟩
  · intro s hs
    rcases mem_append.mp hs with hs | hs
    · exact mem_append_left _ (h.stored s hs)
    · exact mem_append_right _ hs
  · refine forall_snoc (fun s hs => ?_) ⟨r,mem_concat_self,rfl,le_rfl⟩
    obtain ⟨t,ht,hk,hve⟩ := h.latest s hs
    exact ⟨t,mem_append_left _ ht,hk,hve⟩
  · refine forall_snoc (fun s hs => forall_snoc (h.chain s hs) ?_) (forall_snoc ?_ ?_)
    · exact fun hk _ => absurd hk (hu s hs)
    · exact fun t ht hk _ => absurd hk.symm (hu t ht)
    · exact fun _ _ => .refl

variable {p : α → Prop} [DecidablePred p]

lemma replace (had : v.Advances Moves) (h : Coherent v Moves rows seen) (hr : current ∈ rows)
    (hp : p current) (hk : ∀ r ∈ rows, p r → v.key r = v.key current) (hm : Moves current next) :
    Coherent v Moves (update p (fun _ => next) rows) (seen ++ [next]) := by
  obtain ⟨hke,hve⟩ := had _ _ hm
  have hme : next ∈ update p (fun _ => next) rows := mem_update_self hr hp
  refine ⟨?_,?_,?_,?_⟩
  · rw [map_update fun r hr hp => hke.trans (hk r hr hp).symm]
    exact h.unique
  · intro r hr
    rcases mem_update_iff.mp hr with ⟨hr,-⟩ | ⟨-,-,-,rfl⟩
    · exact mem_append_left _ (h.stored r hr)
    · exact mem_append_right _ (mem_singleton.mpr rfl)
  · refine forall_snoc (fun s hs => ?_) ⟨next,hme,rfl,le_rfl⟩
    obtain ⟨t,ht,htk,htv⟩ := h.latest s hs
    by_cases hpt : p t
    · have htc : t = current := h.eq_of_key ht hr (hk t ht hpt)
      subst htc
      exact ⟨next,hme,hke.trans htk,htv.trans hve.le⟩
    · exact ⟨t,mem_update_of ht hpt,htk,htv⟩
  · refine forall_snoc (fun s hs => forall_snoc (h.chain s hs) fun hst _ => ?_)
      (forall_snoc (fun t ht hst hle => ?_) fun _ _ => .refl)
    · have hsc := hst.trans hke
      exact (h.chain s hs current (h.stored _ hr) hsc (h.version_le hr hs hsc)).tail hm
    · have htc := h.version_le hr ht (hst.symm.trans hke)
      omega

lemma mem_seen_replace (h : Coherent v Moves rows seen) (hr : current ∈ rows) (hp : p current) :
    s ∈ seen ++ update p (fun _ => next) rows ↔ s ∈ seen ++ [next] := by
  rw [mem_append,mem_append,mem_singleton,mem_update_iff]
  constructor
  · rintro (hs | ⟨hs,-⟩ | ⟨-,-,-,rfl⟩)
    · exact .inl hs
    · exact .inl (h.stored s hs)
    · exact .inr rfl
  · rintro (hs | rfl)
    · exact .inl hs
    · exact .inr (.inr ⟨current,hr,hp,rfl⟩)

end Coherent

end Ocrypt.OptimisticUpdates
