import Ocrypt.Settlement

/-! The progress of one transfer under the reports of several workers: the first report stores it,
and each later one is merged into what is stored. -/
namespace Ocrypt.TransferProgress
open Domain Fallible Store Settlement List

/-- The status and the confirmations of a report with the stored inclusion facts. -/
abbrev Report := TransferStatus × ℕ

def finality : TransferStatus → ℕ
  | .observed => 0
  | .confirmed => 1
  | .finalized => 2
  | .reorged | .invalidated => 3

/-- The most final of the reported statuses, with the most of the reported confirmations. -/
structure Converged (reports : List Report) (s : Report) : Prop where
  status : s.1 ∈ reports.map (·.1) ∧ ∀ r ∈ reports, finality r.1 ≤ finality s.1
  confirmations : s.2 ∈ reports.map (·.2) ∧ ∀ r ∈ reports, r.2 ≤ s.2

variable {reports : List Report} {s r t : Report}

lemma Converged.merge (hle : finality s.1 ≤ finality r.1)
    (h : Converged ((r.1,max s.2 r.2)::reports) t) : Converged (s::r::reports) t := by
  obtain ⟨⟨hst,hto⟩,hco,hm⟩ := h
  rw [forall_mem_cons] at hto hm
  have hma := max_le_iff.mp hm.1
  refine ⟨⟨mem_cons_of_mem _ hst,?_⟩,?_,?_⟩
  · exact forall_mem_cons.mpr ⟨hle.trans hto.1,forall_mem_cons.mpr hto⟩
  · rcases mem_cons.mp hco with hco | hco
    · rcases max_choice s.2 r.2 with hma | hma <;> simp [hco,hma]
    · simp [hco]
  · exact forall_mem_cons.mpr ⟨hma.1,forall_mem_cons.mpr ⟨hma.2,hm.2⟩⟩

end Ocrypt.TransferProgress
