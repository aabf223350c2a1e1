import Ocrypt.Treasury

/-! The batch of a sweep request: the greedy choice among the sources in the order of their
addresses, and when it covers all sources that were given. -/
namespace Ocrypt.SweepBatches
open Money Fallible Table Requests Custody Treasury List

/-- No source is refused by the checks of the loop. -/
structure Proper (p : Policy) (sources : List Source) : Prop where
  valid : ∀ s ∈ sources, s.address.Valid ∧ s.address.chain = p.chainID ∧ isBlank s.nonceRef = false
  distinct : (sources.map (·.address)).Nodup

/-- The items chosen before the source. -/
def before (items : List BatchItem) (s : Source) : List BatchItem :=
  items.filter (·.source.value < s.address.value)

/-- What holds of the items whether or not all sources were looked at. -/
structure Chosen (p : Policy) (sources : List Source) (items : List BatchItem) (total : Amount) :
    Prop where
  ordered : items.Pairwise fun a b => a.source.value < b.source.value
  drawn : ∀ i ∈ items, ∃ s ∈ sources, i.source = s.address ∧ i.nonceRef = s.nonceRef ∧
    p.sweepThreshold.n ≤ s.available.n ∧ i.amount.n+p.reserveAmount.n = s.available.n ∧
    0 < i.amount.n
  sum : total.n = (items.map (·.amount.n)).sum
  bounded : total.n ≤ p.maximumRequestAmount.n
  size : items.length ≤ p.maximumBatchSize

/-- The greedy choice: a qualifying source is left out behind a full batch, or where it does not
fit. -/
structure Batch (p : Policy) (sources : List Source) (items : List BatchItem) (total : Amount) :
    Prop extends Chosen p sources items total where
  left : ∀ s ∈ sources, p.sweepThreshold.n ≤ s.available.n → (∀ i ∈ items, i.source ≠ s.address) →
    (before items s).length = p.maximumBatchSize ∨ p.maximumRequestAmount.n <
      ((before items s).map (·.amount.n)).sum+(s.available.n - p.reserveAmount.n)

variable {p : Policy} {sources done rest : List Source} {s : Source} {items items' : List BatchItem}
  {total total' : Amount} {seen : List Address}

abbrev Sorted (sources : List Source) : Prop :=
  sources.Pairwise fun a b => a.address.value ≤ b.address.value

abbrev InOrder (sources : List Source) : Prop :=
  sources.Pairwise fun a b => a.address.value < b.address.value

lemma Chosen.mono (h : Chosen p done items total) (hd : ∀ s ∈ done, s ∈ sources) :
    Chosen p sources items total := by
  refine ⟨h.ordered,fun i hi => ?_,h.sum,h.bounded,h.size⟩
  obtain ⟨s,hs,hf⟩ := h.drawn i hi
  exact ⟨s,hd s hs,hf⟩

section
variable (h : Batch p done items total) (hs : InOrder (done ++ rest))
include h hs

lemma Batch.source_lt {i : BatchItem} (hi : i ∈ items) (hr : s ∈ rest) : i.source.value < s.address.value := by
  obtain ⟨d,hd,heq,-⟩ := h.drawn i hi
  rw [heq]
  exact (pairwise_append.mp hs).2.2 d hd s hr

lemma Batch.before_eq (hr : s ∈ rest) : before items s = items :=
  filter_eq_self.mpr fun _ hi => decide_eq_true (h.source_lt hs hi hr)

/-- Further sources are left out of a batch that is full, or that they do not fit into. -/
lemma Batch.extend
    (hl : ∀ s ∈ rest, p.sweepThreshold.n ≤ s.available.n →
      items.length = p.maximumBatchSize ∨
      p.maximumRequestAmount.n < total.n+(s.available.n - p.reserveAmount.n)) :
    Batch p (done ++ rest) items total := by
  refine ⟨h.mono fun _ hd => mem_append_left _ hd,fun s hm hq hne => ?_⟩
  rcases mem_append.mp hm with hm | hm
  · exact h.left s hm hq hne
  · rw [h.before_eq hs hm,← h.sum]
    exact hl s hm hq

end

lemma Batch.take (h : Batch p done items total) (hs : InOrder (done ++ [s]))
    (hq : p.sweepThreshold.n ≤ s.available.n) (hr : p.reserveAmount.n < p.sweepThreshold.n)
    {amount next : Amount} (ha : s.available.n - p.reserveAmount.n = amount.n)
    (hn : total.n+amount.n = next.n) (hb : next.n ≤ p.maximumRequestAmount.n)
    (hf : items.length < p.maximumBatchSize) :
    Batch p (done ++ [s]) (items ++ [⟨s.address,amount,s.nonceRef⟩]) next := by
  have hlt : ∀ i ∈ items, i.source.value < s.address.value :=
    fun i hi => h.source_lt hs hi (mem_singleton_self s)
  refine ⟨⟨?_,?_,?_,hb,?_⟩,?_⟩
  · refine pairwise_append.mpr ⟨h.ordered,pairwise_singleton _ _,fun i hi j hj => ?_⟩
    rw [mem_singleton.mp hj]
    exact hlt i hi
  · refine forall_snoc (fun i hi => ?_) ⟨s,mem_concat_self,rfl,rfl,hq,?_,?_⟩
    · obtain ⟨d,hd,hfa⟩ := h.drawn i hi
      exact ⟨d,mem_append_left _ hd,hfa⟩
    · dsimp only
      omega
    · dsimp only
      omega
  · simp [← hn,h.sum]
  · rw [length_append,length_singleton]
    omega
  · intro d hd hdq hne
    rcases mem_append.mp hd with hd | hd
    · -- the new item stands behind every source that was looked at before
      have hno := not_lt_of_gt ((pairwise_append.mp hs).2.2 d hd s (mem_singleton_self s))
      have hbe : before (items ++ [⟨s.address,amount,s.nonceRef⟩]) d = before items d := by
        unfold before
        rw [filter_append,filter_cons_of_neg (by simpa only [decide_eq_true_eq] using hno),
          filter_nil,append_nil]
      rw [hbe]
      exact h.left d hd hdq fun i hi => hne i (mem_append_left _ hi)
    · rw [mem_singleton.mp hd] at hne
      exact absurd rfl (hne _ (mem_append_right _ (mem_singleton_self _)))

lemma Proper.perm (h : Proper p sources) {l : List Source} (hl : l.Perm sources) : Proper p l :=
  ⟨fun s hs => h.valid s (hl.mem_iff.mp hs),(hl.map _).nodup_iff.mpr h.distinct⟩

/-- Addresses of one chain that differ have values that differ. -/
lemma Proper.inOrder (h : Proper p sources) (hs : Sorted sources) : InOrder sources := by
  refine (hs.and (pairwise_map.mp h.distinct)).imp_of_mem fun {a b} ha hb hab => ?_
  refine lt_of_le_of_ne hab.1 fun hv => hab.2 ?_
  have hc := (h.valid a ha).2.1.trans (h.valid b hb).2.1.symm
  cases hx : a.address
  simp_all

/-- The loop looked at a part of the sources, which is proper, and at all of them unless the batch
is full. -/
structure Looked (p : Policy) (sources : List Source) (items : List BatchItem) (total : Amount)
    (looked hidden : List Source) : Prop where
  parts : sources = looked ++ hidden
  proper : Proper p looked
  batch : Batch p looked items total
  full : hidden = [] ∨ items.length = p.maximumBatchSize

lemma collectBatch_looked (hr : p.reserveAmount.n < p.sweepThreshold.n)
    (hs : Sorted (done ++ rest)) (hd : Proper p done) (hsn : ∀ d ∈ done, d.address ∈ seen)
    (hb : Batch p done items total) (hf : items.length < p.maximumBatchSize)
    (h : collectBatch p seen items total rest = .ok (items',total')) :
    ∃ looked hidden, Looked p (done ++ rest) items' total' looked hidden := by
  induction rest generalizing done seen items total with
  | nil =>
    cases h
    exact ⟨done,[],rfl,hd,hb,.inl rfl⟩
  | cons s rest ih =>
    have hcu : done ++ s::rest = (done ++ [s]) ++ rest := by simp
    rw [hcu] at hs ⊢
    simp only [collectBatch,do_ok] at h
    obtain ⟨hv,hne,h⟩ := h
    have hd₁ : Proper p (done ++ [s]) := by
      refine ⟨forall_snoc hd.valid hv,?_⟩
      rw [map_append,map_singleton,nodup_append_comm,singleton_append,nodup_cons]
      refine ⟨fun hm => ?_,hd.distinct⟩
      obtain ⟨d,hdm,heq⟩ := mem_map.mp hm
      exact hne (heq ▸ hsn d hdm)
    have hsn₁ : ∀ d ∈ done ++ [s], d.address ∈ s.address::seen :=
      forall_snoc (fun d hm => mem_cons_of_mem _ (hsn d hm)) mem_cons_self
    have hs₁ := hd₁.inOrder (pairwise_append.mp hs).1
    have hsk : (p.sweepThreshold.n ≤ s.available.n →
        p.maximumRequestAmount.n < total.n+(s.available.n - p.reserveAmount.n)) →
        collectBatch p (s.address::seen) items total rest = .ok (items',total') →
        ∃ looked hidden, Looked p ((done ++ [s]) ++ rest) items' total' looked hidden := by
      intro hl hru
      refine ih hs hd₁ hsn₁ (hb.extend hs₁ fun d hm hq => .inr ?_) hf hru
      rw [mem_singleton.mp hm] at hq ⊢
      exact hl hq
    by_cases hq : p.sweepThreshold.n ≤ s.available.n
    swap
    · rw [if_pos (Amount.cmp_eq_lt.mpr (not_le.mp hq))] at h
      exact hsk (fun hq' => absurd hq' hq) h
    rw [if_neg fun hlt => not_le.mpr (Amount.cmp_eq_lt.mp hlt) hq] at h
    let amount : Amount := ⟨s.available.n - p.reserveAmount.n,
      (Nat.sub_le _ _).trans_lt s.available.fits⟩
    have hsu : s.available.sub p.reserveAmount = .ok amount :=
      Amount.sub_eq_ok.mpr ⟨hr.le.trans hq,rfl⟩
    have hpo : ¬amount.isZero = true := by
      rw [Amount.isZero_iff]
      change s.available.n - p.reserveAmount.n ≠ 0
      omega
    simp only [hsu,hpo] at h
    cases had : total.add amount with
    | error e => simp [had] at h
    | ok next =>
      have hn := Amount.add_eq_ok.mp had
      simp only [had,Amount.cmp_eq_gt] at h
      by_cases hgt : p.maximumRequestAmount.n < next.n
      · rw [if_pos hgt] at h
        exact hsk (fun _ => hn ▸ hgt) h
      rw [if_neg hgt] at h
      have ht := hb.take hs₁ hq hr rfl hn (not_lt.mp hgt) hf
      by_cases hfu : (items ++ [(⟨s.address,amount,s.nonceRef⟩ : BatchItem)]).length =
          p.maximumBatchSize
      · rw [if_pos hfu] at h
        cases h
        exact ⟨_,rest,rfl,hd₁,ht,.inr hfu⟩
      · rw [if_neg hfu] at h
        exact ih hs hd₁ hsn₁ ht (lt_of_le_of_ne ht.size hfu) h

section
variable (sources)

abbrev byAddress : List Source :=
  sources.mergeSort fun a b => decide (a.address.value ≤ b.address.value)

lemma byAddress_perm : (byAddress sources).Perm sources := mergeSort_perm _ _

lemma byAddress_sorted : Sorted (byAddress sources) :=
  (@pairwise_mergeSort Source (fun a b => decide (a.address.value ≤ b.address.value))
    (fun a b c hab hbc => by simpa using le_trans (of_decide_eq_true hab) (of_decide_eq_true hbc))
    (fun a b => by simpa using le_total a.address.value b.address.value) sources).imp
      of_decide_eq_true

end

lemma Proper.byAddress_eq (h : Proper p sources) {l : List Source} (hl : l.Perm sources) :
    byAddress l = byAddress sources := by
  have hpe := (byAddress_perm l).trans (hl.trans (byAddress_perm sources).symm)
  exact hpe.eq_of_pairwise (fun a b _ _ hab hba => absurd hab hba.not_gt)
    ((h.perm ((byAddress_perm l).trans hl)).inOrder (byAddress_sorted l))
    ((h.perm (byAddress_perm sources)).inOrder (byAddress_sorted sources))

lemma buildBatch_looked (hp : p.validate = .ok ()) (hok : buildBatch p sources = .ok (items,total)) :
    ∃ looked hidden, Looked p (byAddress sources) items total looked hidden := by
  simp only [Policy.validate,do_eq_ok,exists_require] at hp
  obtain ⟨-,hsi,-,hr,-⟩ := hp
  simp only [buildBatch,do_eq_ok,exists_require] at hok
  obtain ⟨-,⟨items',total'⟩,hru,-,heq⟩ := hok
  cases heq
  have hst : Batch p [] [] .zero :=
    ⟨⟨.nil,by simp,rfl,Nat.zero_le _,by simpa using hsi.1.trans' (by decide)⟩,by simp⟩
  have hso : Sorted ([] ++ byAddress sources) := byAddress_sorted sources
  exact collectBatch_looked (Amount.cmp_eq_lt.mp hr) hso ⟨by simp,.nil⟩ (by simp) hst
    (by rw [length_nil]; omega) hru

/-- An accepted batch is ordered, funded and bounded whatever was given. If it is not full, all
sources were looked at and are proper. Where all are proper it is the greedy choice among all of
them, in whatever order they are given. -/
theorem batch_covers (hp : p.validate = .ok ()) (hok : buildBatch p sources = .ok (items,total)) :
    Chosen p sources items total ∧
    (items.length < p.maximumBatchSize → Proper p sources) ∧
    (Proper p sources → (∀ l, l.Perm sources → buildBatch p l = .ok (items,total)) ∧
      Batch p sources items total) := by
  obtain ⟨looked,hidden,hl⟩ := buildBatch_looked hp hok
  have hm := fun s => (byAddress_perm sources).mem_iff (a := s)
  have hch : Chosen p sources items total := hl.batch.mono fun s hs =>
    (hm s).mp (hl.parts ▸ mem_append_left _ hs)
  refine ⟨hch,fun hf => ?_,fun h => ⟨fun l hpe => ?_,hch,fun s hs => ?_⟩⟩
  · have hn : hidden = [] := hl.full.resolve_right hf.ne
    have heq : byAddress sources = looked := by rw [hl.parts,hn,append_nil]
    exact (heq ▸ hl.proper).perm (byAddress_perm sources).symm
  · have hne : l ≠ [] ↔ sources ≠ [] := by
      rw [← length_pos_iff,hpe.length_eq,length_pos_iff]
    have hsame := h.byAddress_eq hpe
    unfold byAddress at hsame
    simp only [buildBatch,hsame,hne]
    exact hok
  · have hin := (h.perm (byAddress_perm sources)).inOrder (byAddress_sorted sources)
    rw [hl.parts] at hin
    have hb := hl.batch.extend hin fun d hd _ =>
      .inl (hl.full.resolve_left fun hn => by simp [hn] at hd)
    exact hb.left s (hl.parts ▸ (hm s).mpr hs)

def samplePolicy (maximumBatchSize : ℤ) : Policy where
  id := "policy"
  version := 1
  tenantID := "tenant"
  assetID := "usdt"
  chainID := "tron"
  enabled := true
  emergencyPaused := false
  sweepThreshold := 50
  reserveAmount := 10
  maximumRequestAmount := 100
  dailyAmountLimit := 1000
  approvalThreshold := 100
  maximumNetworkFee := 5
  maximumBatchSize := maximumBatchSize
  requireApprovalAlways := false
  destinations := []

def sampleSources (nonceRef : String) : List Source :=
  [⟨⟨"tron","a"⟩,70,"nonce"⟩,⟨⟨"tron","b"⟩,60,nonceRef⟩]

lemma sampleSources_sorted (nonceRef : String) : (sampleSources nonceRef).mergeSort
    (fun a b => decide (a.address.value ≤ b.address.value)) = sampleSources nonceRef :=
  mergeSort_of_pairwise (by
    simp [sampleSources])

theorem batch_covers_sample :
    Batch (samplePolicy 2) (sampleSources "nonce") [⟨⟨"tron","a"⟩,⟨60,by decide⟩,"nonce"⟩]
      ⟨60,by decide⟩ := by
  have hp : Proper (samplePolicy 2) (sampleSources "nonce") :=
    ⟨by decide +kernel,by decide +kernel⟩
  have hok : buildBatch (samplePolicy 2) (sampleSources "nonce") =
      .ok ([⟨⟨"tron","a"⟩,⟨60,by decide⟩,"nonce"⟩],⟨60,by decide⟩) := by
    rw [buildBatch,sampleSources_sorted]
    decide +kernel
  exact ((batch_covers (by decide +kernel) hok).2.2 hp).2

/-- One item fills the batch, so the second source is not looked at: it is accepted without a
reference to its nonce. -/
theorem refused_source_hidden : (samplePolicy 1).validate = .ok () ∧
    buildBatch (samplePolicy 1) (sampleSources "") =
      .ok ([⟨⟨"tron","a"⟩,⟨60,by decide⟩,"nonce"⟩],⟨60,by decide⟩) ∧
    ∃ s ∈ sampleSources "", isBlank s.nonceRef = true := by
  rw [buildBatch,sampleSources_sorted]
  decide +kernel

end Ocrypt.SweepBatches
