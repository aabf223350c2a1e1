import Ocrypt.ProviderQuorum

/-! Faulty sources behind a quorum. What the text of a range shows is fixed by the honest sources;
the flags that say how to read it are not in the text, and come from whoever answered first. -/
namespace Ocrypt.QuorumFaults
open Scanner RangeChecks QuorumAgreement ProviderQuorum List

def flags (r : ScannedRange) : Bool × Bool × Bool :=
  (r.sparseBlocks,r.indexedCheckpoint,r.idleCheckpoint)

def reading (r : ScannedRange) : ScannedRange × Bool × Bool × Bool := (visible r,flags r)

def Alike (r r' : ScannedRange) : Prop := visible r = visible r' ∧ flags r = flags r'

def Writable (enc : Encoding) (r : ScannedRange) : Prop :=
  ∀ t ∈ r.blocks.map (·.time) ++ r.events.map (·.onChainTime), enc.timeFits t = true

section
variable {r r' : ScannedRange}

/-- What `validateRange` reads of a range. -/
def bare (r : ScannedRange) : ScannedRange :=
  { r with events := r.events.map unconfirmed, runtimeEvidence := [] }

lemma bare_of_alike (h : Alike r r') : bare r = bare r' := by
  obtain ⟨hv,hf⟩ := h
  simp only [visible,ScannedRange.mk.injEq,and_true] at hv
  simp only [flags,Prod.mk.injEq] at hf
  simp only [bare,ScannedRange.mk.injEq,true_and]
  exact ⟨hv.1,hv.2.1,hv.2.2.1,hv.2.2.2,hf.1,hf.2.1,hf.2.2⟩

lemma validateBlocks_bare (fromHeight i : ℕ) (previous : Option Block) (bs : List Block) :
    validateBlocks (bare r) fromHeight i previous bs = validateBlocks r fromHeight i previous bs := by
  induction bs generalizing i previous with
  | nil => rfl
  | cons b bs ih =>
    simp only [validateBlocks,ih]
    rfl

lemma validateEvents_bare : validateEvents (bare r) = validateEvents r := by
  have hf : (bare r).events.find? (fun e => (bare r).hashAt? e.blockHeight ≠ some e.blockHash) =
      (r.events.find? fun e => r.hashAt? e.blockHeight ≠ some e.blockHash).map unconfirmed := by
    change (r.events.map unconfirmed).find? _ = _
    rw [find?_map]
    rfl
  unfold validateEvents
  rw [hf]
  cases r.events.find? fun e => r.hashAt? e.blockHeight ≠ some e.blockHash <;> rfl

lemma validateShape_bare (fromHeight toHeight : ℕ) :
    validateShape (bare r) fromHeight toHeight = validateShape r fromHeight toHeight := by
  have he : (bare r).events = [] ↔ r.events = [] := by simp [bare]
  simp only [validateShape,validateBlocks_bare,validateEvents_bare,he]
  rfl

lemma validateRange_alike (h : Alike r r') (fromHeight toHeight : ℕ) (lease : Lease)
    (overlap : ℕ) : validateRange r fromHeight toHeight lease overlap =
      validateRange r' fromHeight toHeight lease overlap := by
  have hba : ∀ r, validateRange (bare r) fromHeight toHeight lease overlap =
      validateRange r fromHeight toHeight lease overlap := by
    intro r
    simp only [validateRange,validateShape_bare]
    rfl
  rw [← hba r,← hba r',bare_of_alike h]

end

/-- Every source answers once, fewer than a quorum of them are faulty, and the others answer the
honest range. -/
structure Trusted (q : QuorumSource) (faulty : ℕ → Bool) (honest : ScannedRange)
    (arrivals : List (Arrival ScannedRange)) : Prop where
  answered : q.Answered arrivals
  few : arrivals.countP (fun a => faulty a.index) < q.quorum
  honest : ∀ a ∈ arrivals, faulty a.index = false → ∃ r, a.answer = .ok r ∧ Alike r honest

section
variable {q : QuorumSource} {enc : Encoding} {faulty : ℕ → Bool} {honest : ScannedRange}
  {arrivals arrivals' : List (Arrival ScannedRange)} {r : ScannedRange} {b : ScannedRange}

lemma Trusted.perm (h : Trusted q faulty honest arrivals) (hp : arrivals.Perm arrivals') :
    Trusted q faulty honest arrivals' := by
  refine ⟨(hp.map _).symm.trans h.answered,?_,fun a ha => h.honest a (hp.mem_iff.mpr ha)⟩
  rw [← hp.countP_eq]
  exact h.few

lemma mem_answers : r ∈ answers arrivals ↔ ∃ a ∈ arrivals, a.answer = .ok r := by
  simp only [answers,mem_filterMap]
  refine exists_congr fun a => and_congr_right fun _ => ?_
  cases a.answer <;> simp [Except.toOption]

lemma countP_answers_le {p : ScannedRange → Bool}
    (h : ∀ a ∈ arrivals, ∀ r, a.answer = .ok r → p r = true → faulty a.index = true) :
    (answers arrivals).countP p ≤ arrivals.countP fun a => faulty a.index := by
  induction arrivals with
  | nil => simp [answers]
  | cons a arrivals ih =>
    have hre := ih fun b hb => h b (mem_cons_of_mem _ hb)
    unfold answers at hre ⊢
    rw [countP_cons]
    cases han : a.answer with
    | error e =>
      simp only [filterMap_cons,han,Except.toOption] at hre ⊢
      omega
    | ok r =>
      simp only [filterMap_cons,han,Except.toOption,countP_cons] at hre ⊢
      by_cases hp : p r = true
      · rw [if_pos hp,if_pos (h a mem_cons_self r han hp)]
        omega
      · rw [if_neg hp]
        omega

lemma Trusted.exists_honest (h : Trusted q faulty honest arrivals) {key : ScannedRange → Option String}
    {k : String} (hl : q.quorum ≤ (classOf key k (answers arrivals)).length) :
    ∃ w ∈ answers arrivals, key w = some k ∧ Alike w honest := by
  by_contra hn
  push Not at hn
  have hco : (answers arrivals).countP (fun r => key r = some k) ≤
      arrivals.countP fun a => faulty a.index := by
    apply countP_answers_le
    intro a ha r hr hke
    by_contra hf
    obtain ⟨r',hr',hal⟩ := h.honest a ha (by simpa using hf)
    rw [hr] at hr'
    cases hr'
    exact hn r (mem_answers.mpr ⟨a,ha,hr⟩) (by simpa using hke) hal
  rw [countP_eq_length_filter] at hco
  have hfe := h.few
  unfold classOf at hl
  omega

lemma rangeKey_isSome (r : ScannedRange) : (∃ k, rangeKey enc r = some k) ↔ Writable enc r := by
  unfold rangeKey
  simp only [digest_eq_some,exists_and_left,exists_eq',and_true]
  rfl

lemma scanRange_eq_ok : q.scanRange enc arrivals = .ok b ↔
    q.collect (rangeKey enc) mergeRange ⟨"range quorum",q.quorum,0,[]⟩ (fun _ => none) arrivals =
      .ok b := concluded_eq_ok

lemma Trusted.first (h : Trusted q faulty honest arrivals)
    (hte : Distinct enc ((answers arrivals).map (rangeText enc)))
    (hb : q.scanRange enc arrivals = .ok b) : ∃ k z, rangeKey enc honest = some k ∧
      (classOf (rangeKey enc) k (answers arrivals)).head? = some z ∧ Alike b z ∧
      visible z = visible honest ∧
      q.quorum ≤ (classOf (rangeKey enc) k (answers arrivals)).length := by
  have hkp : ∀ x y, reading (mergeRange x y) = reading x := by
    intro x y
    unfold reading
    rw [mergeRange_merges.keeps]
    rfl
  obtain ⟨k,z,hf,hv,hl⟩ := collect_class hkp (scanRange_eq_ok.mp hb)
  obtain ⟨hz,hzk⟩ := mem_classOf.mp (mem_of_mem_head? hf)
  obtain ⟨w,hw,hwk,hal⟩ := h.exists_honest hl
  have hke := rangeKey_keyed hte
  refine ⟨k,z,?_,hf,Prod.mk.inj hv,?_,hl⟩
  · rw [← hke.same w honest hal.1,hwk]
  · exact (hke.apart z hz w hw k hzk hwk).trans hal.1

lemma distinct_perm (hp : arrivals.Perm arrivals')
    (h : Distinct enc ((answers arrivals).map (rangeText enc))) :
    Distinct enc ((answers arrivals').map (rangeText enc)) := by
  have hm := fun t => ((answers_perm hp).map (rangeText enc)).mem_iff (a := t)
  exact fun s hs t ht => h s ((hm s).mpr hs) t ((hm t).mpr ht)

lemma Trusted.decides {a : Arrival ScannedRange} {rest : List (Arrival ScannedRange)}
    (h : Trusted q faulty honest (a::rest))
    (hte : Distinct enc ((answers (a::rest)).map (rangeText enc))) (hr : a.answer = .ok r)
    (hv : visible r = visible honest) (hw : Writable enc honest)
    (hl : q.quorum ≤ (answers (a::rest)).countP fun r => visible r = visible honest) :
    ∃ b, q.scanRange enc (a::rest) = .ok b ∧ flags b = flags r := by
  have hke := rangeKey_keyed hte
  obtain ⟨k,hk⟩ := (rangeKey_isSome honest).mpr hw
  have hcl : q.quorum ≤ (classOf (rangeKey enc) k (answers (a::rest))).length := by
    rw [classOf,← countP_eq_length_filter]
    refine hl.trans (countP_mono_left fun s _ hs => ?_)
    have hs' : visible s = visible honest := by simpa using hs
    simpa using (hke.same s honest hs').trans hk
  have hta : tally (rangeKey enc) mergeRange q.quorum (fun _ => none) (answers (a::rest)) ≠
      none := by
    intro hn
    have hsm := (tally_eq_none (Open.empty _ _ q.positive)).mp hn k
    rw [nil_append] at hsm
    omega
  obtain ⟨b,hb⟩ := Option.ne_none_iff_exists'.mp hta
  have hsc := scanRange_eq_ok.mpr (collect_eq_ok.mpr hb)
  obtain ⟨k',z,hk',hf,hal,-,-⟩ := h.first hte hsc
  have hrk := (hke.same r honest hv).trans hk'
  have hz : z = r := by
    simp only [answers,filterMap_cons,hr,Except.toOption,classOf,filter_cons,hrk,
      decide_true,if_true,head?_cons,Option.some.injEq] at hf
    exact hf.symm
  refine ⟨b,hsc,?_⟩
  rw [← hz]
  exact hal.2

lemma Trusted.alike (h : Trusted q faulty honest arrivals)
    (hte : Distinct enc ((answers arrivals).map (rangeText enc))) (hf : Writable enc honest →
      q.quorum ≤ (answers arrivals).countP (fun r => visible r = visible honest) →
      ∀ r ∈ answers arrivals, visible r = visible honest → flags r = flags honest)
    (hb : q.scanRange enc arrivals = .ok b) : Alike b honest := by
  have hke := rangeKey_keyed hte
  obtain ⟨k,z,hk,hfi,hal,hv,hl⟩ := h.first hte hb
  obtain ⟨hz,hzk⟩ := mem_classOf.mp (mem_of_mem_head? hfi)
  have hco : q.quorum ≤ (answers arrivals).countP fun r => visible r = visible honest := by
    rw [classOf,← countP_eq_length_filter] at hl
    refine hl.trans (countP_mono_left fun s hs hsk => ?_)
    have hsk' : rangeKey enc s = some k := by simpa using hsk
    simpa using (hke.apart s hs z hz k hsk' hzk).trans hv
  have hw := (rangeKey_isSome honest).mp ⟨k,hk⟩
  exact ⟨hal.1.trans hv,hal.2.trans (hf hw hco z hz hv)⟩

/-- The range that is returned is read as the honest one in every order of arrival, exactly if no
source shows the honest range under other flags (while a quorum shows it at all). -/
theorem flags_honest_iff (h : Trusted q faulty honest arrivals)
    (htexts : Distinct enc ((answers arrivals).map (rangeText enc))) :
    (∀ arrivals', arrivals.Perm arrivals' → ∀ b, q.scanRange enc arrivals' = .ok b →
      flags b = flags honest ∧ ∀ fromHeight toHeight lease overlap,
        validateRange b fromHeight toHeight lease overlap =
          validateRange honest fromHeight toHeight lease overlap) ↔ (Writable enc honest →
      q.quorum ≤ (answers arrivals).countP (fun r => visible r = visible honest) →
      ∀ r ∈ answers arrivals, visible r = visible honest → flags r = flags honest) := by
  constructor
  · intro hall hw hl r hr hv
    obtain ⟨a,ha,has⟩ := mem_answers.mp hr
    obtain ⟨before,after,rfl⟩ := append_of_mem ha
    -- Let the answer arrive first.
    have hp : (before ++ a::after).Perm (a::(before ++ after)) := perm_middle
    rw [(answers_perm hp).countP_eq] at hl
    obtain ⟨b,hb,hf⟩ := (h.perm hp).decides (distinct_perm hp htexts) has hv
      hw hl
    rw [← hf]
    exact (hall _ hp b hb).1
  · intro hf arrivals' hp b hb
    have han := answers_perm hp
    have hal : Alike b honest := by
      refine (h.perm hp).alike (distinct_perm hp htexts) (fun hw hl r hr => ?_) hb
      rw [← han.countP_eq] at hl
      exact hf hw hl r (han.mem_iff.mpr hr)
    exact ⟨hal.2,validateRange_alike hal⟩

end

def sampleSparse : ScannedRange where
  fromHeight := 5
  toHeight := 7
  blocks := [⟨5,"block-5","block-4",1005⟩,⟨7,"block-7","block-5",1007⟩]
  events := []
  sparseBlocks := true

def faultyFirst (answer : ScannedRange) : List (Arrival ScannedRange) :=
  [⟨1,.ok answer⟩,⟨0,.ok sampleSparse⟩,⟨2,.ok sampleSparse⟩]

lemma faultyFirst_trusted (answer : ScannedRange) :
    Trusted sampleQuorum (· = 1) sampleSparse (faultyFirst answer) := by
  have hi : [1,0,2].Perm (List.range 3) := by decide
  refine ⟨hi,by simp [faultyFirst,sampleQuorum],?_⟩
  intro a ha hf
  simp only [faultyFirst,mem_cons,not_mem_nil,or_false] at ha
  obtain rfl | rfl | rfl := ha
  · simp at hf
  · exact ⟨sampleSparse,rfl,rfl,rfl⟩
  · exact ⟨sampleSparse,rfl,rfl,rfl⟩

theorem flags_honest_iff_sample :
    Trusted sampleQuorum (· = 1) sampleSparse (faultyFirst { sampleSparse with toHeight := 9 }) ∧
      ∀ arrivals', (faultyFirst { sampleSparse with toHeight := 9 }).Perm arrivals' →
        ∀ b, sampleQuorum.scanRange sampleEncoding arrivals' = .ok b →
          flags b = flags sampleSparse ∧ ∀ fromHeight toHeight lease overlap,
            validateRange b fromHeight toHeight lease overlap =
              validateRange sampleSparse fromHeight toHeight lease overlap := by
  refine ⟨faultyFirst_trusted _,
    (flags_honest_iff (faultyFirst_trusted _) (sampleEncoding_distinct _)).mpr ?_⟩
  intro _ _
  decide

/-- One faulty source among three answers what the two honest ones answer, but as a range without
gaps. Its answer arrives first, so that a quorum of two returns its flag, and the honest range is
refused. -/
theorem faulty_flag_returned : Trusted sampleQuorum (· = 1) sampleSparse
        (faultyFirst { sampleSparse with sparseBlocks := false }) ∧
      sampleQuorum.scanRange sampleEncoding
          (faultyFirst { sampleSparse with sparseBlocks := false }) =
        .ok { sampleSparse with sparseBlocks := false } ∧
      validateRange sampleSparse 5 7 (Workers.sampleLease 1 5 "block-5") 2 = .ok () ∧
      validateRange { sampleSparse with sparseBlocks := false } 5 7
          (Workers.sampleLease 1 5 "block-5") 2 = .error (.invalid "range coverage mismatch") := by
  refine ⟨faultyFirst_trusted _,?_,?_,?_⟩ <;> decide +kernel

end Ocrypt.QuorumFaults
