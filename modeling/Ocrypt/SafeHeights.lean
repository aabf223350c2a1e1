import Ocrypt.OrderStatistics
import Ocrypt.ScanWorker

/-! The height that the providers of a chain agree on: what a quorum of them holds as safe, and
what a minority of them cannot push beyond. -/
namespace Ocrypt.SafeHeights
open Fallible Scanner ScanWorker OrderStatistics List

section
variable (chainID genesis : String) (now maxAge : ℤ)

/-- A named and fresh head of the right chain. -/
def Counts (head : ProviderHead) : Prop :=
  head.chainID = chainID ∧ head.genesisHash = genesis ∧ head.provider ≠ "" ∧
    head.observedAt ≠ 0 ∧ now - head.observedAt ≤ maxAge ∧ head.observedAt ≤ now+30*second

instance (head : ProviderHead) : Decidable (Counts chainID genesis now maxAge head) :=
  inferInstanceAs (Decidable (_ ∧ _))

def counted (heads : List ProviderHead) : List ProviderHead :=
  heads.filter (Counts chainID genesis now maxAge)

variable {chainID genesis now maxAge} {heads : List ProviderHead} {head : ProviderHead}

variable (seen : List String)

lemma freshHeights_cons : freshHeights chainID genesis now maxAge seen (head::heads) =
      if Counts chainID genesis now maxAge head ∧ head.provider ∉ seen then
        head.safeHeight::freshHeights chainID genesis now maxAge (head.provider::seen) heads
      else freshHeights chainID genesis now maxAge seen heads := by
  refine if_congr ?_ rfl rfl
  unfold Counts
  tauto

lemma counted_cons : counted chainID genesis now maxAge (head::heads) =
    if Counts chainID genesis now maxAge head then head::counted chainID genesis now maxAge heads
    else counted chainID genesis now maxAge heads := by
  simp [counted,filter_cons]

lemma length_freshHeights : (freshHeights chainID genesis now maxAge seen heads).length =
      (((counted chainID genesis now maxAge heads).map (·.provider)).toFinset \ seen.toFinset).card := by
  induction heads generalizing seen with
  | nil => simp [freshHeights,counted]
  | cons head heads ih =>
    rw [freshHeights_cons,counted_cons]
    by_cases hco : Counts chainID genesis now maxAge head
    · simp only [hco,true_and,if_true,map_cons,toFinset_cons]
      split_ifs with hse
      · rw [ih,Finset.insert_sdiff_of_mem _ (by simpa using hse)]
      · rw [length_cons,ih,Finset.insert_sdiff_of_notMem _ (by simpa using hse),
          toFinset_cons,Finset.sdiff_insert,← Finset.erase_insert_eq_erase,
          Finset.card_erase_add_one (Finset.mem_insert_self _ _)]
    · simp only [hco,false_and,if_false,ih]

lemma freshHeights_of_nodup
    (hn : ((counted chainID genesis now maxAge heads).map (·.provider)).Nodup)
    (hne : ∀ head ∈ counted chainID genesis now maxAge heads, head.provider ∉ seen) :
    freshHeights chainID genesis now maxAge seen heads =
      (counted chainID genesis now maxAge heads).map (·.safeHeight) := by
  induction heads generalizing seen with
  | nil => rfl
  | cons head heads ih =>
    rw [counted_cons] at hn hne ⊢
    rw [freshHeights_cons]
    by_cases hco : Counts chainID genesis now maxAge head
    · simp only [hco,if_true,map_cons,nodup_cons,forall_mem_cons] at hn hne ⊢
      rw [if_pos ⟨trivial,hne.1⟩,ih _ hn.2 fun other ho hse => ?_]
      rcases mem_cons.mp hse with heq | hse
      · exact hn.1 (heq ▸ mem_map_of_mem ho)
      · exact hne.2 other ho hse
    · simp only [hco] at hn hne ⊢
      exact ih seen hn hne

lemma fails_iff {quorum : ℕ} :
    (∃ e, quorumSafeHeightAt heads chainID genesis quorum now maxAge = .error e) ↔
      ((counted chainID genesis now maxAge heads).map (·.provider)).toFinset.card < quorum := by
  have hl : (freshHeights chainID genesis now maxAge [] heads).length =
      ((counted chainID genesis now maxAge heads).map (·.provider)).toFinset.card := by
    rw [length_freshHeights]
    simp
  simp only [quorumSafeHeightAt,do_eq_error,require_eq_error]
  constructor
  · rintro ⟨e,⟨hf,-⟩ | ⟨_,_,h⟩⟩
    · omega
    · cases h
  · exact fun hf => ⟨_,.inl ⟨by omega,rfl⟩⟩

lemma isGreatest_safeHeight {quorum r : ℕ} (hq : 1 ≤ quorum)
    (hn : ((counted chainID genesis now maxAge heads).map (·.provider)).Nodup)
    (h : quorumSafeHeightAt heads chainID genesis quorum now maxAge = .ok r) :
    IsGreatest {height | quorum ≤
      (counted chainID genesis now maxAge heads).countP (height ≤ ·.safeHeight)} r := by
  simp only [quorumSafeHeightAt,do_ok] at h
  obtain ⟨he,rfl⟩ := h
  rw [freshHeights_of_nodup [] hn (by simp)] at he ⊢
  generalize counted chainID genesis now maxAge heads = used at he ⊢
  have hp := perm_insertionSort (· ≥ ·) (used.map (·.safeHeight))
  have hi : quorum - 1 < ((used.map (·.safeHeight)).insertionSort (· ≥ ·)).length := by
    rw [hp.length_eq]
    omega
  have hg := isGreatest_getElem (pairwise_insertionSort (· ≥ ·) _) hi
  rw [getD_eq_getElem?_getD,getElem?_eq_getElem hi]
  have hco : ∀ height, ((used.map (·.safeHeight)).insertionSort (· ≥ ·)).countP (height ≤ ·) =
      used.countP (height ≤ ·.safeHeight) := by
    intro height
    rw [hp.countP_eq,countP_map]
    rfl
  simp only [hco] at hg
  exact ⟨show quorum ≤ _ from Nat.le_of_pred_lt hg.1,
    fun height hhe => hg.2 (Nat.lt_of_lt_of_le (by omega) hhe)⟩

end

/-- No height is agreed on exactly when fewer than `quorum` providers have a head that counts.
Otherwise, when each provider has one such head, the height is the largest that a quorum of them
reaches, for every order of the heads, and fewer liars than a quorum leave an honest provider
that holds it as safe. -/
theorem quorum_safe_height (heads : List ProviderHead) (chainID genesis : String) (quorum : ℕ)
    (hquorum : 1 ≤ quorum) (now maxAge : ℤ) :
    ((∃ e, quorumSafeHeightAt heads chainID genesis quorum now maxAge = .error e) ↔
      ((counted chainID genesis now maxAge heads).map (·.provider)).toFinset.card < quorum) ∧
    (((counted chainID genesis now maxAge heads).map (·.provider)).Nodup →
      ∀ r, quorumSafeHeightAt heads chainID genesis quorum now maxAge = .ok r →
        IsGreatest {height | quorum ≤
          (counted chainID genesis now maxAge heads).countP (height ≤ ·.safeHeight)} r ∧
        (∀ heads', heads'.Perm heads →
          quorumSafeHeightAt heads' chainID genesis quorum now maxAge = .ok r) ∧
        ∀ honest : ProviderHead → Bool,
          (counted chainID genesis now maxAge heads).countP (!honest ·) ≤ quorum - 1 →
          ∃ head ∈ counted chainID genesis now maxAge heads, honest head ∧ r ≤ head.safeHeight) := by
  refine ⟨fails_iff,fun hn r hr => ?_⟩
  have hg := isGreatest_safeHeight hquorum hn hr
  refine ⟨hg,fun heads' hp => ?_,fun honest hl => ?_⟩
  · have hco : (counted chainID genesis now maxAge heads').Perm
        (counted chainID genesis now maxAge heads) := hp.filter _
    have hn' := (hco.map (·.provider)).nodup_iff.mpr hn
    cases hr' : quorumSafeHeightAt heads' chainID genesis quorum now maxAge with
    | error e =>
      have hf := fails_iff.mp ⟨e,hr'⟩
      rw [toFinset_eq_of_perm _ _ (hco.map _)] at hf
      obtain ⟨e,he⟩ := fails_iff.mpr hf
      rw [hr] at he
      cases he
    | ok r' =>
      have hg' := isGreatest_safeHeight hquorum hn' hr'
      simp only [hco.countP_eq] at hg'
      rw [hg'.unique hg]
  · -- a quorum reaches the height, and not all of it lies
    by_contra hno
    push Not at hno
    have hle : (counted chainID genesis now maxAge heads).countP (r ≤ ·.safeHeight) ≤
        (counted chainID genesis now maxAge heads).countP (!honest ·) := by
      refine countP_mono_left fun head hhe hre => ?_
      by_contra hh
      have := hno head hhe (by simpa using hh)
      simp only [decide_eq_true_eq] at hre
      omega
    have hra : quorum ≤ _ := hg.1
    omega

theorem quorum_safe_height_sample :
    let head (provider : String) (height : ℕ) : ProviderHead := ⟨provider,"tron","genesis",height,100⟩
    let heads := [head "liar" 90,head "first" 70,head "second" 80]
    quorumSafeHeightAt heads "tron" "genesis" 2 110 20 = .ok 80 ∧
      ∃ h ∈ counted "tron" "genesis" 110 20 heads, (h.provider ≠ "liar") ∧ 80 ≤ h.safeHeight := by
  intro head heads
  have hok : quorumSafeHeightAt heads "tron" "genesis" 2 110 20 = .ok 80 := by decide +kernel
  have hr := (quorum_safe_height heads "tron" "genesis" 2 (by decide) 110 20).2
    (by decide +kernel) 80 hok
  obtain ⟨h,hh,hho,hle⟩ := hr.2.2 (·.provider ≠ "liar") (by decide +kernel)
  exact ⟨hok,h,hh,by simpa using hho,hle⟩

end Ocrypt.SafeHeights
