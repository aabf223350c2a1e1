import Mathlib.Tactic

/-! The verdict over health probes: a provider does not certify its own freshness. -/
namespace Ocrypt.ProviderHealth
open List

/-- Texts other than the two of the source are of no provider. -/
inductive ProviderKind
  | onChain | hosted | other
  deriving DecidableEq

inductive Operation
  | health | head | range | transactionLookup | transferVerify | create | status | cancel | refund
  | reconciliation
  deriving DecidableEq

inductive ErrorCategory
  | none | timeout | dns | tls | connect | rateLimited | authRejected | upstream4xx | upstream5xx
  | invalidResponse | chainMismatch | genesisMismatch | staleHead | divergentResponse | policyDenied
  deriving DecidableEq

/-- The candidate of a probe with its policy. -/
structure Probe where
  providerKind : ProviderKind
  (tenantID merchantID chainID : String)
  operation : Operation
  failureDomain : String
  maxHealthAge : ℤ
  maxLagBlocks : ℕ
  deriving DecidableEq

structure Observation where
  success : Bool
  error : ErrorCategory
  lagBlocks : Option ℤ
  headHeight : Option ℕ
  headObservedAt : Option ℤ
  deriving DecidableEq

def second : ℤ := 1000000000

def markObservationFailure (o : Observation) (category : ErrorCategory) : Observation :=
  { o with success := false, error := category, lagBlocks := none }

variable (now : ℤ)

def freshHead (p : Probe) (o : Observation) : Option ℕ :=
  match o.headHeight,o.headObservedAt with
  | some height,some observedAt =>
    if now+10*second < observedAt ∨ observedAt < now - p.maxHealthAge then none else some height
  | _,_ => none

abbrev Entry : Type := Probe × Observation

variable (x : Entry)

def hostedPeer (x y : Entry) : Bool :=
  y.2.success = true ∧ y.1.providerKind = .hosted ∧ y.1.tenantID = x.1.tenantID ∧
    y.1.merchantID = x.1.merchantID ∧ y.1.operation = x.1.operation ∧
    y.1.failureDomain ≠ x.1.failureDomain

def peerHeight (x y : Entry) : Option ℕ :=
  if y.2.success = true ∧ y.1.chainID = x.1.chainID ∧ y.1.operation = x.1.operation ∧
    y.1.failureDomain ≠ x.1.failureDomain then freshHead now y.1 y.2 else none

/-- One peer in the loop over the maximum and the independence. -/
def survey (s : ℕ × Bool) (y : Entry) : ℕ × Bool :=
  match peerHeight now x y with
  | some height => (max s.1 height,true)
  | none => s

/-- The verdict on the current observation, from the raw entries. -/
def verdict (others : List Entry) (current : Observation) : Observation :=
  if current.success = false then current
  else match x.1.providerKind with
  | .hosted =>
    if others.any (hostedPeer x) then current else markObservationFailure current .divergentResponse
  | .other => markObservationFailure current .policyDenied
  | .onChain =>
    match freshHead now x.1 x.2 with
    | none => markObservationFailure current .staleHead
    | some height =>
      let (maximum,independent) := others.foldl (survey now x) (height,false)
      if independent = false then markObservationFailure current .divergentResponse
      else if x.1.maxLagBlocks < maximum - height then markObservationFailure current .staleHead
      -- the conversion to a signed integer of 64 bits
      else { current with lagBlocks := some (Int.bmod (maximum - height : ℕ) (2^64)) }

/-- The observations are rewritten in place, against a copy of what they were. -/
def adjudicateObservations (probes : List Probe) (observations : List Observation) (now : ℤ) :
    List Observation :=
  if probes.length ≠ observations.length then observations
  else
    let raw := probes.zip observations
    (List.range raw.length).foldl (fun observations index => observations.modify index fun current =>
      match raw[index]? with
      | some x => verdict now x (raw.eraseIdx index) current
      | none => current) observations

/-- The heights that count for the entry: its own and those of its peers. -/
def heights (entries : List Entry) (x : Entry) : Set ℕ :=
  {height | freshHead now x.1 x.2 = some height ∨ ∃ y ∈ entries, peerHeight now x y = some height}

variable {now : ℤ} {x y : Entry} {l l' entries : List Entry} {s : ℕ × Bool} {height : ℕ}

lemma survey_spec (s : ℕ × Bool) (l : List Entry) :
    ((l.foldl (survey now x) s).2 = true ↔ s.2 = true ∨ ∃ y ∈ l, (peerHeight now x y).isSome) ∧
      IsGreatest {h | h = s.1 ∨ ∃ y ∈ l, peerHeight now x y = some h} (l.foldl (survey now x) s).1 := by
  induction l generalizing s with
  | nil => simp [IsGreatest]
  | cons y l ih =>
    rw [foldl_cons]
    obtain ⟨hb,hm,hu⟩ := ih (survey now x s y)
    cases hy : peerHeight now x y with
    | none =>
      simp only [survey,hy] at hb hm hu ⊢
      exact ⟨by simp [hb,hy],by simpa [hy] using hm,by simpa [hy] using hu⟩
    | some h =>
      simp only [survey,hy] at hb hm hu ⊢
      have hle := hu (.inl rfl)
      refine ⟨by simp [hb,hy],?_,?_⟩
      · rcases hm with hm | ⟨z,hz,hk⟩
        · rw [hm]
          rcases max_choice s.1 h with hc | hc
          · exact .inl hc
          · exact .inr ⟨y,mem_cons_self,by rw [hc,hy]⟩
        · exact .inr ⟨z,mem_cons_of_mem _ hz,hk⟩
      · rintro k (rfl | ⟨z,hz,hk⟩)
        · exact (le_max_left _ _).trans hle
        rcases mem_cons.mp hz with rfl | hz
        · cases hy.symm.trans hk
          exact (le_max_right _ _).trans hle
        · exact hu (.inr ⟨z,hz,hk⟩)

/-- Only entries of other failure domains count. -/
lemma verdict_congr (h : ∀ y, y.1.failureDomain ≠ x.1.failureDomain → (y ∈ l ↔ y ∈ l'))
    (current : Observation) : verdict now x l current = verdict now x l' current := by
  have hos : l.any (hostedPeer x) = l'.any (hostedPeer x) := by
    rw [Bool.eq_iff_iff,any_eq_true,any_eq_true]
    refine exists_congr fun y => and_congr_left fun hy => h y ?_
    simp only [hostedPeer,decide_eq_true_eq] at hy
    exact hy.2.2.2.2.2
  have hpe : ∀ {p : Option ℕ → Prop}, ¬p none →
      ((∃ y ∈ l, p (peerHeight now x y)) ↔ ∃ y ∈ l', p (peerHeight now x y)) := by
    refine fun hp => exists_congr fun y => and_congr_left fun hy => h y fun hd => hp ?_
    rwa [peerHeight,if_neg fun hc => hc.2.2.2 hd] at hy
  have hf : ∀ s, l.foldl (survey now x) s = l'.foldl (survey now x) s := by
    intro s
    have h₁ := @survey_spec now x s l
    have h₂ := @survey_spec now x s l'
    have hk := fun k => hpe (p := (· = some k)) (by simp)
    rw [hpe (p := fun o => o.isSome = true) (by simp)] at h₁
    simp only [hk] at h₁
    exact Prod.ext (h₁.2.unique h₂.2) (Bool.eq_iff_iff.mpr (h₁.1.trans h₂.1.symm))
  simp only [verdict,hos,hf]

lemma foldl_modify {α : Type*} (f : ℕ → α → α) (l : List α) (k i : ℕ) :
    ((List.range k).foldl (fun acc j => acc.modify j (f j)) l)[i]? =
      l[i]?.map (if i < k then f i else id) := by
  induction k with
  | zero => simp
  | succ k ih =>
    rw [range_succ,foldl_append,foldl_cons,foldl_nil,getElem?_modify,ih]
    rcases lt_trichotomy i k with h | h | h
    · simp [h,h.ne',Nat.lt_succ_of_lt h]
    · simp [h]
    · simp [h.ne,h.not_gt,show ¬i < k+1 by omega]

lemma adjudicate_eq (now : ℤ) (entries : List Entry) :
    adjudicateObservations (entries.map (·.1)) (entries.map (·.2)) now =
      entries.map fun x => verdict now x entries x.2 := by
  have hz : (entries.map (·.1)).zip (entries.map (·.2)) = entries := by simp [List.zip_map']
  rw [adjudicateObservations,if_neg (by simp),hz]
  refine List.ext_getElem? fun i => ?_
  rw [foldl_modify,List.getElem?_map,List.getElem?_map]
  cases hx : entries[i]? with
  | none => rfl
  | some x =>
    rw [if_pos (List.getElem?_eq_some_iff.mp hx).1]
    refine congrArg some (verdict_congr (fun y hd => ?_) x.2)
    rw [List.mem_eraseIdx_iff_getElem?,List.mem_iff_getElem?]
    refine exists_congr fun j => and_iff_right_of_imp fun hy hij => hd ?_
    rw [hij,hx] at hy
    cases hy
    rfl

/-- What the verdict on an entry of an on-chain provider says. -/
structure Judged (now : ℤ) (entries : List Entry) (x : Entry) (o : Observation) : Prop where
  success : o.success = true ↔ x.2.success = true ∧ ∃ height maximum,
    freshHead now x.1 x.2 = some height ∧ (∃ y ∈ entries, (peerHeight now x y).isSome = true) ∧
      IsGreatest (heights now entries x) maximum ∧ maximum - height ≤ x.1.maxLagBlocks
  lag : x.1.maxLagBlocks < 2^63 → o.success = true → ∀ height maximum, freshHead now x.1 x.2 = some height →
    IsGreatest (heights now entries x) maximum → o.lagBlocks = some ((maximum : ℤ) - height)

lemma verdict_judged (hk : x.1.providerKind = .onChain) :
    Judged now entries x (verdict now x entries x.2) := by
  cases hs : x.2.success with
  | false => constructor <;> simp [verdict,hs]
  | true =>
    cases hf : freshHead now x.1 x.2 with
    | none => constructor <;> simp [verdict,hs,hk,hf,markObservationFailure]
    | some height =>
      obtain ⟨hb,hg⟩ := @survey_spec now x (height,false) entries
      have hse : {h | h = height ∨ ∃ y ∈ entries, peerHeight now x y = some h} =
          heights now entries x := by
        simp [heights,hf,eq_comm]
      rw [hse] at hg
      generalize hr : entries.foldl (survey now x) (height,false) = r at hb hg
      have hv : verdict now x entries x.2 =
          if r.2 = false then markObservationFailure x.2 .divergentResponse
          else if x.1.maxLagBlocks < r.1 - height then markObservationFailure x.2 .staleHead
          else { x.2 with lagBlocks := some (Int.bmod (r.1 - height : ℕ) (2^64)) } := by
        simp [verdict,hs,hk,hf,hr]
      simp only [Bool.false_eq_true,false_or] at hb
      by_cases hi : r.2 = true
      swap
      · rw [if_pos (by simpa using hi)] at hv
        rw [hb] at hi
        constructor <;> simp [hv,markObservationFailure,hi]
      rw [if_neg (by simp [hi])] at hv
      have hu : ∀ maximum, IsGreatest (heights now entries x) maximum ↔ maximum = r.1 :=
        fun m => ⟨fun h => h.unique hg,fun h => h ▸ hg⟩
      by_cases hla : x.1.maxLagBlocks < r.1 - height
      · rw [if_pos hla] at hv
        refine ⟨⟨fun h => by simp [hv,markObservationFailure] at h,?_⟩,by simp [hv,markObservationFailure]⟩
        rintro ⟨-,h,m,hh,-,hm,hin⟩
        cases hf.symm.trans hh
        exact absurd ((hu m).mp hm ▸ hin) (not_le.mpr hla)
      · rw [if_neg hla] at hv
        have hle : height ≤ r.1 := hg.2 (.inl hf)
        refine ⟨iff_of_true (by simp [hv,hs]) ⟨hs,height,r.1,hf,hb.mp hi,hg,not_lt.mp hla⟩,?_⟩
        intro hl _ h m hh hm
        cases hf.symm.trans hh
        rw [(hu m).mp hm,hv,Int.bmod_eq_of_le (by omega) (by omega)]
        simp [hle]

/-- A verdict depends on its entry and on which entries there are, not on their order. -/
theorem adjudication_exact (now : ℤ) (entries : List Entry) : ∃ judge : Entry → Observation,
      (∀ l : List Entry, l.Perm entries →
        adjudicateObservations (l.map (·.1)) (l.map (·.2)) now = l.map judge) ∧
      ∀ x ∈ entries, (x.2.success = false → (judge x).success = false) ∧
        (x.1.providerKind = .onChain → Judged now entries x (judge x)) := by
  refine ⟨fun x => verdict now x entries x.2,fun l hp => ?_,fun x _ => ⟨fun hf => ?_,fun hk => ?_⟩⟩
  · rw [adjudicate_eq]
    exact map_congr_left fun x _ => verdict_congr (fun _ _ => hp.mem_iff) x.2
  · simp [verdict,hf]
  · exact verdict_judged hk

/-- Two providers of one chain. -/
def sampleEntries (maxLagBlocks height : ℕ) : List Entry :=
  [("a",0),("b",height)].map fun d =>
    (⟨.onChain,"","","tron",.head,d.1,60*second,maxLagBlocks⟩,⟨true,.none,none,some d.2,some 0⟩)

theorem adjudication_sample : ∃ judge : Entry → Observation,
    adjudicateObservations ((sampleEntries 2 1).map (·.1)) ((sampleEntries 2 1).map (·.2)) 0 =
      (sampleEntries 2 1).map judge ∧
      ∀ x ∈ sampleEntries 2 1, Judged 0 (sampleEntries 2 1) x (judge x) := by
  obtain ⟨judge,hj,hx⟩ := adjudication_exact 0 (sampleEntries 2 1)
  have hk : ∀ x ∈ sampleEntries 2 1, x.1.providerKind = .onChain := by decide +kernel
  exact ⟨judge,hj _ (.refl _),fun x h => (hx x h).2 (hk x h)⟩

/-- A lag of 2^63 blocks is converted to a negative one. -/
theorem lag_wraps : (adjudicateObservations ((sampleEntries (2^63) (2^63)).map (·.1))
      ((sampleEntries (2^63) (2^63)).map (·.2)) 0).map (fun o => (o.success,o.lagBlocks)) =
      [(true,some (-2^63)),(true,some 0)] := by
  decide +kernel

end Ocrypt.ProviderHealth
