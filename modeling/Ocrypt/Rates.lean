import Ocrypt.Money
import Ocrypt.OrderStatistics

/-! The prices of a rate target: exact positive rationals, their lower median and spread, and the
choice of observations that agree. -/
namespace Ocrypt.Rates
open Fallible Money OrderStatistics List

inductive RateError
  | invalidConfig
  | unavailable
  | noQuorum
  | divergent
  | emptyMedian
  deriving DecidableEq, Repr

/-- A positive rational in lowest terms whose parts fit 256 bits. -/
@[ext]
structure Rational where
  (numerator denominator : ℕ)
  numerator_pos : 0 < numerator
  denominator_pos : 0 < denominator
  reduced : numerator.Coprime denominator
  fits : numerator < 2^256 ∧ denominator < 2^256
  deriving DecidableEq

def canonicalPositiveInteger (value : String) : Bool :=
  value ≠ "" && value.length ≤ 78 && value.toList.head? ≠ some '0' && value.toList.all Char.isDigit

def newRational (numerator denominator : String) : Except RateError Rational :=
  if canonicalPositiveInteger numerator && canonicalPositiveInteger denominator then
    let n := Nat.ofDigitChars 10 numerator.toList 0
    let d := Nat.ofDigitChars 10 denominator.toList 0
    let gcd := n.gcd d
    if h : 0 < n ∧ 0 < d ∧ n / gcd < 2^256 ∧ d / gcd < 2^256 then
      .ok ⟨n / gcd,d / gcd,Nat.div_gcd_pos_of_pos_left d h.1,Nat.div_gcd_pos_of_pos_right n h.2.1,
        Nat.coprime_div_gcd_div_gcd (Nat.gcd_pos_of_pos_left d h.1),h.2.2⟩
    else .error .invalidConfig
  else .error .invalidConfig

namespace Rational

/-- `Cmp` finds the first one smaller, by cross multiplication. -/
def less (a b : Rational) : Bool := a.numerator*b.denominator < b.numerator*a.denominator

def value (a : Rational) : ℚ := a.numerator / a.denominator

end Rational

def median (values : List Rational) : Except RateError Rational :=
  if values = [] then .error .emptyMedian
  else
    let ordered := values.insertionSort fun a b => ¬b.less a
    let middle := ordered.length / 2
    orFail (if ordered.length % 2 = 1 then ordered[middle]? else ordered[middle - 1]?) .emptyMedian

/-- The spread in basis points, rounded up, and whether it is allowed before rounding. The largest
value is not below the smallest, so that the difference is not negative. -/
def spreadBPS (values : List Rational) (center : Rational) (maximum : ℤ) :
    Except RateError (ℕ × Bool) :=
  match values with
  | [] => .error .invalidConfig
  | first::rest =>
    if maximum < 0 ∨ 10000 < maximum then .error .invalidConfig
    else
      let least := rest.foldl (fun m v => if v.less m then v else m) first
      let largest := rest.foldl (fun m v => if m.less v then v else m) first
      let diffN := largest.numerator*least.denominator - least.numerator*largest.denominator
      let diffD := largest.denominator*least.denominator
      let left := diffN*10000*center.denominator
      let right := diffD*center.numerator*maximum.toNat
      let denominator := diffD*center.numerator
      let quotient := left / denominator+if 0 < left % denominator then 1 else 0
      if quotient < 2^63 then .ok (quotient,left ≤ right) else .error .divergent

structure Observation where
  (id tenantID policyKey sourceKey providerRef providerObservationID baseAsset quoteAsset : String)
  price : Rational
  (providerObservedAt receivedAt : ℤ)
  (rawResponseHash sourceSnapshotID : String)
  sourceFenceToken : ℤ
  deriving DecidableEq

def before (a b : Observation) : Bool :=
  a.price.less b.price || (!b.price.less a.price && a.sourceKey ≤ b.sourceKey)

def measure (prices : List Rational) (maxSpreadBPS : ℤ) : Except RateError (ℕ × Bool) := do
  let center ← median prices
  spreadBPS prices center maxSpreadBPS

/-- One window: it is kept if its prices agree with a smaller spread than the best so far. -/
def tryWindow (ordered : List Observation) (quorum : ℕ) (maxSpreadBPS : ℤ)
    (best : Option (ℕ × ℕ)) (start : ℕ) : Except RateError (Option (ℕ × ℕ)) := do
  let (spread,allowed) ← measure ((window ordered start quorum).map (·.price)) maxSpreadBPS
  pure (if allowed ∧ ∀ b ∈ best, spread < b.2 then some (start,spread) else best)

def selectAgreeingObservations (observations : List Observation) (quorum : ℕ)
    (maxSpreadBPS : ℤ) : Except RateError (List Observation) := do
  require (quorum ≤ observations.length ∧ 2 ≤ quorum) .noQuorum
  let (_,allowed) ← measure (observations.map (·.price)) maxSpreadBPS
  if allowed then pure observations
  else
    let ordered := observations.insertionSort fun a b => before a b
    let best ← (List.range (ordered.length+1 - quorum)).foldlM
      (tryWindow ordered quorum maxSpreadBPS) none
    match best with
    | none => .error .divergent
    | some (start,_) => pure (window ordered start quorum)

namespace Rational
variable {a b : Rational}

lemma less_iff : a.less b = true ↔ a.value < b.value := by
  have ha : (0 : ℚ) < a.denominator := by exact_mod_cast a.denominator_pos
  have hb : (0 : ℚ) < b.denominator := by exact_mod_cast b.denominator_pos
  unfold less value
  rw [decide_eq_true_eq,div_lt_div_iff₀ ha hb]
  exact_mod_cast Iff.rfl

lemma not_less_iff : ¬a.less b = true ↔ b.value ≤ a.value := by
  rw [less_iff,not_lt]

lemma value_injective : Function.Injective value := by
  intro a b h
  have ha : (a.denominator : ℚ) ≠ 0 := by exact_mod_cast a.denominator_pos.ne'
  have hb : (b.denominator : ℚ) ≠ 0 := by exact_mod_cast b.denominator_pos.ne'
  unfold value at h
  rw [div_eq_div_iff ha hb] at h
  have hcr : a.numerator*b.denominator = b.numerator*a.denominator := by exact_mod_cast h
  have hd : a.denominator = b.denominator := by
    apply Nat.dvd_antisymm
    · exact a.reduced.symm.dvd_of_dvd_mul_left ⟨b.numerator,by rw [hcr,Nat.mul_comm]⟩
    · exact b.reduced.symm.dvd_of_dvd_mul_left ⟨a.numerator,by rw [← hcr,Nat.mul_comm]⟩
  have hn : a.numerator = b.numerator := by
    rw [hd] at hcr
    exact Nat.eq_of_mul_eq_mul_right b.denominator_pos hcr
  exact Rational.ext hn hd

end Rational

def lowerMedian (xs : List ℚ) : ℚ := (xs.insertionSort (· ≤ ·)).getD (middle xs.length) 0

/-- No two of the prices are further apart than the bound, in basis points of the center, says. -/
def Within (bound : ℤ) (center : ℚ) (xs : List ℚ) : Prop :=
  ∀ x ∈ xs, ∀ y ∈ xs, (x - y)*10000 ≤ center*bound

/-- The prices agree: their spread around the lower median is within the bound. -/
def Agrees (bound : ℤ) (xs : List ℚ) : Prop := Within bound (lowerMedian xs) xs

/-- The exact spread of the prices is at most `bound` basis points. -/
def SpreadAtMost (bound : ℚ) (xs : List ℚ) : Prop :=
  ∀ x ∈ xs, ∀ y ∈ xs, (x - y)*10000 ≤ lowerMedian xs*bound

/-- The spread of `xs` in whole basis points, rounded up, is at most that of `ys`. -/
def RoundsBelow (xs ys : List ℚ) : Prop := ∀ n : ℕ, Agrees n ys → Agrees n xs

/-- The exact spread of `xs` is at most that of `ys`. -/
def Tighter (xs ys : List ℚ) : Prop := ∀ bound, 0 ≤ bound → SpreadAtMost bound ys → SpreadAtMost bound xs

section
variable {values : List Rational} {center m : Rational} {maximum : ℤ} {least largest : Rational}

lemma map_value_sorted (values : List Rational) :
    (values.insertionSort fun a b => ¬b.less a).map Rational.value =
      (values.map Rational.value).insertionSort (· ≤ ·) := by
  apply map_insertionSort
  intro a _ b _
  exact Rational.not_less_iff

lemma middle_eq (n : ℕ) : (if n % 2 = 1 then n / 2 else n / 2 - 1) = middle n := by
  unfold middle
  split_ifs <;> omega

lemma median_spec (h : values ≠ []) : ∃ m ∈ values, median values = .ok m ∧
    m.value = lowerMedian (values.map Rational.value) := by
  set ordered := values.insertionSort fun a b => ¬b.less a with ho
  have hlength : ordered.length = values.length := length_insertionSort ..
  have hp : values.length ≠ 0 := by simpa using h
  have hlt : middle values.length < ordered.length := by
    unfold middle
    omega
  have hg : (if ordered.length % 2 = 1 then ordered[ordered.length / 2]?
      else ordered[ordered.length / 2 - 1]?) = some ordered[middle values.length] := by
    rw [← getElem?_eq_getElem hlt,← middle_eq,hlength]
    split_ifs <;> rfl
  refine ⟨ordered[middle values.length],?_,?_,?_⟩
  · exact (mem_insertionSort _).mp (getElem_mem hlt)
  · unfold median
    rw [if_neg h]
    dsimp only
    rw [hg]
    rfl
  · unfold lowerMedian
    rw [← map_value_sorted,length_map,getD_eq_getElem?_getD,getElem?_map,getElem?_eq_getElem hlt]
    rfl

lemma foldl_extreme (key : Rational → ℚ) (ahead : Rational → Rational → Bool)
    (h : ∀ v m, ahead v m = true ↔ key v < key m) (first : Rational) (rest : List Rational) :
    let best := rest.foldl (fun m v => if ahead v m then v else m) first
    best ∈ first::rest ∧ ∀ v ∈ first::rest, key best ≤ key v := by
  induction rest generalizing first with
  | nil => simp
  | cons v rest ih =>
    obtain ⟨hme,hle⟩ := ih (if ahead v first then v else first)
    simp only [foldl_cons]
    have hst : key (if ahead v first then v else first) ≤ key v ∧
        key (if ahead v first then v else first) ≤ key first := by
      split_ifs with hah
      · exact ⟨le_refl _,((h v first).mp hah).le⟩
      · exact ⟨not_lt.mp (mt (h v first).mpr hah),le_refl _⟩
    have hhe := hle _ mem_cons_self
    refine ⟨?_,fun w hw => ?_⟩
    · rcases mem_cons.mp hme with heq | hme
      · rw [heq]
        split_ifs <;> simp
      · exact mem_cons_of_mem _ (mem_cons_of_mem _ hme)
    · rcases mem_cons.mp hw with rfl | hw
      · exact hhe.trans hst.2
      rcases mem_cons.mp hw with rfl | hw
      · exact hhe.trans hst.1
      · exact hle w (mem_cons_of_mem _ hw)

lemma within_iff (bound : ℤ) (c : ℚ) (hla : least ∈ values)
    (hl : largest ∈ values) (hle : ∀ v ∈ values, least.value ≤ v.value)
    (hge : ∀ v ∈ values, v.value ≤ largest.value) : Within bound c (values.map Rational.value) ↔
      (largest.value - least.value)*10000 ≤ c*bound := by
  constructor
  · intro h
    exact h _ (mem_map_of_mem hl) _ (mem_map_of_mem hla)
  · intro h x hx y hy
    obtain ⟨v,hv,rfl⟩ := mem_map.mp hx
    obtain ⟨w,hw,rfl⟩ := mem_map.mp hy
    have hv' := hge v hv
    have hw' := hle w hw
    linarith

lemma left_le_iff (hle : least.value ≤ largest.value) (bound : ℕ) :
    (largest.numerator*least.denominator - least.numerator*largest.denominator)*10000 *
        center.denominator ≤ largest.denominator*least.denominator*center.numerator*bound ↔
    (largest.value - least.value)*10000 ≤ center.value*bound := by
  have h1 : (0 : ℚ) < least.denominator := by exact_mod_cast least.denominator_pos
  have h2 : (0 : ℚ) < largest.denominator := by exact_mod_cast largest.denominator_pos
  have h3 : (0 : ℚ) < center.denominator := by exact_mod_cast center.denominator_pos
  have hcr : least.numerator*largest.denominator ≤
      largest.numerator*least.denominator := by
    unfold Rational.value at hle
    rw [div_le_div_iff₀ h1 h2] at hle
    exact_mod_cast hle
  have hd : largest.value - least.value =
      ((largest.numerator*least.denominator - least.numerator*largest.denominator : ℕ) : ℚ) /
        (largest.denominator*least.denominator) := by
    rw [Nat.cast_sub hcr]
    unfold Rational.value
    rw [div_sub_div _ _ h2.ne' h1.ne']
    push_cast
    ring
  rw [hd]
  set n := largest.numerator*least.denominator - least.numerator*largest.denominator
  unfold Rational.value
  rw [div_mul_eq_mul_div,div_mul_eq_mul_div,div_le_div_iff₀ (mul_pos h2 h1) h3,
    ← Nat.cast_le (α := ℚ)]
  push_cast
  constructor <;> intro h <;> linarith

/-- The largest spread that is reported: the spread has to fit an `int64`. -/
def maxReported : ℤ := 2^63 - 1

section
variable (h : values ≠ []) (hma : 0 ≤ maximum ∧ maximum ≤ 10000)
include h hma

lemma spreadBPS_spec : (¬Within maxReported center.value (values.map Rational.value) →
      spreadBPS values center maximum = .error .divergent) ∧
    (Within maxReported center.value (values.map Rational.value) →
      ∃ spread : ℕ, spreadBPS values center maximum = .ok (spread,spread ≤ maximum) ∧
        ∀ n : ℕ, spread ≤ n ↔ Within n center.value (values.map Rational.value)) := by
  obtain ⟨first,rest,rfl⟩ := exists_cons_of_ne_nil h
  obtain ⟨hla,hle⟩ := foldl_extreme Rational.value Rational.less
    (fun v m => Rational.less_iff) first rest
  obtain ⟨hl,hge⟩ := foldl_extreme (fun v => -v.value) (fun v m => m.less v)
    (fun v m => by rw [Rational.less_iff,neg_lt_neg_iff]) first rest
  simp only [neg_le_neg_iff] at hge
  set least := rest.foldl (fun m v => if v.less m then v else m) first
  set largest := rest.foldl (fun m v => if m.less v then v else m) first
  have ho := hle largest hl
  have hco : ∀ bound : ℕ, Within bound center.value ((first::rest).map Rational.value) ↔
      (largest.numerator*least.denominator - least.numerator*largest.denominator)*10000 *
        center.denominator ≤
      largest.denominator*least.denominator*center.numerator*bound := by
    intro bound
    rw [within_iff bound center.value hla hl hle hge,left_le_iff ho]
    rfl
  have hp :=
    Nat.mul_pos (Nat.mul_pos largest.denominator_pos least.denominator_pos) center.numerator_pos
  have hra : ¬(maximum < 0 ∨ 10000 < maximum) := by omega
  have hle := fun n => (ceil_le_iff hp).trans (hco n).symm
  have hr : Within maxReported center.value ((first::rest).map Rational.value) ↔ _ :=
    (hle (2^63 - 1)).symm
  simp only [spreadBPS]
  rw [if_neg hra,hr]
  refine ⟨fun hw => if_neg fun hf => hw (Nat.le_sub_one_of_lt hf),fun hn => ⟨_,?_,hle⟩⟩
  rw [if_pos (Nat.lt_of_le_of_lt hn (by norm_num))]
  congr 3
  rw [← ceil_le_iff hp]
  exact propext (Int.le_toNat hma.1)

lemma measure_spec :
    (¬Agrees maxReported (values.map Rational.value) → measure values maximum = .error .divergent) ∧
    (Agrees maxReported (values.map Rational.value) →
      ∃ spread : ℕ, measure values maximum = .ok (spread,spread ≤ maximum) ∧
        ∀ n : ℕ, spread ≤ n ↔ Agrees n (values.map Rational.value)) := by
  obtain ⟨center,-,hme,hv⟩ := median_spec h
  have hm : measure values maximum = spreadBPS values center maximum := by
    simp [measure,hme]
  unfold Agrees
  rw [hm,← hv]
  exact spreadBPS_spec h hma

end

end

def prices (observations : List Observation) : List ℚ := observations.map fun o => o.price.value

section
variable {observations ordered : List Observation} {quorum start : ℕ} {bps : ℤ}
  {a b : Observation}

lemma before_iff : before a b = true ↔
    a.price.value < b.price.value ∨ (a.price.value = b.price.value ∧ a.sourceKey ≤ b.sourceKey) := by
  unfold before
  simp only [Bool.or_eq_true,Bool.and_eq_true,Bool.not_eq_true',decide_eq_true_eq,
    Rational.less_iff,← Bool.not_eq_true,not_lt]
  constructor
  · rintro (h | ⟨h,hk⟩)
    · exact .inl h
    · rcases h.lt_or_eq with h | h
      · exact .inl h
      · exact .inr ⟨h,hk⟩
  · rintro (h | ⟨h,hk⟩)
    · exact .inl h
    · exact .inr ⟨h.le,hk⟩

lemma before_iff_lex : before a b = true ↔
    toLex (a.price.value,a.sourceKey) ≤ toLex (b.price.value,b.sourceKey) := by
  rw [before_iff,Prod.Lex.toLex_le_toLex]

instance : Std.Total fun a b : Observation => before a b = true := ⟨fun a b => by
  simp only [before_iff_lex]
  exact le_total _ _⟩

instance : IsTrans Observation fun a b => before a b = true := ⟨fun _ _ _ hab hbc =>
  before_iff_lex.mpr ((before_iff_lex.mp hab).trans (before_iff_lex.mp hbc))⟩

lemma prices_sorted (observations : List Observation) :
    prices (observations.insertionSort fun a b => before a b) =
      (prices observations).insertionSort (· ≤ ·) := by
  have hso := pairwise_insertionSort (fun a b => before a b = true) observations
  have hp := perm_insertionSort (fun a b => before a b = true) observations
  refine List.Perm.eq_of_pairwise' ?_ (pairwise_insertionSort (· ≤ ·) _) ?_
  · exact pairwise_map.mpr (hso.imp fun h => (before_iff.mp h).elim le_of_lt fun h => h.1.le)
  · exact (hp.map _).trans (perm_insertionSort (· ≤ ·) _).symm

lemma prices_window : prices (window ordered start quorum) = window (prices ordered) start quorum := by
  simp [prices,window]

lemma map_value_prices (observations : List Observation) :
    (observations.map (·.price)).map Rational.value = prices observations := by
  simp [prices]

lemma window_ne_nil (hquorum : 1 ≤ quorum) (hst : start+quorum ≤ ordered.length) :
    window ordered start quorum ≠ [] := by
  rw [← length_pos_iff,length_window hst]
  omega

/-- What is known after the windows before `count`: the best of them with its spread, which no earlier
window attains. -/
structure Scanned (ordered : List Observation) (quorum : ℕ) (bps : ℤ) (count : ℕ)
    (best : Option (ℕ × ℕ)) : Prop where
  measured : ∀ b ∈ best, b.1 < count ∧ b.2 ≤ bps ∧
    ∀ n : ℕ, b.2 ≤ n ↔ Agrees n (window (prices ordered) b.1 quorum)
  found : ∀ s < count, ∀ n : ℕ, n ≤ bps → Agrees n (window (prices ordered) s quorum) →
    ∃ b ∈ best, b.2 ≤ n
  first : ∀ b ∈ best, ∀ s < b.1, ¬Agrees b.2 (window (prices ordered) s quorum)

section
variable {best : Option (ℕ × ℕ)} {count : ℕ} (hquorum : 1 ≤ quorum) (hbp : 0 ≤ bps ∧ bps ≤ 10000)
include hquorum hbp

lemma tryWindow_unreported (hst : start+quorum ≤ ordered.length)
    (h : ¬Agrees maxReported (window (prices ordered) start quorum)) :
    tryWindow ordered quorum bps best start = .error .divergent := by
  have hne : (window ordered start quorum).map (·.price) ≠ [] := by
    simpa using window_ne_nil hquorum hst
  have hw := (measure_spec hne hbp).1
  rw [map_value_prices,prices_window] at hw
  simp only [tryWindow,hw h]
  rfl

lemma Scanned.tryWindow (hsc : Scanned ordered quorum bps count best)
    (hst : count+quorum ≤ ordered.length)
    (h : Agrees maxReported (window (prices ordered) count quorum)) :
    ∃ best', Rates.tryWindow ordered quorum bps best count = .ok best' ∧
      Scanned ordered quorum bps (count+1) best' := by
  have hne : (window ordered count quorum).map (·.price) ≠ [] := by
    simpa using window_ne_nil hquorum hst
  have hn := (measure_spec hne hbp).2
  rw [map_value_prices,prices_window] at hn
  obtain ⟨spread,hm,hle⟩ := hn h
  refine ⟨if (spread ≤ bps : Bool) ∧ ∀ b ∈ best,spread < b.2 then some (count,spread) else best,
    ?_,?_⟩
  · simp only [Rates.tryWindow,hm]
    rfl
  split_ifs with hk
  · have hbo : (spread : ℤ) ≤ bps := of_decide_eq_true hk.1
    refine ⟨?_,fun s hs n hnb hag => ⟨_,rfl,?_⟩,?_⟩
    · rintro b ⟨⟩
      exact ⟨Nat.lt_succ_self _,hbo,hle⟩
    · rcases Nat.lt_succ_iff_lt_or_eq.mp hs with hs | rfl
      · obtain ⟨b,hb,hbn⟩ := hsc.found s hs n hnb hag
        exact (hk.2 b hb).le.trans hbn
      · exact (hle n).mpr hag
    · rintro b ⟨⟩ s hs hag
      obtain ⟨b,hb,hbn⟩ := hsc.found s hs spread hbo hag
      exact absurd (hk.2 b hb) (not_lt.mpr hbn)
  · refine ⟨fun b hb => ?_,fun s hs n hnb hag => ?_,hsc.first⟩
    · obtain ⟨hlt,hb⟩ := hsc.measured b hb
      exact ⟨Nat.lt_succ_of_lt hlt,hb⟩
    · rcases Nat.lt_succ_iff_lt_or_eq.mp hs with hs | rfl
      · exact hsc.found s hs n hnb hag
      · have hsn := (hle n).mpr hag
        by_contra hno
        push Not at hno
        exact hk ⟨decide_eq_true (by omega),fun b hb => lt_of_le_of_lt hsn (hno b hb)⟩

lemma tryWindows_spec (hco : count+quorum ≤ ordered.length+1) :
    ((¬∀ s < count, Agrees maxReported (window (prices ordered) s quorum)) ∧
      (List.range count).foldlM (Rates.tryWindow ordered quorum bps) none = .error .divergent) ∨
    ((∀ s < count, Agrees maxReported (window (prices ordered) s quorum)) ∧
      ∃ best, (List.range count).foldlM (Rates.tryWindow ordered quorum bps) none = .ok best ∧
        Scanned ordered quorum bps count best) := by
  induction count with
  | zero => exact .inr ⟨by simp,none,rfl,by simp,by simp,by simp⟩
  | succ count ih =>
    simp only [range_succ,foldlM_append,foldlM_cons,foldlM_nil]
    obtain ⟨hno,hf⟩ | ⟨hal,best,hf,hsc⟩ := ih (by omega)
    · refine .inl ⟨fun h => hno fun s hs => h s (by omega),?_⟩
      rw [hf]
      rfl
    · rw [hf]
      by_cases h : Agrees maxReported (window (prices ordered) count quorum)
      · obtain ⟨best',ht,hsc'⟩ := hsc.tryWindow hquorum hbp (by omega) h
        refine .inr ⟨fun s hs => ?_,best',by simp [ht],hsc'⟩
        rcases Nat.lt_succ_iff_lt_or_eq.mp hs with hs | rfl
        · exact hal s hs
        · exact h
      · refine .inl ⟨fun hall => h (hall count (Nat.lt_succ_self _)),?_⟩
        simp [tryWindow_unreported hquorum hbp (by omega) h]

end

end

section
variable {xs ys : List ℚ} {quorum : ℕ}

lemma getElem?_middle (h : xs ≠ []) :
    (xs.insertionSort (· ≤ ·))[middle xs.length]? = some (lowerMedian xs) := by
  have hlt : middle xs.length < (xs.insertionSort (· ≤ ·)).length := by
    rw [length_insertionSort]
    have hp := length_pos_iff.mpr h
    unfold middle
    omega
  unfold lowerMedian
  rw [getD_eq_getElem?_getD,getElem?_eq_getElem hlt]
  rfl

/-- Some window of the sorted prices is as tight as a choice of at least a quorum of them. -/
theorem exists_tight_window {bound : ℚ} (hbp : 0 ≤ bound) (hquorum : 1 ≤ quorum)
    (hys : ys.Subperm xs) (hlength : quorum ≤ ys.length) (hag : SpreadAtMost bound ys) :
    ∃ start, start+quorum ≤ xs.length ∧
      SpreadAtMost bound (window (xs.insertionSort (· ≤ ·)) start quorum) := by
  set sorted := xs.insertionSort (· ≤ ·) with hso
  have hp := pairwise_insertionSort (· ≤ ·) xs
  have hsu : (ys.insertionSort (· ≤ ·)).Sublist sorted := by
    apply sublist_of_subperm_of_pairwise _ (pairwise_insertionSort (· ≤ ·) ys) hp
    exact ((perm_insertionSort (· ≤ ·) ys).subperm.trans hys).trans
      (perm_insertionSort (· ≤ ·) xs).symm.subperm
  obtain ⟨start,hst,hbo,hme⟩ := exists_window hp hsu hquorum
    (hlength.trans_eq (length_insertionSort ..).symm)
  rw [length_insertionSort] at hst
  refine ⟨start,hst,fun w hw w' hw' => ?_⟩
  have hne := ne_nil_of_mem hw
  have hl : (window sorted start quorum).length = quorum :=
    length_window (hst.trans_eq (length_insertionSort ..).symm)
  have hsame : (window sorted start quorum).insertionSort (· ≤ ·) = window sorted start quorum :=
    (hp.sublist (window_sublist ..)).insertionSort_eq
  have hce : lowerMedian ys ≤ lowerMedian (window sorted start quorum) := by
    have hys : ys ≠ [] := by
      rintro rfl
      simp at hlength
      omega
    have hm := getElem?_middle hne
    rw [hsame,hl] at hm
    refine hme _ _ ?_ hm
    rw [length_insertionSort]
    exact getElem?_middle hys
  obtain ⟨-,y,hy,hwy⟩ := hbo w hw
  obtain ⟨⟨x,hx,hxw⟩,-⟩ := hbo w' hw'
  have hwi := hag y ((mem_insertionSort _).mp hy) x ((mem_insertionSort _).mp hx)
  have hsc : lowerMedian ys*bound ≤ lowerMedian (window sorted start quorum)*bound :=
    mul_le_mul_of_nonneg_right hce hbp
  linarith

end

/-- The first of the windows whose spread in whole basis points is the smallest, if it agrees. -/
structure Chosen (xs : List ℚ) (quorum : ℕ) (bps : ℤ) (start : ℕ) : Prop where
  fits : start+quorum ≤ xs.length
  agrees : Agrees bps (window (xs.insertionSort (· ≤ ·)) start quorum)
  least : ∀ s, s+quorum ≤ xs.length → RoundsBelow (window (xs.insertionSort (· ≤ ·)) start quorum)
    (window (xs.insertionSort (· ≤ ·)) s quorum)
  first : ∀ s < start, ¬RoundsBelow (window (xs.insertionSort (· ≤ ·)) s quorum)
    (window (xs.insertionSort (· ≤ ·)) start quorum)

abbrev Reported (xs : List ℚ) (quorum : ℕ) : Prop := ∀ start, start+quorum ≤ xs.length →
  Agrees maxReported (window (xs.insertionSort (· ≤ ·)) start quorum)

/-- Every spread that the choice computes fits what is reported: that of all prices and, if they do
not agree, that of every window. -/
def Measured (xs : List ℚ) (quorum : ℕ) (bps : ℤ) : Prop :=
  Agrees maxReported xs ∧ (Agrees bps xs ∨ ∀ start, start+quorum ≤ xs.length →
    Agrees maxReported (window (xs.insertionSort (· ≤ ·)) start quorum))

section
variable {observations selected : List Observation} {quorum : ℕ} {bps : ℤ}

lemma length_prices : (prices observations).length = observations.length := List.length_map ..

section
variable (hquorum : 2 ≤ quorum) (hlength : quorum ≤ observations.length)
include hquorum hlength

lemma prices_ne_nil : observations.map (·.price) ≠ [] := by
  rw [← length_pos_iff,length_map]
  omega

lemma select_unreported
    (hbp : 0 ≤ bps ∧ bps ≤ 10000) (h : ¬Agrees maxReported (prices observations)) :
    selectAgreeingObservations observations quorum bps = .error .divergent := by
  have hm := (measure_spec (prices_ne_nil hquorum hlength) hbp).1
  rw [map_value_prices] at hm
  simp only [selectAgreeingObservations,require_pos (And.intro hlength hquorum),hm h]
  rfl

section
variable (hbp : 0 ≤ bps ∧ bps ≤ 10000) (h : Agrees maxReported (prices observations))
include hbp h

lemma select_all (hag : Agrees bps (prices observations)) :
    selectAgreeingObservations observations quorum bps = .ok observations := by
  have hm := (measure_spec (prices_ne_nil hquorum hlength) hbp).2
  rw [map_value_prices] at hm
  obtain ⟨spread,hok,hle⟩ := hm h
  have hal : (spread : ℤ) ≤ bps := by
    have := (hle bps.toNat).mpr (by rwa [Int.toNat_of_nonneg hbp.1])
    omega
  simp only [selectAgreeingObservations,require_pos (And.intro hlength hquorum),hok,decide_eq_true hal]
  rfl

lemma select_window (hd : ¬Agrees bps (prices observations)) :
    let sorted := (prices observations).insertionSort (· ≤ ·)
    let ordered := observations.insertionSort fun a b => before a b
    (selectAgreeingObservations observations quorum bps = .error .divergent ∧
      ¬(Reported (prices observations) quorum ∧ ∃ start, start+quorum ≤ (prices observations).length ∧
        Agrees bps (window sorted start quorum))) ∨
    (Reported (prices observations) quorum ∧ ∃ start, Chosen (prices observations) quorum bps start ∧
      selectAgreeingObservations observations quorum bps = .ok (window ordered start quorum)) := by
  intro sorted ordered
  have hm := (measure_spec (prices_ne_nil hquorum hlength) hbp).2
  rw [map_value_prices] at hm
  obtain ⟨spread,hok,hle⟩ := hm h
  have hto := Int.toNat_of_nonneg hbp.1
  have hr : ¬(spread : ℤ) ≤ bps := fun hal => hd (hto ▸ (hle bps.toNat).mp (by omega))
  have hl : ordered.length = observations.length := length_insertionSort ..
  have hsa : ∀ s, s < ordered.length+1 - quorum ↔ s+quorum ≤ (prices observations).length := by
    rw [length_prices]
    omega
  have hse : selectAgreeingObservations observations quorum bps =
      (List.range (ordered.length+1 - quorum)).foldlM (tryWindow ordered quorum bps) none >>=
        fun best => match best with
          | none => .error .divergent
          | some (start,_) => pure (window ordered start quorum) := by
    simp only [selectAgreeingObservations,require_pos (And.intro hlength hquorum),hok,decide_eq_false hr]
    rfl
  have hp : 1 ≤ quorum := by omega
  have hws : prices ordered = sorted := prices_sorted observations
  have hco : ordered.length+1 - quorum+quorum ≤ ordered.length+1 := by omega
  obtain ⟨hno,hf⟩ | ⟨hall,best,hf,hsc⟩ := tryWindows_spec hp hbp hco
  · rw [hse,hf]
    rw [hws] at hno
    refine .inl ⟨rfl,fun hso => hno fun s hs => hso.1 s ((hsa s).mp hs)⟩
  rw [hws] at hall
  rw [hse,hf]
  obtain ⟨hk,hn,hfi⟩ := hsc
  rw [hws] at hk hn hfi
  cases best with
  | none =>
    refine .inl ⟨rfl,fun hso => ?_⟩
    obtain ⟨start,hst,hag⟩ := hso.2
    have := hn start ((hsa start).mpr hst) bps.toNat hto.le (hto.symm ▸ hag)
    simp at this
  | some b =>
    obtain ⟨hst,hbo,hag⟩ := hk b rfl
    refine .inr ⟨fun s hs => hall s ((hsa s).mpr hs),b.1,⟨(hsa b.1).mp hst,?_,fun s hs n hw => ?_,
      fun s hs hro => ?_⟩,rfl⟩
    · exact hto ▸ (hag bps.toNat).mp (by omega)
    · apply (hag n).mp
      rcases le_or_gt (n : ℤ) bps with hnb | hlt
      · obtain ⟨c,hc,hcn⟩ := hn s ((hsa s).mpr hs) n hnb hw
        cases hc
        exact hcn
      · omega
    · exact hfi b rfl s hs (hro b.2 ((hag b.2).mp le_rfl))

end

end

lemma bounds_of_select (h : selectAgreeingObservations observations quorum bps = .ok selected) :
    quorum ≤ observations.length ∧ 2 ≤ quorum ∧ 0 ≤ bps ∧ bps ≤ 10000 := by
  simp only [selectAgreeingObservations,do_ok,measure] at h
  obtain ⟨⟨hlength,hquorum⟩,_,⟨center,-,hsp⟩,-⟩ := h
  cases observations with
  | nil =>
    simp at hlength
    omega
  | cons first rest =>
    simp only [map_cons,spreadBPS] at hsp
    split at hsp
    · cases hsp
    · omega

/-- All observations are chosen, or the first of the windows whose spread in whole basis points is
the smallest. -/
lemma select_cases (h : selectAgreeingObservations observations quorum bps = .ok selected) :
    Agrees maxReported (prices observations) ∧
      ((Agrees bps (prices observations) ∧ selected = observations) ∨
        (¬Agrees bps (prices observations) ∧ Reported (prices observations) quorum ∧
          ∃ start, Chosen (prices observations) quorum bps start ∧
            selected = window (observations.insertionSort fun a b => before a b) start quorum)) := by
  obtain ⟨hlength,hquorum,hbp⟩ := bounds_of_select h
  by_cases hr : Agrees maxReported (prices observations)
  · refine ⟨hr,?_⟩
    by_cases hag : Agrees bps (prices observations)
    · rw [select_all hquorum hlength hbp hr hag] at h
      cases h
      exact .inl ⟨hag,rfl⟩
    · obtain ⟨he,-⟩ | ⟨hre,start,hch,hok⟩ := select_window hquorum hlength hbp hr hag
      · rw [he] at h
        cases h
      · rw [hok] at h
        cases h
        exact .inr ⟨hag,hre,start,hch,rfl⟩
  · rw [select_unreported hquorum hlength hbp hr] at h
    cases h

lemma Chosen.selection {start : ℕ} (h : Chosen (prices observations) quorum bps start) :
    let selected := window (observations.insertionSort fun a b => before a b) start quorum
    selected.Subperm observations ∧ selected.length = quorum ∧
      prices selected = window ((prices observations).insertionSort (· ≤ ·)) start quorum := by
  refine ⟨(window_sublist ..).subperm.trans (perm_insertionSort _ _).subperm,length_window ?_,?_⟩
  · rw [length_insertionSort,← length_prices]
    exact h.fits
  · rw [prices_window,prices_sorted]

lemma select_result (h : selectAgreeingObservations observations quorum bps = .ok selected) :
    selected.Subperm observations ∧ quorum ≤ selected.length ∧ Agrees bps (prices selected) := by
  obtain ⟨-,⟨hag,rfl⟩ | ⟨-,-,start,hch,rfl⟩⟩ := select_cases h
  · exact ⟨List.Subperm.refl _,(bounds_of_select h).1,hag⟩
  · obtain ⟨hsu,hl,hp⟩ := hch.selection
    exact ⟨hsu,hl.ge,hp ▸ hch.agrees⟩

/-- Observations are chosen exactly if some of them, at least a quorum, agree and every spread that
is computed on the way fits what is reported. -/
theorem select_succeeds_iff (hquorum : 2 ≤ quorum) (hlength : quorum ≤ observations.length)
    (hbps : 0 ≤ bps ∧ bps ≤ 10000) :
    (∃ selected, selectAgreeingObservations observations quorum bps = .ok selected) ↔
      Measured (prices observations) quorum bps ∧
        ∃ ys, ys.Subperm (prices observations) ∧ quorum ≤ ys.length ∧ Agrees bps ys := by
  constructor
  · rintro ⟨selected,hse⟩
    obtain ⟨⟨l,hp,hsu⟩,hlo,hag⟩ := select_result hse
    refine ⟨?_,prices selected,⟨l.map _,hp.map _,hsu.map _⟩,by rwa [length_prices],hag⟩
    obtain ⟨hr,⟨hal,-⟩ | ⟨-,hw,-⟩⟩ := select_cases hse
    · exact ⟨hr,.inl hal⟩
    · exact ⟨hr,.inr hw⟩
  · rintro ⟨⟨hr,hm⟩,ys,hys,hlo,hag⟩
    by_cases hal : Agrees bps (prices observations)
    · exact ⟨_,select_all hquorum hlength hbps hr hal⟩
    · have hf := exists_tight_window (by exact_mod_cast hbps.1) (by omega) hys hlo hag
      obtain ⟨-,hn⟩ | ⟨-,start,-,hok⟩ := select_window hquorum hlength hbps hr hal
      · exact absurd ⟨hm.resolve_left hal,hf⟩ hn
      · exact ⟨_,hok⟩

lemma selected_window (h : selectAgreeingObservations observations quorum bps = .ok selected)
    (hd : ¬Agrees bps (prices observations)) :
    selected.Subperm observations ∧ selected.length = quorum ∧ 2 ≤ quorum ∧
      ∃ start, Chosen (prices observations) quorum bps start ∧
        prices selected = window ((prices observations).insertionSort (· ≤ ·)) start quorum := by
  obtain ⟨-,⟨hag,-⟩ | ⟨-,-,start,hch,rfl⟩⟩ := select_cases h
  · exact absurd hag hd
  · obtain ⟨hsu,hl,hp⟩ := hch.selection
    exact ⟨hsu,hl,(bounds_of_select h).2.1,start,hch,hp⟩

/-- Of prices that do not agree, a quorum is chosen whose spread in whole basis points, rounded up,
is the smallest of all quorums. -/
theorem tightest_quorum_rounded
    (h : selectAgreeingObservations observations quorum bps = .ok selected)
    (hdivergent : ¬Agrees bps (prices observations)) :
    selected.Subperm observations ∧ selected.length = quorum ∧
      ∀ ys : List ℚ, ys.Subperm (prices observations) → ys.length = quorum →
        ∀ n : ℕ, Agrees n ys → Agrees n (prices selected) := by
  obtain ⟨hsu,hl,hq,start,hch,hse⟩ := selected_window h hdivergent
  refine ⟨hsu,hl,fun ys hys hle n hag => ?_⟩
  obtain ⟨s,hs,hw⟩ := exists_tight_window (Nat.cast_nonneg n) (by omega) hys hle.ge hag
  rw [hse]
  exact hch.least s hs n hw

/-- Among the windows of the least spread in whole basis points, the first one has the least exact
spread. -/
def FirstTightest (xs : List ℚ) (quorum : ℕ) : Prop :=
  let w := window (xs.insertionSort (· ≤ ·))
  ∀ start, start+quorum ≤ xs.length →
    (∀ s, s+quorum ≤ xs.length → RoundsBelow (w start quorum) (w s quorum)) →
    (∀ s < start, ¬RoundsBelow (w s quorum) (w start quorum)) →
    ∀ s, s+quorum ≤ xs.length → RoundsBelow (w s quorum) (w start quorum) →
      Tighter (w start quorum) (w s quorum)

lemma SpreadAtMost.mono {xs : List ℚ} {a b : ℚ} (h : SpreadAtMost a xs) (hm : 0 ≤ lowerMedian xs)
    (hab : a ≤ b) : SpreadAtMost b xs := by
  intro x hx y hy
  exact (h x hx y hy).trans (mul_le_mul_of_nonneg_left hab hm)

lemma lowerMedian_nonneg {xs : List ℚ} (h : ∀ x ∈ xs, 0 ≤ x) : 0 ≤ lowerMedian xs := by
  by_cases hne : xs = []
  · simp [hne,lowerMedian]
  · exact h _ ((mem_insertionSort _).mp (mem_of_getElem? (getElem?_middle hne)))

lemma prices_nonneg {x : ℚ} (h : x ∈ prices observations) : 0 ≤ x := by
  obtain ⟨o,-,rfl⟩ := mem_map.mp h
  unfold Rational.value
  positivity

/-- A quorum of prices that do not agree is chosen, and it is the tightest one exactly if rounding to
whole basis points hides no tighter window behind the first. -/
theorem tightest_quorum_iff
    (h : selectAgreeingObservations observations quorum bps = .ok selected)
    (hdivergent : ¬Agrees bps (prices observations)) :
    selected.Subperm observations ∧ selected.length = quorum ∧
      ((∀ ys : List ℚ, ys.Subperm (prices observations) → ys.length = quorum →
          Tighter (prices selected) ys) ↔ FirstTightest (prices observations) quorum) := by
  obtain ⟨hsu,hl,hq,start,hch,hse⟩ := selected_window h hdivergent
  refine ⟨hsu,hl,?_⟩
  set w := window ((prices observations).insertionSort (· ≤ ·)) with hw
  rw [hse]
  have hsub : ∀ s, (w s quorum).Subperm (prices observations) := fun s =>
    (window_sublist ..).subperm.trans (perm_insertionSort _ _).subperm
  constructor
  · intro ht first hf hle hno s hs _
    -- the first window of least rounded spread is the chosen one
    obtain hlt | rfl | hgt := lt_trichotomy first start
    · exact absurd (hle start hch.fits) (hch.first first hlt)
    · exact ht _ (hsub s) (length_window (hs.trans_eq (length_insertionSort ..).symm))
    · exact absurd (hch.least first hf) (hno start hgt)
  · intro hft ys hys hle bound hbo hag
    obtain ⟨s,hs,hws⟩ := exists_tight_window hbo (by omega) hys hle.ge hag
    by_cases hro : RoundsBelow (w s quorum) (w start quorum)
    · exact hft start hch.fits hch.least hch.first s hs hro bound hbo hws
    · -- a window of a larger rounded spread has a larger exact spread
      unfold RoundsBelow at hro
      push Not at hro
      obtain ⟨n,hin,hout⟩ := hro
      have hpos : ∀ t, 0 ≤ lowerMedian (w t quorum) := fun t =>
        lowerMedian_nonneg fun x hx => prices_nonneg ((hsub t).subset hx)
      refine SpreadAtMost.mono hin (hpos start) ?_
      by_contra hlt
      exact hout (SpreadAtMost.mono hws (hpos s) (not_le.mp hlt).le)

end

def wholePrice (n : ℕ) (h : 0 < n ∧ n < 2^256) : Rational :=
  ⟨n,1,h.1,by decide,Nat.coprime_one_right n,h.2,by decide⟩

def sampleObservation (sourceKey : String) (price : ℕ) (observedAt : ℤ)
    (h : 0 < price ∧ price < 2^256 := by decide) : Observation where
  id := "observation-" ++ sourceKey
  tenantID := ""
  policyKey := "usdt-usd"
  sourceKey := sourceKey
  providerRef := "provider-" ++ sourceKey
  providerObservationID := "1"
  baseAsset := "usdt"
  quoteAsset := "USD"
  price := wholePrice price h
  providerObservedAt := observedAt
  receivedAt := 100
  rawResponseHash := ""
  sourceSnapshotID := "snapshot"
  sourceFenceToken := 1

def sampleObservations : List Observation :=
  [sampleObservation "a" 100 90,sampleObservation "b" 500 91,sampleObservation "c" 101 92]

lemma sampleObservations_selected : selectAgreeingObservations sampleObservations 2 200 =
    .ok [sampleObservation "a" 100 90,sampleObservation "c" 101 92] := by
  decide +kernel

theorem select_succeeds_iff_sample :
    (∃ selected, selectAgreeingObservations sampleObservations 2 200 = .ok selected ∧
      selected.map (·.sourceKey) = ["a", "c"]) ∧ Measured (prices sampleObservations) 2 200 := by
  have hok := sampleObservations_selected
  have hm := (select_succeeds_iff (by decide) (by decide) (by decide)).mp ⟨_,hok⟩
  exact ⟨⟨_,hok,rfl⟩,hm.1⟩

lemma sampleObservations_prices : prices sampleObservations = [100,500,101] := by
  norm_num [sampleObservations,prices,sampleObservation,wholePrice,Rational.value]

/-- Of the windows 100, 101 and 101, 500 only the first has the least spread. -/
lemma sampleObservations_first : FirstTightest (prices sampleObservations) 2 := by
  have hso : ([100,500,101] : List ℚ).insertionSort (· ≤ ·) = [100,101,500] := by norm_num
  have hne : ¬RoundsBelow (window [100,101,500] 1 2) (window [100,101,500] 0 2) := by
    intro h
    have hag := h 100 fun x hx y hy => ?_
    · have hw := hag 500 (by simp [window]) 101 (by simp [window])
      norm_num [window,lowerMedian,middle] at hw
    · simp only [window,take_succ_cons,drop_zero,take_zero,mem_cons,not_mem_nil,or_false] at hx hy
      rcases hx with rfl | rfl <;> rcases hy with rfl | rfl <;>
        norm_num [window,lowerMedian,middle]
  unfold FirstTightest
  simp only [sampleObservations_prices,hso,length_cons,length_nil]
  intro start hst hle _ s hs hro
  have hone : ∀ t, t+2 ≤ 3 → t ≠ 1 → t = 0 := by omega
  obtain rfl := hone start hst fun h => hne (h ▸ hle 0 (by omega))
  obtain rfl := hone s hs fun h => hne (h ▸ hro)
  exact fun _ _ h => h

/-- No two of the prices are closer than the chosen 100 and 101. -/
theorem tightest_quorum_sample : ∃ selected,
    selectAgreeingObservations sampleObservations 2 200 = .ok selected ∧
      Tighter (prices selected) [100,500] := by
  have hok := sampleObservations_selected
  have hd : ¬Agrees 200 (prices sampleObservations) := by
    intro h
    rw [sampleObservations_prices] at h
    have hw := h 500 (by simp) 100 (by simp)
    norm_num [lowerMedian,middle] at hw
  refine ⟨_,hok,(tightest_quorum_iff hok hd).2.2.mpr sampleObservations_first _ ?_ rfl⟩
  rw [sampleObservations_prices]
  exact List.Sublist.subperm (by simp)

def sampleTie : List Observation :=
  [sampleObservation "a" 100000 90,sampleObservation "b" 100009 91,
    sampleObservation "c" 200000 92,sampleObservation "d" 200001 93]

lemma sampleTie_prices : prices sampleTie = [100000,100009,200000,200001] := by
  norm_num [sampleTie,prices,sampleObservation,wholePrice,Rational.value]

lemma sampleTie_selected :
    selectAgreeingObservations sampleTie 2 100 = .ok (sampleTie.take 2) := by decide +kernel

lemma sampleTie_divergent : ¬Agrees 100 (prices sampleTie) := by
  intro h
  have hm : lowerMedian [100000,100009,200000,200001] = 100009 := by
    norm_num [lowerMedian,middle]
  rw [sampleTie_prices] at h
  have hw := h 200001 (by simp) 100000 (by simp)
  rw [hm] at hw
  norm_num at hw

lemma sampleTie_subperm : [200000,200001].Subperm (prices sampleTie) := by
  rw [sampleTie_prices]
  exact List.Sublist.subperm (by simp)

/-- Both pairs have a spread of one basis point, rounded up. The first one is chosen although the
second is tighter. -/
theorem tighter_quorum_passed_over : ∃ selected, ¬Agrees 100 (prices sampleTie) ∧
    selectAgreeingObservations sampleTie 2 100 = .ok selected ∧
      [200000,200001].Subperm (prices sampleTie) ∧ SpreadAtMost (1/10) [200000,200001] ∧
        ¬SpreadAtMost (1/10) (prices selected) := by
  have hm : lowerMedian [200000,200001] = 200000 := by
    norm_num [lowerMedian,middle]
  have hm' : lowerMedian [100000,100009] = 100000 := by
    norm_num [lowerMedian,middle]
  refine ⟨_,sampleTie_divergent,sampleTie_selected,sampleTie_subperm,?_,fun h => ?_⟩
  · unfold SpreadAtMost
    norm_num [hm]
  · have hp : prices (sampleTie.take 2) = [100000,100009] := by
      rw [prices,map_take,← prices,sampleTie_prices]
      rfl
    rw [hp] at h
    have hw := h 100009 (by simp) 100000 (by simp)
    rw [hm'] at hw
    norm_num at hw

/-- Two sources answer the same price and a third one an enormous price. The spread of all three
does not fit what is reported, and is taken for a divergence before any window is tried. -/
theorem extreme_price_vetoes :
    let observations := [sampleObservation "a" 1 90,sampleObservation "b" 1 91,
      sampleObservation "c" (10^30) 92]
    selectAgreeingObservations observations 2 100 = .error .divergent ∧
      [1,1].Subperm (prices observations) ∧ Agrees 100 [1,1] := by
  intro observations
  refine ⟨by decide +kernel,?_,?_⟩
  · have hp : prices observations = [1,1,10^30] := by
      norm_num [observations,prices,sampleObservation,wholePrice,Rational.value]
    rw [hp]
    exact List.Sublist.subperm (by simp)
  · have hm : lowerMedian [1,1] = 1 := by
      simp [lowerMedian,middle]
    unfold Agrees Within
    rw [hm]
    simp

end Ocrypt.Rates
