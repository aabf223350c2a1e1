import Ocrypt.Rates
import Ocrypt.Table

/-! A collection of a rate target: the answers of its sources, in the order in which they arrive,
are filtered, the agreeing ones chosen, and a tick is made of their median. -/
namespace Ocrypt.RateCollection
open Fallible Rates OrderStatistics List

structure SourceConfig where
  (key providerRef : String)
  maxAge : ℤ
  snapshotID : String
  fenceToken : ℤ
  deriving DecidableEq

structure PolicyConfig where
  (key baseAsset quoteAsset : String)
  quorum : ℕ
  (maxAge maxSpreadBPS futureTolerance : ℤ)
  snapshotID : String
  fenceToken : ℤ
  deriving DecidableEq

/-- A configuration as `Load` lets it through: no source and no provider twice, a quorum of at
least two of the sources, a spread within a hundred percent. -/
structure RuntimeConfig where
  tenantID : String
  policy : PolicyConfig
  sources : List SourceConfig
  keys_nodup : (sources.map (·.key)).Nodup
  providers_nodup : (sources.map (·.providerRef)).Nodup
  quorum_ge : 2 ≤ policy.quorum
  quorum_le : policy.quorum ≤ sources.length
  spread_mem : 0 ≤ policy.maxSpreadBPS ∧ policy.maxSpreadBPS ≤ 10000

structure ProviderResult where
  (priceNumerator priceDenominator : String)
  observedAt : ℤ
  (providerObservationID raw : String)
  deriving DecidableEq

structure Outcome where
  config : SourceConfig
  result : Option ProviderResult

structure Tick where
  (id tenantID policyKey baseAsset quoteAsset : String)
  price : Rational
  (observedAt admittedAt expiresAt : ℤ)
  (spreadBPS quorum sourceCount : ℕ)
  policySnapshotID : String
  policyFenceToken : ℤ
  sourcesDigest : String
  deriving DecidableEq

structure Claim where
  (targetTenantID targetPolicyKey : String)
  claimToken : ℤ
  attempts : ℕ

structure Collection where
  claim : Claim
  config : RuntimeConfig
  observations : List Observation
  tick : Tick

def sourceMaxAge (config : RuntimeConfig) (key : String) : ℤ :=
  match config.sources.find? (·.key = key) with
  | some source => source.maxAge
  | none => 0

def keyedBefore (a b : Observation) : Bool :=
  a.sourceKey < b.sourceKey || (a.sourceKey = b.sourceKey && a.id ≤ b.id)

def sortObservations (values : List Observation) : List Observation :=
  values.insertionSort fun a b => keyedBefore a b

section
-- `hash` is SHA-256 in hexadecimal, and `newID k` the answer to the call of `NewID` after `k`
-- others
variable (hash : String → String) (newID : ℕ → Option String) (config : RuntimeConfig) (now : ℤ)

variable (observations : List Observation)

def canonicalSourceDigest : String :=
  hash (String.join ((sortObservations observations).map fun o =>
    toString o.sourceKey.utf8ByteSize ++ ":" ++ o.sourceKey ++
      toString o.id.utf8ByteSize ++ ":" ++ o.id ++ o.rawResponseHash))

/-- The observation of an answer, still without its identifier: nothing of a fetch that failed, nor
of an answer from the future, a stale one or one without a price. -/
def observationOf (outcome : Outcome) : Option Observation := do
  let result ← outcome.result
  let ageLimit := min config.policy.maxAge outcome.config.maxAge
  if now+config.policy.futureTolerance < result.observedAt then none
  else if result.observedAt < now - ageLimit then none
  else
    let price ← (newRational result.priceNumerator result.priceDenominator).toOption
    pure {
      id := ""
      tenantID := config.tenantID
      policyKey := config.policy.key
      sourceKey := outcome.config.key
      providerRef := outcome.config.providerRef
      providerObservationID := result.providerObservationID
      baseAsset := config.policy.baseAsset
      quoteAsset := config.policy.quoteAsset
      price := price
      providerObservedAt := result.observedAt
      receivedAt := now
      rawResponseHash := hash result.raw
      sourceSnapshotID := outcome.config.snapshotID
      sourceFenceToken := outcome.config.fenceToken }

def observe (outcome : Outcome) : Except RateError (List Observation) :=
  match observationOf hash config now outcome with
  | none => .ok observations
  | some observation =>
    match newID observations.length with
    | none => .error .unavailable
    | some id => .ok (observations ++ [{ observation with id := id }])

def expiryOf (o : Observation) : ℤ :=
  o.providerObservedAt+min config.policy.maxAge (sourceMaxAge config o.sourceKey)

/-- The time of the oldest observation and the first time at which one of them expires. -/
def oldestAndExpiry (first : Observation) (observations : List Observation) : ℤ × ℤ :=
  observations.foldl
    (fun times o => (min times.1 o.providerObservedAt,min times.2 (expiryOf config o)))
    (first.providerObservedAt,expiryOf config first)

/-- What a tick says of the admitted observations: its price, the time of the oldest one, the
expiry and the spread. -/
def assess : Except RateError (Rational × ℤ × ℤ × ℕ) :=
  match observations with
  | [] => .error .noQuorum -- never so: at least a quorum was chosen
  | first::rest => do
    let (oldestObserved,expiresAt) := oldestAndExpiry config first (first::rest)
    let center ← median ((first::rest).map (·.price))
    let (spread,allowed) ←
      spreadBPS ((first::rest).map (·.price)) center config.policy.maxSpreadBPS
    require (allowed = true) .divergent
    pure (center,oldestObserved,expiresAt,spread)

def collect (claim : Claim) (outcomes : List Outcome) : Except RateError Collection := do
  let observations ← outcomes.foldlM (observe hash newID config now) []
  require (config.policy.quorum ≤ observations.length) .noQuorum
  let selected ←
    selectAgreeingObservations observations config.policy.quorum config.policy.maxSpreadBPS
  let admitted := sortObservations selected
  let (center,oldestObserved,expiresAt,spread) ← assess config admitted
  let tickID ← orFail (newID observations.length) .unavailable
  pure {
    claim := claim
    config := config
    observations := admitted
    tick := {
      id := tickID
      tenantID := config.tenantID
      policyKey := config.policy.key
      baseAsset := config.policy.baseAsset
      quoteAsset := config.policy.quoteAsset
      price := center
      observedAt := oldestObserved
      admittedAt := now
      expiresAt := expiresAt
      spreadBPS := spread
      quorum := config.policy.quorum
      sourceCount := admitted.length
      policySnapshotID := config.policy.snapshotID
      policyFenceToken := config.policy.fenceToken
      sourcesDigest := canonicalSourceDigest hash admitted } }

end

def arrivals (answers : SourceConfig → Option ProviderResult) (order : List SourceConfig) :
    List Outcome :=
  order.map fun source => ⟨source,answers source⟩

def blank (o : Observation) : Observation := { o with id := "" }

variable {observations observations' : List Observation} {quorum : ℕ} {bps : ℤ}

section
variable {values values' : List Rational} {selected : List Observation}

lemma median_perm (h : values.Perm values') : median values = median values' := by
  have hso : (values.insertionSort fun a b => ¬b.less a) =
      values'.insertionSort fun a b => ¬b.less a := by
    apply map_injective_iff.mpr Rational.value_injective
    rw [map_value_sorted,map_value_sorted]
    refine List.Perm.eq_of_pairwise' (pairwise_insertionSort (· ≤ ·) _)
      (pairwise_insertionSort (· ≤ ·) _) ?_
    exact (perm_insertionSort _ _).trans ((h.map _).trans (perm_insertionSort _ _).symm)
  have hn : values = [] ↔ values' = [] := by
    rw [← length_eq_zero_iff,← length_eq_zero_iff,h.length_eq]
  simp only [median,hso,hn]

lemma extreme_perm (key : Rational → ℚ) (hk : Function.Injective key)
    (ahead : Rational → Rational → Bool) (hah : ∀ v m, ahead v m = true ↔ key v < key m)
    {first first' : Rational} {rest rest' : List Rational}
    (h : (first::rest).Perm (first'::rest')) :
    rest.foldl (fun m v => if ahead v m then v else m) first =
      rest'.foldl (fun m v => if ahead v m then v else m) first' := by
  obtain ⟨hme,hle⟩ := foldl_extreme key ahead hah first rest
  obtain ⟨hme',hle'⟩ := foldl_extreme key ahead hah first' rest'
  apply hk
  apply le_antisymm
  · exact hle _ (h.mem_iff.mpr hme')
  · exact hle' _ (h.mem_iff.mp hme)

lemma spreadBPS_perm (center : Rational) (maximum : ℤ) (h : values.Perm values') :
    spreadBPS values center maximum = spreadBPS values' center maximum := by
  cases values with
  | nil => rw [nil_perm.mp h]
  | cons first rest =>
    cases values' with
    | nil => exact absurd (perm_nil.mp h) (by simp)
    | cons first' rest' =>
      have hle := extreme_perm Rational.value Rational.value_injective Rational.less
        (fun v m => Rational.less_iff) h
      have hn := neg_injective.comp Rational.value_injective
      have hl := extreme_perm (fun v => -v.value) hn (fun v m => m.less v)
        (fun v m => by rw [Rational.less_iff,neg_lt_neg_iff]) h
      simp [spreadBPS,hle,hl]

lemma measure_perm (h : values.Perm values') :
    Rates.measure values bps = Rates.measure values' bps := by
  simp [Rates.measure,median_perm h,spreadBPS_perm _ _ h]

section
variable (hk : (observations.map (·.sourceKey)).Nodup) (h : observations.Perm observations')
include hk h

lemma ordered_perm : (observations.insertionSort fun a b => before a b) =
      observations'.insertionSort fun a b => before a b := by
  have hp := perm_insertionSort (fun a b => before a b = true) observations
  have hp' := perm_insertionSort (fun a b => before a b = true) observations'
  apply List.Perm.eq_of_pairwise _ (pairwise_insertionSort _ _)
    (pairwise_insertionSort _ _) (hp.trans (h.trans hp'.symm))
  intro a b ha hb hab hba
  rw [before_iff] at hab hba
  have hke : a.sourceKey = b.sourceKey := by
    rcases hab with hab | ⟨hab,hle⟩ <;> rcases hba with hba | ⟨hba,hge⟩
    · exact absurd hba (not_lt.mpr hab.le)
    · exact absurd hba hab.ne'
    · exact absurd hab hba.ne'
    · exact le_antisymm hle hge
  exact inj_on_of_nodup_map hk (hp.mem_iff.mp ha)
    (h.mem_iff.mpr (hp'.mem_iff.mp hb)) hke

lemma select_perm (hok : selectAgreeingObservations observations quorum bps = .ok selected) :
    ∃ selected', selectAgreeingObservations observations' quorum bps = .ok selected' ∧
      selected.Perm selected' := by
  simp only [selectAgreeingObservations,do_ok] at hok ⊢
  obtain ⟨hl,⟨spread,allowed⟩,hm,hok⟩ := hok
  rw [h.length_eq] at hl
  rw [measure_perm (h.map _)] at hm
  cases allowed with
  | true =>
    simp only [if_true,pure_eq_ok] at hok
    subst hok
    exact ⟨observations',⟨hl,(spread,true),hm,rfl⟩,h⟩
  | false =>
    rw [ordered_perm hk h] at hok
    exact ⟨selected,⟨hl,(spread,false),hm,hok⟩,List.Perm.refl _⟩

end

end

lemma blank_price : (fun o => o.price) ∘ blank = fun o : Observation => o.price := rfl

lemma blank_sourceKey : (fun o => o.sourceKey) ∘ blank = fun o : Observation => o.sourceKey := rfl

lemma window_blank (ordered : List Observation) (start : ℕ) :
    window (ordered.map blank) start quorum = (window ordered start quorum).map blank := by
  simp [window]

lemma tryWindow_blank (ordered : List Observation) :
    tryWindow (ordered.map blank) quorum bps = tryWindow ordered quorum bps := by
  funext best start
  simp [tryWindow,window_blank,blank_price]

lemma select_blank : selectAgreeingObservations (observations.map blank) quorum bps =
      (selectAgreeingObservations observations quorum bps).map (List.map blank) := by
  have hso : (observations.map blank).insertionSort (fun a b => before a b) =
      (observations.insertionSort fun a b => before a b).map blank := by
    symm
    apply map_insertionSort
    intro a _ b _
    exact Iff.rfl
  simp only [selectAgreeingObservations,length_map,map_map,blank_price,hso, tryWindow_blank]
  by_cases hl : quorum ≤ observations.length ∧ 2 ≤ quorum
  · rw [require_pos hl]
    cases Rates.measure (observations.map (·.price)) bps with
    | error e => rfl
    | ok measured =>
      obtain ⟨spread,allowed⟩ := measured
      cases allowed with
      | true => rfl
      | false =>
        cases (List.range ((observations.insertionSort fun a b => before a b).length+1 -
            quorum)).foldlM (tryWindow _ quorum bps) none with
        | error e => rfl
        | ok best =>
          cases best with
          | none => rfl
          | some best => simp only [window_blank]; rfl
  · simp only [require,if_neg hl]
    rfl

variable (config : RuntimeConfig) in
lemma assess_blank : assess config (observations.map blank) = assess config observations := by
  cases observations with
  | nil => rfl
  | cons first rest =>
    simp [assess,oldestAndExpiry,expiryOf,foldl_map,blank_price,blank]

variable {outcomes : List Outcome} {made : List Observation}

section
variable {hash : String → String} {newID : ℕ → Option String} {config : RuntimeConfig} {now : ℤ}
  {outcome : Outcome} {observation : Observation}

section
variable (h : observationOf hash config now outcome = some observation)
include h

lemma observationOf_eq_some : observation.id = "" ∧ observation.sourceKey = outcome.config.key ∧
      ∃ result, outcome.result = some result ∧
        newRational result.priceNumerator result.priceDenominator = .ok observation.price ∧
        observation.providerObservedAt = result.observedAt := by
  simp only [observationOf,Option.bind_eq_bind,Option.bind_eq_some_iff] at h
  obtain ⟨result,hre,h⟩ := h
  split_ifs at h
  obtain ⟨price,hp,h⟩ := Option.bind_eq_some_iff.mp h
  cases h
  refine ⟨rfl,rfl,result,hre,?_,rfl⟩
  cases hr : newRational result.priceNumerator result.priceDenominator with
  | error e =>
    rw [hr] at hp
    cases hp
  | ok value =>
    rw [hr] at hp
    cases hp
    rfl

lemma blank_admitted : blank observation = observation := by
  unfold blank
  rw [← (observationOf_eq_some h).1]

end

lemma observe_all (h : outcomes.foldlM (observe hash newID config now) made = .ok observations) :
    observations.map blank = made.map blank ++ outcomes.filterMap (observationOf hash config now) ∧
      ∀ k, made.length ≤ k → k < observations.length → (newID k).isSome := by
  induction outcomes generalizing made with
  | nil =>
    cases h
    refine ⟨by simp,fun k hk hlt => by omega⟩
  | cons outcome outcomes ih =>
    rw [foldlM_cons,do_eq_ok] at h
    obtain ⟨next,hn,h⟩ := h
    obtain ⟨hmap,hi⟩ := ih h
    unfold observe at hn
    cases ho : observationOf hash config now outcome with
    | none =>
      simp only [ho] at hn
      cases hn
      rw [filterMap_cons_none ho]
      exact ⟨hmap,hi⟩
    | some observation =>
      simp only [ho] at hn
      cases hid : newID made.length with
      | none =>
        rw [hid] at hn
        cases hn
      | some id =>
        rw [hid] at hn
        cases hn
        rw [filterMap_cons_some ho,hmap]
        refine ⟨?_,fun k hk hlt => ?_⟩
        · simp only [map_append,map_cons,map_nil,append_assoc, singleton_append]
          rw [show blank { observation with id := id } = blank observation from rfl,
            blank_admitted ho]
        · rcases hk.eq_or_lt with rfl | hk
          · rw [hid]
            rfl
          · exact hi k (by simpa using hk) hlt

lemma observe_all_ok
    (h : ∀ k < made.length+(outcomes.filterMap (observationOf hash config now)).length,
      (newID k).isSome) :
    ∃ observations, outcomes.foldlM (observe hash newID config now) made = .ok observations := by
  induction outcomes generalizing made with
  | nil => exact ⟨made,rfl⟩
  | cons outcome outcomes ih =>
    simp only [foldlM_cons,do_ok]
    cases ho : observationOf hash config now outcome with
    | none =>
      rw [filterMap_cons_none ho] at h
      obtain ⟨observations,hok⟩ := ih h
      exact ⟨observations,made,by simp [observe,ho],hok⟩
    | some observation =>
      rw [filterMap_cons_some ho,length_cons] at h
      obtain ⟨id,hid⟩ := Option.isSome_iff_exists.mp (h made.length (by omega))
      have hn : ∀ k < (made ++ [{ observation with id := id }]).length +
          (outcomes.filterMap (observationOf hash config now)).length, (newID k).isSome := by
        intro k hk
        rw [length_append,length_singleton] at hk
        exact h k (by omega)
      obtain ⟨observations,hok⟩ := ih hn
      exact ⟨observations,_,by simp [observe,ho,hid],hok⟩

lemma admitted_keys (outcomes : List Outcome) :
    ((outcomes.filterMap (observationOf hash config now)).map (·.sourceKey)).Sublist
      (outcomes.map (·.config.key)) := by
  induction outcomes with
  | nil => exact List.Sublist.refl _
  | cons outcome outcomes ih =>
    cases ho : observationOf hash config now outcome with
    | none =>
      rw [filterMap_cons_none ho]
      exact ih.cons _
    | some observation =>
      rw [filterMap_cons_some ho,map_cons,(observationOf_eq_some ho).2.1]
      exact ih.cons_cons _

end

section
variable {a b : Observation}

lemma keyedBefore_iff : keyedBefore a b = true ↔
    a.sourceKey < b.sourceKey ∨ (a.sourceKey = b.sourceKey ∧ a.id ≤ b.id) := by
  simp [keyedBefore]

lemma keyedBefore_iff_lex : keyedBefore a b = true ↔
    toLex (a.sourceKey,a.id) ≤ toLex (b.sourceKey,b.id) := by
  rw [keyedBefore_iff,Prod.Lex.toLex_le_toLex]

instance : Std.Total fun a b : Observation => keyedBefore a b = true := ⟨fun a b => by
  simp only [keyedBefore_iff_lex]
  exact le_total _ _⟩

instance : IsTrans Observation fun a b => keyedBefore a b = true := ⟨fun _ _ _ hab hbc =>
  keyedBefore_iff_lex.mpr ((keyedBefore_iff_lex.mp hab).trans (keyedBefore_iff_lex.mp hbc))⟩

lemma sortObservations_perm (observations : List Observation) :
    (sortObservations observations).Perm observations :=
  perm_insertionSort _ _

lemma sortObservations_blank (hk : (observations.map (·.sourceKey)).Nodup)
    (h : (observations.map blank).Perm (observations'.map blank)) :
    (sortObservations observations).map blank = (sortObservations observations').map blank := by
  have hp := (sortObservations_perm observations).map blank
  have hp' := (sortObservations_perm observations').map blank
  have hso : ∀ l : List Observation,
      ((sortObservations l).map blank).Pairwise fun a b => a.sourceKey ≤ b.sourceKey := by
    intro l
    have hpa := pairwise_insertionSort (fun a b => keyedBefore a b = true) l
    exact pairwise_map.mpr (hpa.imp fun hab =>
      (keyedBefore_iff.mp hab).elim le_of_lt fun h => h.1.le)
  have hn : ((observations.map blank).map (·.sourceKey)).Nodup := by
    rwa [map_map]
  apply List.Perm.eq_of_pairwise _ (hso observations) (hso observations')
    (hp.trans (h.trans hp'.symm))
  intro a b ha hb hab hba
  exact inj_on_of_nodup_map hn (hp.mem_iff.mp ha)
    (h.mem_iff.mpr (hp'.mem_iff.mp hb)) (le_antisymm hab hba)

end

section
variable {config : RuntimeConfig} {center : Rational} {oldest expires : ℤ} {spread : ℕ}

lemma foldl_expiry_le (config : RuntimeConfig) (observations : List Observation) (times : ℤ × ℤ) :
    let last := observations.foldl (fun times o =>
      (min times.1 o.providerObservedAt,min times.2 (expiryOf config o))) times
    last.2 ≤ times.2 ∧ ∀ o ∈ observations, last.2 ≤ expiryOf config o := by
  induction observations generalizing times with
  | nil => simp
  | cons first rest ih =>
    obtain ⟨hst,hr⟩ := ih (min times.1 first.providerObservedAt,
      min times.2 (expiryOf config first))
    refine ⟨hst.trans (min_le_left _ _),fun o ho => ?_⟩
    rcases mem_cons.mp ho with rfl | ho
    · exact hst.trans (min_le_right _ _)
    · exact hr o ho

lemma assess_eq_ok (h : assess config observations = .ok (center,oldest,expires,spread)) :
    center ∈ observations.map (·.price) ∧ (∀ o ∈ observations, expires ≤ expiryOf config o) ∧
      Within config.policy.maxSpreadBPS center.value (prices observations) := by
  cases observations with
  | nil => cases h
  | cons first rest =>
    have hne : (first::rest).map (·.price) ≠ [] := by simp
    obtain ⟨m,hmm,hme,-⟩ := median_spec hne
    simp only [assess,hme,ok_bind,do_eq_ok] at h
    obtain ⟨⟨spread',allowed⟩,hsp,h⟩ := h
    simp only [exists_require] at h
    obtain ⟨rfl,h⟩ := h
    cases h
    obtain ⟨hw,hn⟩ := @spreadBPS_spec _ center _ hne config.spread_mem
    refine ⟨hmm,?_,?_⟩
    · exact (foldl_expiry_le config (first::rest) _).2
    · rw [map_value_prices] at hw hn
      by_cases hr : Within maxReported center.value (prices (first::rest))
      · obtain ⟨spread,hok,hle⟩ := hn hr
        rw [hsp] at hok
        obtain ⟨-,hal⟩ := Prod.mk.inj (Except.ok.inj hok)
        have hto := Int.toNat_of_nonneg config.spread_mem.1
        rw [← hto]
        exact (hle _).mp ((Int.le_toNat config.spread_mem.1).mpr (of_decide_eq_true hal.symm))
      · rw [hw hr] at hsp
        cases hsp

end

section
variable {hash : String → String} {newID newID' : ℕ → Option String} {config : RuntimeConfig}
  {now : ℤ} {claim : Claim} {outcomes' : List Outcome} {collection collection' : Collection}
  {answers : SourceConfig → Option ProviderResult} {order order' : List SourceConfig}

/-- Two collections say the same, apart from identifiers and the digest of them. -/
structure SameTick (collection collection' : Collection) : Prop where
  price : collection.tick.price = collection'.tick.price
  spread : collection.tick.spreadBPS = collection'.tick.spreadBPS
  observed : collection.tick.observedAt = collection'.tick.observedAt
  expires : collection.tick.expiresAt = collection'.tick.expiresAt
  admitted : collection.observations.map blank = collection'.observations.map blank

lemma collect_eq_ok (h : collect hash newID config now claim outcomes = .ok collection) :
    ∃ made selected, outcomes.foldlM (observe hash newID config now) [] = .ok made ∧
      config.policy.quorum ≤ made.length ∧
      selectAgreeingObservations made config.policy.quorum config.policy.maxSpreadBPS =
        .ok selected ∧ collection.observations = sortObservations selected ∧
      assess config collection.observations = .ok (collection.tick.price,
        collection.tick.observedAt,collection.tick.expiresAt,collection.tick.spreadBPS) ∧
      (newID made.length).isSome := by
  simp only [collect,do_ok,orFail_eq_ok] at h
  obtain ⟨made,hm,hq,selected,hse,⟨center,oldest,expires,spread⟩,has, tickID,hid,rfl⟩ := h
  exact ⟨made,selected,hm,hq,hse,rfl,has,by rw [hid]; rfl⟩

lemma collect_ok {selected : List Observation}
    (hm : outcomes.foldlM (observe hash newID config now) [] = .ok made)
    (hq : config.policy.quorum ≤ made.length)
    (hse : selectAgreeingObservations made config.policy.quorum config.policy.maxSpreadBPS =
      .ok selected) (has : ∃ r, assess config (sortObservations selected) = .ok r)
    (hid : (newID made.length).isSome) :
    ∃ collection, collect hash newID config now claim outcomes = .ok collection := by
  obtain ⟨⟨center,oldest,expires,spread⟩,has⟩ := has
  obtain ⟨id,hid⟩ := Option.isSome_iff_exists.mp hid
  simp only [collect,do_ok,orFail_eq_ok]
  exact ⟨_,made,hm,hq,selected,hse,(center,oldest,expires,spread),has,id,hid,rfl⟩

lemma arrivals_keys (h : order.Perm config.sources) :
    (((arrivals answers order).filterMap (observationOf hash config now)).map (·.sourceKey)).Nodup := by
  refine (admitted_keys _).nodup ?_
  unfold arrivals
  rw [map_map]
  exact (h.map _).nodup_iff.mpr config.keys_nodup

lemma select_reordered {made' selected : List Observation}
    (hk : (made.map (·.sourceKey)).Nodup) (h : (made.map blank).Perm (made'.map blank))
    (hok : selectAgreeingObservations made quorum bps = .ok selected) :
    ∃ selected', selectAgreeingObservations made' quorum bps = .ok selected' ∧
      (selected.map blank).Perm (selected'.map blank) := by
  have hbl : selectAgreeingObservations (made.map blank) quorum bps =
      .ok (selected.map blank) := by
    rw [select_blank,hok]
    rfl
  have hn : ((made.map blank).map (·.sourceKey)).Nodup := by
    rwa [map_map]
  obtain ⟨chosen,hch,hp⟩ := select_perm hn h hbl
  rw [select_blank] at hch
  cases hse : selectAgreeingObservations made' quorum bps with
  | error e =>
    rw [hse] at hch
    cases hch
  | ok selected' =>
    rw [hse] at hch
    cases hch
    exact ⟨selected',rfl,hp⟩

/-- The identifiers that a collection asks for: one for each admitted answer, and one for the
tick. -/
def Supplied (hash : String → String) (newID : ℕ → Option String) (config : RuntimeConfig)
    (now : ℤ) (outcomes : List Outcome) : Prop :=
  ∀ k ≤ (outcomes.filterMap (observationOf hash config now)).length, (newID k).isSome

section
variable (h : collect hash newID config now claim outcomes = .ok collection)
include h

lemma supplied_of_ok : Supplied hash newID config now outcomes := by
  obtain ⟨made,selected,hm,-,-,-,-,hid⟩ := collect_eq_ok h
  obtain ⟨hmap,hi⟩ := observe_all hm
  have hl : made.length = (outcomes.filterMap (observationOf hash config now)).length := by
    rw [← length_map blank,hmap,map_nil,nil_append]
  intro k hk
  rw [← hl] at hk
  rcases hk.lt_or_eq with hlt | rfl
  · exact hi k (by simp) hlt
  · exact hid

lemma collect_reordered (hpe : outcomes.Perm outcomes')
    (hi : Supplied hash newID' config now outcomes')
    (hke : ((outcomes.filterMap (observationOf hash config now)).map (·.sourceKey)).Nodup) :
    ∃ collection', collect hash newID' config now claim outcomes' = .ok collection' ∧
      SameTick collection collection' := by
  obtain ⟨made,selected,hma,hq,hse,hso,has,-⟩ := collect_eq_ok h
  obtain ⟨hmap,-⟩ := observe_all hma
  have hca : ∀ k < ([] : List Observation).length +
      (outcomes'.filterMap (observationOf hash config now)).length, (newID' k).isSome := by
    intro k hk
    rw [length_nil,Nat.zero_add] at hk
    exact hi k hk.le
  obtain ⟨made',hma'⟩ := observe_all_ok hca
  obtain ⟨hmap',-⟩ := observe_all hma'
  rw [map_nil,nil_append] at hmap hmap'
  have hbl : (made.map blank).Perm (made'.map blank) := by
    rw [hmap,hmap']
    exact hpe.filterMap _
  have hn : (made.map (·.sourceKey)).Nodup := by
    rwa [← blank_sourceKey,← map_map,hmap]
  obtain ⟨selected',hse',hch⟩ := select_reordered hn hbl hse
  have hsb := (select_result hse).1
  have hsame : (sortObservations selected).map blank = (sortObservations selected').map blank := by
    apply sortObservations_blank _ hch
    obtain ⟨l,hl,hsu⟩ := hsb
    exact (hl.map _).nodup_iff.mp ((hsu.map _).nodup hn)
  have hle : made.length = made'.length := by
    rw [← length_map blank,hbl.length_eq,length_map]
  rw [← assess_blank,hso,hsame,assess_blank] at has
  have hid := hi _ (by rw [← hmap',length_map])
  have hco : ∃ collection', collect hash newID' config now claim outcomes' =
      .ok collection' :=
    collect_ok hma' (hle ▸ hq) hse' ⟨_,has⟩ hid
  obtain ⟨collection',hok⟩ := hco
  obtain ⟨_,_,hm,-,hs,hso',has',-⟩ := collect_eq_ok hok
  rw [hma'] at hm
  cases hm
  rw [hse'] at hs
  cases hs
  rw [hso',has,Except.ok.injEq,Prod.mk.injEq,Prod.mk.injEq,Prod.mk.injEq] at has'
  obtain ⟨hp,ho,he,hsp⟩ := has'
  exact ⟨collection',hok,hp,hsp,ho,he,by rw [hso,hso',hsame]⟩

end

lemma admitted_source (h : collect hash newID config now claim (arrivals answers order) =
      .ok collection) (horder : order.Perm config.sources) :
    ∀ o ∈ collection.observations, ∃ source ∈ config.sources, o.sourceKey = source.key ∧
      ∃ result, answers source = some result ∧
        newRational result.priceNumerator result.priceDenominator = .ok o.price ∧
        o.providerObservedAt = result.observedAt := by
  obtain ⟨made,selected,hm,-,hse,hso,-,-⟩ := collect_eq_ok h
  obtain ⟨hmap,-⟩ := observe_all hm
  intro o ho
  rw [hso] at ho
  have hm : o ∈ made :=
    (select_result hse).1.subset ((sortObservations_perm _).subset ho)
  have hbl : blank o ∈ (arrivals answers order).filterMap (observationOf hash config now) := by
    rw [map_nil,nil_append] at hmap
    rw [← hmap]
    exact mem_map_of_mem hm
  obtain ⟨outcome,hme,hob⟩ := mem_filterMap.mp hbl
  obtain ⟨source,hsu,rfl⟩ := mem_map.mp hme
  obtain ⟨-,hk,result,hr,hp,hob⟩ := observationOf_eq_some hob
  exact ⟨source,horder.subset hsu,hk,result,hr,hp,hob⟩

lemma sourceMaxAge_eq {source : SourceConfig} (h : source ∈ config.sources) :
    sourceMaxAge config source.key = source.maxAge := by
  unfold sourceMaxAge
  rw [Table.find?_key config.keys_nodup h]

section
variable (h : collect hash newID config now claim (arrivals answers order) = .ok collection)
  (horder : order.Perm config.sources)
include h horder

lemma admitted_quorum : config.policy.quorum ≤ collection.observations.length ∧
      (collection.observations.map (·.sourceKey)).Nodup := by
  obtain ⟨made,selected,hm,-,hse,hso,-,-⟩ := collect_eq_ok h
  obtain ⟨hmap,-⟩ := observe_all hm
  obtain ⟨hsb,hle,-⟩ := select_result hse
  have hn : (made.map (·.sourceKey)).Nodup := by
    rw [← blank_sourceKey,← map_map,hmap]
    exact arrivals_keys horder
  have hp := sortObservations_perm selected
  rw [hso,hp.length_eq]
  refine ⟨hle,(hp.map _).nodup_iff.mpr ?_⟩
  obtain ⟨l,hl,hsu⟩ := hsb
  exact (hl.map _).nodup_iff.mp ((hsu.map _).nodup hn)

lemma exists_honest (lies : SourceConfig → Bool)
    (hf : (config.sources.filter lies).length < config.policy.quorum) :
    ∃ o ∈ collection.observations, ∀ source ∈ config.sources, o.sourceKey = source.key →
      lies source = false := by
  by_contra hn
  push Not at hn
  obtain ⟨hq,hno⟩ := admitted_quorum h horder
  have hsu : collection.observations.map (·.sourceKey) ⊆
      (config.sources.filter lies).map (·.key) := by
    intro key hk
    obtain ⟨o,ho,rfl⟩ := mem_map.mp hk
    obtain ⟨source,hso,heq,hl⟩ := hn o ho
    rw [ne_eq,Bool.not_eq_false] at hl
    exact mem_map.mpr ⟨source,mem_filter.mpr ⟨hso,hl⟩,heq.symm⟩
  have hle := (hno.subperm hsu).length_le
  rw [length_map,length_map] at hle
  omega

end

/-- Whatever order the answers of the sources arrive in, a tick has one price, spread, set of
admitted observations, time and expiry. Its price is an admitted one, it expires no later than any
admitted observation, and while fewer than a quorum of the sources lie it is within the allowed
spread of the price of an honest source. -/
theorem tick_whatever_order
    (h : collect hash newID config now claim (arrivals answers order) = .ok collection)
    (horder : order.Perm config.sources) : (∀ order', order'.Perm config.sources → ∃ collection',
      collect hash newID config now claim (arrivals answers order') = .ok collection' ∧
        SameTick collection collection') ∧
    (∀ newID' order' collection', order'.Perm config.sources →
      collect hash newID' config now claim (arrivals answers order') = .ok collection' →
        SameTick collection collection') ∧
    (∃ o ∈ collection.observations, collection.tick.price = o.price) ∧
    (∀ o ∈ collection.observations, ∃ source ∈ config.sources, o.sourceKey = source.key ∧
      collection.tick.expiresAt ≤ o.providerObservedAt+min config.policy.maxAge source.maxAge) ∧
    ∀ lies : SourceConfig → Bool, (config.sources.filter lies).length ≤ config.policy.quorum - 1 →
      ∃ source ∈ config.sources, lies source = false ∧
        ∃ o ∈ collection.observations, o.sourceKey = source.key ∧
          (∃ result, answers source = some result ∧
            newRational result.priceNumerator result.priceDenominator = .ok o.price) ∧
          |collection.tick.price.value - o.price.value| ≤
            collection.tick.price.value*config.policy.maxSpreadBPS / 10000 := by
  obtain ⟨made,selected,-,-,-,-,has,-⟩ := collect_eq_ok h
  obtain ⟨hpr,he,hw⟩ := assess_eq_ok has
  have hke : (((arrivals answers order).filterMap (observationOf hash config now)).map
      (·.sourceKey)).Nodup := arrivals_keys horder
  have hp : ∀ order', order'.Perm config.sources →
      (arrivals answers order).Perm (arrivals answers order') :=
    fun order' horder' => (horder.trans horder'.symm).map _
  refine ⟨fun order' horder' => ?_,fun newID' order' collection' horder' h' => ?_,?_,
    fun o ho => ?_,fun lies hf => ?_⟩
  · have hi : Supplied hash newID config now (arrivals answers order') := by
      have hl := ((hp order' horder').filterMap (observationOf hash config now)).length_eq
      intro k hk
      exact supplied_of_ok h k (hl ▸ hk)
    exact collect_reordered h (hp order' horder') hi hke
  · obtain ⟨other,hot,hsame⟩ :=
      collect_reordered h (hp order' horder') (supplied_of_ok h') hke
    rw [h'] at hot
    cases hot
    exact hsame
  · obtain ⟨o,ho,heq⟩ := mem_map.mp hpr
    exact ⟨o,ho,heq.symm⟩
  · obtain ⟨source,hso,hky,-⟩ := admitted_source h horder o ho
    refine ⟨source,hso,hky,?_⟩
    have hle := he o ho
    unfold expiryOf at hle
    rwa [hky,sourceMaxAge_eq hso] at hle
  · have hq := config.quorum_ge
    obtain ⟨o,ho,hho⟩ := exists_honest h horder lies (by omega)
    obtain ⟨source,hso,hky,result,hr,hv,-⟩ := admitted_source h horder o ho
    refine ⟨source,hso,hho source hso hky,o,ho,hky,⟨result,hr,hv⟩,?_⟩
    obtain ⟨m,hm,heq⟩ := mem_map.mp hpr
    have hce : collection.tick.price.value ∈ prices collection.observations :=
      mem_map.mpr ⟨m,hm,by rw [heq]⟩
    have hot : o.price.value ∈ prices collection.observations := mem_map_of_mem ho
    have hup := hw _ hce _ hot
    have hd := hw _ hot _ hce
    rw [abs_le]
    constructor <;> linarith

end

def sampleSource (key : String) (maxAge : ℤ) : SourceConfig :=
  ⟨key,"provider-" ++ key,maxAge,"snapshot-" ++ key,1⟩

def sampleConfig : RuntimeConfig where
  tenantID := ""
  policy := ⟨"usdt-usd","usdt","USD",2,60,200,5,"snapshot",1⟩
  sources := [sampleSource "a" 60,sampleSource "b" 60,sampleSource "c" 30]
  keys_nodup := by decide
  providers_nodup := by decide
  quorum_ge := by decide
  quorum_le := by decide
  spread_mem := by decide

def sampleAnswers (source : SourceConfig) : Option ProviderResult :=
  if source.key = "a" then some ⟨"100","1",990,"1","raw-a"⟩
  else if source.key = "b" then some ⟨"500","1",995,"2","raw-b"⟩
  else some ⟨"202","2",992,"3","raw-c"⟩

theorem tick_whatever_order_sample : ∃ collection,
    collect id (fun k => some (toString k)) sampleConfig 1000 ⟨"","usdt-usd",1,0⟩
        (arrivals sampleAnswers sampleConfig.sources.reverse) = .ok collection ∧
      (collection.tick.price = wholePrice 100 (by decide) ∧ collection.tick.observedAt = 990 ∧
        collection.tick.expiresAt = 1022 ∧ collection.tick.spreadBPS = 100 ∧
        collection.observations.map (·.sourceKey) = ["a", "c"]) ∧
      ∃ collection', collect id (fun k => some (toString k)) sampleConfig 1000
          ⟨"","usdt-usd",1,0⟩ (arrivals sampleAnswers sampleConfig.sources) = .ok collection' ∧
        SameTick collection collection' := by
  refine exists_and_and_of (by decide +kernel) fun collection hok hti => ?_
  exact (tick_whatever_order hok (reverse_perm _)).1 _ (List.Perm.refl _)

end Ocrypt.RateCollection
