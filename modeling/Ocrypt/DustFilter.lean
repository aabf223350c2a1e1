import Ocrypt.MatchingAdmission
import Ocrypt.Workers

/-! The dust filter of the settlement query against the reducer: which transfers that would
settle a bound route the filter keeps from being recorded as a payment. -/
namespace Ocrypt.DustFilter
open Money Domain Fallible Matching MatchingTotals MatchingConservation MatchingAdmission Store
  Settlement Workers List

/-- The subquery of the filter at one route and one binding: the transfer could be a payment of
the route under the bound policy. -/
structure Plausible (ext : Externals) (db : Database) (event : TransferEvent) (r : PaymentRoute)
    (b : PolicyBinding) : Prop where
  provider : r.provider = .onChain
  chain : r.chainID = event.identity.chainID
  asset : r.assetID = event.identity.assetID
  address : r.address = event.identity.toAddress
  openIntent : (openIntentOf db r).isSome = true
  bound : b.routeID = r.id ∧ b.tenantID = r.tenantID
  window : (r.startsAt ≤ event.onChainTime ∧ event.onChainTime ≤ r.expiresAt) ∨
    (ext.snapshotAcceptsLate b.policySnapshot = true ∧ r.expiresAt < event.onChainTime ∧
      event.onChainTime ≤ r.graceEndsAt)
  amount : (r.expectedAmount.n : ℤ) *
      (10000 - min 10000 (max 0 (ext.snapshotToleranceBPS b.policySnapshot))) ≤
    event.amount.n*10000

variable {event : TransferEvent}

lemma belowUnmatchedDustThreshold_eq_false {ext : Externals} {db : Database} {asset : Asset}
    (has : (db.assets.find? fun a =>
      a.chainID = event.identity.chainID ∧ a.id = event.identity.assetID) = some asset) :
    belowUnmatchedDustThreshold ext db event = .ok false ↔
      asset.dustThreshold.n = 0 ∨ asset.dustThreshold.n < event.amount.n ∨
        ∃ r ∈ db.routes, ∃ b ∈ db.bindings, Plausible ext db event r b := by
  simp only [belowUnmatchedDustThreshold,has,orFail,ok_bind,pure_eq_ok,Bool.and_eq_false_iff,
    Bool.not_eq_false',any_eq_true,Bool.and_eq_true,Bool.or_eq_true,decide_eq_true_eq,
    decide_eq_false_iff_not,not_not,Amount.cmp_eq_gt,Amount.isZero_iff]
  constructor
  · rintro ((⟨r,hr,⟨⟨⟨⟨h₁,h₂⟩,h₃⟩,h₄⟩,h₅⟩,b,hb,⟨⟨h₆,h₇⟩,h₈⟩,h₉⟩ | h) | h)
    · exact .inr (.inr ⟨r,hr,b,hb,h₁,h₂,h₃,h₄,h₅,⟨h₆,h₇⟩,by tauto,h₉⟩)
    · exact .inl h
    · exact .inr (.inl h)
  · rintro (h | h | ⟨r,hr,b,hb,h⟩)
    · exact .inl (.inr h)
    · exact .inr h
    · refine .inl (.inl ⟨r,hr,⟨⟨⟨⟨h.provider,h.chain⟩,h.asset⟩,h.address⟩,h.openIntent⟩,b,hb,
        ⟨h.bound,?_⟩,h.amount⟩)
      exact h.window.imp_right fun hw => ⟨⟨hw.1,hw.2.1⟩,hw.2.2⟩

lemma settles_single {h : Hashing} {route : PaymentRoute} {now : ℤ}
    {policy : AutomatedMatchingPolicy} {d : AutomatedMatchDecision}
    (hd : evaluateAutomatedMatch h route [event] now policy = .ok d) (hs : d.outcome = .settle) :
    eligible route event = true ∧ policy.underpaymentToleranceBPS.toNat ≤ 10000 ∧
      route.expectedAmount.n*(10000 - policy.underpaymentToleranceBPS.toNat) ≤
        event.amount.n*10000 := by
  have hid : DistinctIDs [event] := by
    intro a ha b hb hne
    rw [mem_singleton.mp ha,mem_singleton.mp hb] at hne
    exact absurd rfl hne
  obtain ⟨hp,-,canonical,t,hca,hru,rfl⟩ := evaluate_cases hd (by simp [hs])
  obtain ⟨-,-,had⟩ := (traverse_collectEvent_eq_ok (canonical_feesApart hid hca)
    (fun _ he => he) (fun _ hi => absurd hi not_mem_nil)).mp hru
  obtain ⟨hne,-,ham⟩ := (judgeTotals_settle_iff hp).mp hs
  obtain ⟨hn,hsb,-⟩ := canonicalEvents_spec hca
  -- the canonical list of a single event is that event
  have hco : canonical.filter (counted route) = [event] := by
    have hal : ∀ e ∈ canonical.filter (counted route), e = event := fun e he =>
      mem_singleton.mp (hsb e (mem_of_mem_filter he))
    have hdi : (canonical.filter (counted route)).Nodup :=
      (List.Nodup.of_map _ hn).filter _
    have hso : canonical.filter (counted route) ≠ [] := by
      intro hni
      rw [hni] at had
      exact hne (by rw [had.allocations]; rfl)
    obtain ⟨a,ha⟩ := exists_mem_of_ne_nil _ hso
    refine perm_singleton.mp ((perm_ext_iff_of_nodup hdi (nodup_singleton event)).mpr fun e => ?_)
    rw [mem_singleton]
    exact ⟨hal e,fun he => he ▸ hal a ha ▸ ha⟩
  have hr : t.received.n = event.amount.n := by
    have hsu := had.received
    rw [hco] at hsu
    simpa using hsu
  have hcu := (mem_filter.mp (hco ▸ mem_singleton_self event)).2
  simp only [counted,decide_eq_true_eq] at hcu
  simp only [AutomatedMatchingPolicy.validate,do_ok] at hp
  have hbp : policy.underpaymentToleranceBPS.toNat ≤ 10000 := by
    have hle := hp.1.2.2
    exact UInt32.le_iff_toNat_le.mp hle
  refine ⟨hcu.2,hbp,?_⟩
  rw [hr] at ham
  rcases ham with ⟨-,hle⟩ | ⟨hlt,-⟩
  · exact hle
  · exact (Nat.mul_le_mul hlt.le (Nat.sub_le 10000 _))

/-- A transfer that would settle a bound route on its own gets past the dust filter exactly when
the route is an on-chain route and the transfer is in time for it or the policy accepts late
payments, or the threshold does not apply, or another bound route could be meant. -/
theorem settling_transfer_passes_iff {ext : Externals} {db : Database} {event : TransferEvent}
    {asset : Asset} {route : PaymentRoute} {binding : PolicyBinding}
    {policy : AutomatedMatchingPolicy} {now : ℤ} {d : AutomatedMatchDecision}
    (hasset : (db.assets.find? fun a =>
      a.chainID = event.identity.chainID ∧ a.id = event.identity.assetID) = some asset)
    (hroute : route ∈ db.routes) (hopen : (openIntentOf db route).isSome = true)
    (hbinding : binding ∈ db.bindings)
    (hbound : binding.routeID = route.id ∧ binding.tenantID = route.tenantID)
    (hlate : ext.snapshotAcceptsLate binding.policySnapshot = policy.acceptLateWithinGrace)
    (hbps : ext.snapshotToleranceBPS binding.policySnapshot = policy.underpaymentToleranceBPS.toNat)
    (hd : evaluateAutomatedMatch ext.hashing route [event] now policy = .ok d)
    (hs : d.outcome = .settle) : belowUnmatchedDustThreshold ext db event = .ok false ↔
      (route.provider = .onChain ∧
          (event.onChainTime ≤ route.expiresAt ∨ policy.acceptLateWithinGrace = true)) ∨
        asset.dustThreshold.n = 0 ∨ asset.dustThreshold.n < event.amount.n ∨
        ∃ r ∈ db.routes, ∃ b ∈ db.bindings, (r,b) ≠ (route,binding) ∧
          Plausible ext db event r b := by
  obtain ⟨he,hto,ham⟩ := settles_single hd hs
  simp only [eligible,decide_eq_true_eq] at he
  obtain ⟨-,-,hch,has,had,hst,hg⟩ := he
  have hp : Plausible ext db event route binding ↔ route.provider = .onChain ∧
      (event.onChainTime ≤ route.expiresAt ∨ policy.acceptLateWithinGrace = true) := by
    constructor
    · intro h
      refine ⟨h.provider,?_⟩
      rcases h.window with hw | hw
      · exact .inl hw.2
      · exact .inr (hlate ▸ hw.1)
    · rintro ⟨hpr,hti⟩
      refine ⟨hpr,hch.symm,has.symm,had.symm,hopen,hbound,?_,?_⟩
      · rcases le_or_gt event.onChainTime route.expiresAt with hin | ho
        · exact .inl ⟨hst,hin⟩
        · exact .inr ⟨hlate ▸ hti.resolve_left ho.not_ge,ho,hg⟩
      · rw [hbps]
        have hcl : (10000 : ℤ) - min 10000 (max 0 (policy.underpaymentToleranceBPS.toNat : ℤ)) =
            ((10000 - policy.underpaymentToleranceBPS.toNat : ℕ) : ℤ) := by omega
        rw [hcl]
        exact_mod_cast ham
  rw [belowUnmatchedDustThreshold_eq_false hasset,← hp]
  constructor
  · rintro (h | h | ⟨r,hr,b,hb,h⟩)
    · exact .inr (.inl h)
    · exact .inr (.inr (.inl h))
    · by_cases hsame : (r,b) = (route,binding)
      · cases hsame
        exact .inl h
      · exact .inr (.inr (.inr ⟨r,hr,b,hb,hsame,h⟩))
  · rintro (h | h | h | ⟨r,hr,b,hb,-,h⟩)
    · exact .inr (.inr ⟨route,hroute,binding,hbinding,h⟩)
    · exact .inl h
    · exact .inr (.inl h)
    · exact .inr (.inr ⟨r,hr,b,hb,h⟩)

def sampleDust : Database :=
  { sampleBound.db with assets := [⟨"usdt","tron",false,6,100⟩] }

theorem settling_transfer_passes_sample :
    (∃ d, evaluateAutomatedMatch sampleExternals.hashing (sampleRouteTo "route" "TMerchant")
        [samplePayment "pay" ⟨99,by decide⟩ "block"] 60
        ⟨"policy",1,true,100,.creditExpected,true,true,false,[]⟩ = .ok d ∧ d.outcome = .settle) ∧
      belowUnmatchedDustThreshold sampleExternals sampleDust
        (samplePayment "pay" ⟨99,by decide⟩ "block") = .ok false := by
  have hse : ∃ d, evaluateAutomatedMatch sampleExternals.hashing
      (sampleRouteTo "route" "TMerchant") [samplePayment "pay" ⟨99,by decide⟩ "block"] 60
      ⟨"policy",1,true,100,.creditExpected,true,true,false,[]⟩ = .ok d ∧
      d.outcome = .settle := by
    decide +kernel
  refine ⟨hse,?_⟩
  obtain ⟨d,hd,hs⟩ := hse
  have has : (sampleDust.assets.find? fun a => a.chainID = "tron" ∧ a.id = "usdt") =
      some ⟨"usdt","tron",false,6,⟨100,by decide⟩⟩ := rfl
  exact (settling_transfer_passes_iff has (mem_singleton_self _) (by decide +kernel)
    (mem_singleton_self _) ⟨rfl,rfl⟩ rfl rfl hd hs).mpr (.inl ⟨rfl,.inl (by decide)⟩)

def strictExternals : Externals :=
  { sampleExternals with
    decodePolicy := fun _ => some ⟨"policy",1,true,100,.creditExpected,false,true,false,[]⟩
    snapshotAcceptsLate := fun _ => false }

/-- The reducer grants every policy 30 minutes after the expiry, the filter only those that
accept late payments: the exact amount, one moment late, is dust. -/
theorem late_payment_is_dust :
    (openIntentOf sampleDust (sampleRouteTo "route" "TMerchant")).isSome = true ∧
      strictExternals.decodePolicy "policy" =
        some ⟨"policy",1,true,100,.creditExpected,false,true,false,[]⟩ ∧
      (∃ d, evaluateAutomatedMatch strictExternals.hashing (sampleRouteTo "route" "TMerchant")
          [{ samplePayment "pay" ⟨100,by decide⟩ "block" with onChainTime := 101 }] 150
          ⟨"policy",1,true,100,.creditExpected,false,true,false,[]⟩ = .ok d ∧ d.outcome = .settle) ∧
      belowUnmatchedDustThreshold strictExternals sampleDust
        { samplePayment "pay" ⟨100,by decide⟩ "block" with onChainTime := 101 } = .ok true := by
  decide +kernel

end Ocrypt.DustFilter
