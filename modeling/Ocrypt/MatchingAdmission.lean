import Ocrypt.FieldText
import Ocrypt.MatchingConservation

/-! The exact condition under which the reducer settles a route automatically, stated over
the input events alone. -/
namespace Ocrypt.MatchingAdmission
open Money Domain Fallible Matching MatchingTotals MatchingConservation List
open FieldText (segment_inj)

def ConflictFree (sha256Hex : String → String) (events : List TransferEvent) : Prop :=
  ∀ a ∈ events, ∀ b ∈ events, keyOf sha256Hex a = keyOf sha256Hex b →
    a.identity = b.identity ∧ sameCanonicalTransfer a b = true

lemma payload_injective {i j : EventIdentity}
    (hi : ∀ f ∈ i.fields, '\x1f' ∉ f.toList) (hj : ∀ f ∈ j.fields, '\x1f' ∉ f.toList)
    (h : i.payload = j.payload) : i = j := by
  have hch : ∀ k : EventIdentity, k.payload.toList =
      k.chainID.toList ++ '\x1f'::(k.transactionID.toList ++ '\x1f' ::
        (k.eventIndex.toList ++ '\x1f'::(k.assetID.toList ++ '\x1f'::k.toAddress.toList))) := by
    intro k
    change ((((k.chainID ++ "\x1f" ++ k.transactionID) ++ "\x1f" ++ k.eventIndex) ++ "\x1f" ++
      k.assetID) ++ "\x1f" ++ k.toAddress).toList = _
    simp
  have hl := congrArg String.toList h
  rw [hch,hch] at hl
  simp only [EventIdentity.fields,forall_mem_cons] at hi hj
  obtain ⟨hc,hl⟩ := segment_inj hi.1 hj.1 hl
  obtain ⟨ht,hl⟩ := segment_inj hi.2.1 hj.2.1 hl
  obtain ⟨he,hl⟩ := segment_inj hi.2.2.1 hj.2.2.1 hl
  obtain ⟨ha,hto⟩ := segment_inj hi.2.2.2.1 hj.2.2.2.1 hl
  exact EventIdentity.ext (String.toList_inj.mp hc) (String.toList_inj.mp ht)
    (String.toList_inj.mp he) (String.toList_inj.mp ha) (String.toList_inj.mp hto)

variable {events : List TransferEvent} {sha256Hex : String → String}
  {policy : AutomatedMatchingPolicy} {route : PaymentRoute} {a b : TransferEvent} {h : Hashing}
  {now : ℤ}

/-- Transfers that agree wherever their identities do are free of conflicts. -/
theorem conflictFree_of_identities (hd : Function.Injective sha256Hex)
    (hse : ∀ e ∈ events, ∀ f ∈ e.identity.fields, '\x1f' ∉ f.toList)
    (hfa : ∀ a ∈ events, ∀ b ∈ events, a.identity = b.identity →
      sameCanonicalTransfer a b = true) : ConflictFree sha256Hex events := by
  intro a ha b hb hk
  have hid := payload_injective (hse a ha) (hse b hb) (hd hk)
  exact ⟨hid,hfa a ha b hb hid⟩

/-- `S` holds one event for each identity among the input events that count for the route. -/
structure Selection (route : PaymentRoute) (events S : List TransferEvent) : Prop where
  sub : ∀ e ∈ S, e ∈ events
  counts : ∀ e ∈ S, e.kind ≠ "gasfree_fee" ∧ eligible route e = true
  distinct : S.Pairwise fun a b => a.identity ≠ b.identity
  complete : ∀ e ∈ events, e.kind ≠ "gasfree_fee" → eligible route e = true →
    ∃ c ∈ S, c.identity = e.identity

/-- `fee` is a trusted fee sibling of the gas-free payment `e`. -/
def trustedSibling (route : PaymentRoute) (policy : AutomatedMatchingPolicy)
    (e fee : TransferEvent) : Bool :=
  gasFreePayable route policy e && fee.identity.transactionID = e.identity.transactionID &&
    trustedFee route policy e fee

/-- Exactly one transfer among the events is a trusted fee sibling of `e`. -/
def OneTrustedFee (route : PaymentRoute) (policy : AutomatedMatchingPolicy)
    (events : List TransferEvent) (e : TransferEvent) : Prop :=
  ∃ f ∈ events, trustedSibling route policy e f = true ∧
    ∀ g ∈ events, trustedSibling route policy e g = true → g.identity = f.identity

def siblingFeeAmount (route : PaymentRoute) (policy : AutomatedMatchingPolicy)
    (events : List TransferEvent) (e : TransferEvent) : ℕ :=
  if e.kind = "gasfree_permit_transfer" then
    (events.find? (trustedSibling route policy e)).elim 0 (·.amount.n)
  else 0

structure Admits (route : PaymentRoute) (policy : AutomatedMatchingPolicy)
    (events S : List TransferEvent) : Prop where
  nonempty : S ≠ []
  punctual : ∀ e ∈ S,
    e.onChainTime ≤ min (route.expiresAt+automaticLatePaymentGrace) route.graceEndsAt
  received_fits : (S.map (·.amount.n)).sum ≤ 2^256 - 1
  fees_fit : (S.map (siblingFeeAmount route policy events)).sum ≤ 2^256 - 1
  senders : policy.requireSameSender = true →
    ∀ a ∈ S, ∀ b ∈ S, a.fromAddress = b.fromAddress
  siblings : ∀ e ∈ S, e.kind = "gasfree_permit_transfer" → OneTrustedFee route policy events e
  amount : ((S.map (·.amount.n)).sum ≤ route.expectedAmount.n ∧
      route.expectedAmount.n*(10000 - policy.underpaymentToleranceBPS.toNat) ≤
        (S.map (·.amount.n)).sum*10000) ∨
    (route.expectedAmount.n < (S.map (·.amount.n)).sum ∧ policy.overpaymentMode ≠ .manual)

lemma amountWithinUnderpaymentTolerance_iff {received expected : Amount} {bps : UInt32}
    (hbp : bps ≤ 10000) : amountWithinUnderpaymentTolerance received expected bps = true ↔
      received.n < expected.n ∧ expected.n*(10000 - bps.toNat) ≤ received.n*10000 := by
  have hbp' : bps.toNat ≤ 10000 := by
    simpa using UInt32.le_iff_toNat_le.mp hbp
  unfold amountWithinUnderpaymentTolerance
  split_ifs with hsk
  · simp only [false_iff,not_and]
    intro hlt hle
    rcases hsk with hz | hcm
    · subst hz
      simp at hle
      omega
    · exact hcm (Amount.cmp_eq_lt.mpr hlt)
  · have hlt : received.n < expected.n := by
      rw [not_or,not_not] at hsk
      exact Amount.cmp_eq_lt.mp hsk.2
    have hsu : expected.sub received =
        .ok ⟨expected.n - received.n,lt_of_le_of_lt (Nat.sub_le _ _) expected.fits⟩ :=
      Amount.sub_eq_ok.mpr ⟨hlt.le,rfl⟩
    obtain ⟨maximum,hm,hn⟩ : ∃ c, expected.mulDivFloor
        ⟨bps.toNat,Amount.uint32_fits bps⟩ ⟨10000,Amount.basis_fits⟩ = .ok c ∧
        c.n = expected.n*bps.toNat / 10000 :=
      Amount.mulDivFloor_eq_ok (Nat.succ_pos 9999) hbp'
    have hf : expected.n - received.n ≤ expected.n*bps.toNat / 10000 ↔
        expected.n*(10000 - bps.toNat) ≤ received.n*10000 := by
      rw [Nat.mul_sub]
      omega
    simp only [hsu,hm]
    rw [decide_eq_true_iff,ne_eq,Amount.cmp_eq_gt,not_lt,hn,hf,and_iff_right hlt]

lemma settleDecision_outcome (h : Hashing) (t : Tally) (d : AutomatedMatchDecision) :
    (settleDecision h t d).outcome = .settle := by
  unfold settleDecision
  split_ifs <;> rfl

lemma judgeTotals_settle_iff {t : Tally} (hp : policy.validate = .ok ()) :
    (judgeTotals h route now policy t).outcome = .settle ↔
      t.allocations ≠ [] ∧ ¬(t.anyLate = true ∧ t.lateOutsideAutomaticGrace = true) ∧
        ((t.received.n ≤ route.expectedAmount.n ∧
            route.expectedAmount.n*(10000 - policy.underpaymentToleranceBPS.toNat) ≤
              t.received.n*10000) ∨
          (route.expectedAmount.n < t.received.n ∧ policy.overpaymentMode ≠ .manual)) := by
  simp only [AutomatedMatchingPolicy.validate,do_ok] at hp
  obtain ⟨⟨-,-,hbp⟩,hmo,-⟩ := hp
  unfold judgeTotals
  split
  · next he => simp [sealAutomatedDecision,openDecision,eq_nil_of_length_eq_zero he]
  next he =>
  have hne : t.allocations ≠ [] := fun hn => he (by simp [hn])
  split
  · next hl => simp [sealAutomatedDecision,openDecision,hl]
  next hl =>
  rw [and_iff_right hne,and_iff_right hl]
  split
  · next hlt =>
    rw [Amount.cmp_eq_lt] at hlt
    have hto : amountWithinUnderpaymentTolerance t.received route.expectedAmount
        policy.underpaymentToleranceBPS = true ↔ _ := amountWithinUnderpaymentTolerance_iff hbp
    split
    · next hy =>
      rw [settleDecision_outcome,eq_self_iff_true,true_iff]
      exact .inl ⟨hlt.le,(hto.mp hy).2⟩
    · next hno =>
      rw [or_iff_right (fun hle => hno (hto.mpr ⟨hlt,hle.2⟩))]
      split <;> simp [sealAutomatedDecision,openDecision,hlt.not_gt]
  · next heq =>
    rw [Amount.cmp_eq_eq] at heq
    rw [settleDecision_outcome,eq_self_iff_true,true_iff,heq]
    exact .inl ⟨le_rfl,Nat.mul_le_mul_left _ (Nat.sub_le _ _)⟩
  · next hgt =>
    rw [Amount.cmp_eq_gt] at hgt
    split
    · next hcr => simp [settleDecision_outcome,hgt,hcr]
    · next hcr => simp [settleDecision_outcome,hgt,hcr]
    · next hal hep =>
      have hma : policy.overpaymentMode = .manual := by
        rcases hmo with hm | hm | hm
        · exact hm
        · exact absurd hm hal
        · exact absurd hm hep
      have hle : ¬ t.received.n ≤ route.expectedAmount.n := by omega
      simp [sealAutomatedDecision,openDecision,hma,hle]

variable {S S' : List TransferEvent} {e f : TransferEvent}

section

variable {canonical : List TransferEvent}

lemma facts_of_identity (hco : ConflictFree sha256Hex events)
    (ha : a ∈ events) (hb : b ∈ events) (hab : a.identity = b.identity) :
    sameCanonicalTransfer a b = true :=
  (hco a ha b hb (by rw [keyOf,keyOf,hab])).2

lemma counted_iff : counted route e = true ↔ e.kind ≠ "gasfree_fee" ∧ eligible route e = true := by
  simp [counted]

lemma counted_congr (hid : a.identity = b.identity)
    (hsame : sameCanonicalTransfer a b = true) : counted route a = counted route b := by
  rw [sameCanonicalTransfer_iff] at hsame
  obtain ⟨hk,-,-,-,-,-,hti,hco,hst,-,-⟩ := hsame
  simp [counted,eligible,hid,hk,hti,hco,hst]

lemma selection_canonical (hcn : ConflictFree sha256Hex events)
    (h : canonicalEvents sha256Hex events = .ok canonical) :
    Selection route events (canonical.filter (counted route)) := by
  obtain ⟨hn,hsu,hco⟩ := canonicalEvents_spec h
  constructor
  case sub => exact fun e he => hsu e (mem_filter.mp he).1
  case counts => exact fun e he => counted_iff.mp (mem_filter.mp he).2
  case distinct =>
    have hne : canonical.Pairwise fun a b => a.identity ≠ b.identity := by
      refine (pairwise_map.mp hn).imp fun hke hid => hke ?_
      rw [keyOf,keyOf,hid]
    exact hne.filter _
  case complete =>
    intro e he hk hel
    obtain ⟨-,c,hc,hke,hsame⟩ := hco e he
    have hid := (hcn c (hsu c hc) e he hke).1
    refine ⟨c,mem_filter.mpr ⟨hc,?_⟩,hid⟩
    rw [counted_congr hid hsame]
    exact counted_iff.mpr ⟨hk,hel⟩

section
variable (hS : Selection route events S) (hS' : Selection route events S')
include hS hS'

lemma Selection.perm : (S.map (·.identity)).Perm (S'.map (·.identity)) := by
  have hco : ∀ {A B : List TransferEvent}, Selection route events A →
      Selection route events B → ∀ i ∈ A.map (·.identity), i ∈ B.map (·.identity) := by
    intro A B hA hB i hi
    obtain ⟨e,he,rfl⟩ := mem_map.mp hi
    obtain ⟨hk,hel⟩ := hA.counts e he
    obtain ⟨c,hc,hid⟩ := hB.complete e (hA.sub e he) hk hel
    exact hid ▸ mem_map_of_mem hc
  rw [perm_ext_iff_of_nodup (pairwise_map.mpr hS.distinct) (pairwise_map.mpr hS'.distinct)]
  exact fun i => ⟨hco hS hS' i,hco hS' hS i⟩

/-- Two selections of the same identities have the same totals. -/
theorem Selection.sum_eq {f g : TransferEvent → ℕ}
    (hfg : ∀ a ∈ S, ∀ b ∈ S', a.identity = b.identity → f a = g b) :
    (S.map f).sum = (S'.map g).sum := by
  -- read both totals through the values that `S'` gives to the identities
  let value : EventIdentity → ℕ := fun i => (S'.find? (·.identity = i)).elim 0 g
  have hv : ∀ b ∈ S', value b.identity = g b := by
    intro b hb
    simp [value,Table.find?_key (pairwise_map.mpr hS'.distinct) hb]
  have hl : S.map f = (S.map (·.identity)).map value := by
    rw [map_map]
    refine map_congr_left fun a ha => ?_
    obtain ⟨hk,he⟩ := hS.counts a ha
    obtain ⟨b,hb,hid⟩ := hS'.complete a (hS.sub a ha) hk he
    rw [Function.comp_apply,← hid,hv b hb,hfg a ha b hb hid.symm]
  have hr : S'.map g = (S'.map (·.identity)).map value := by
    rw [map_map]
    exact map_congr_left fun b hb => (hv b hb).symm
  rw [hl,hr]
  exact ((hS.perm hS').map value).sum_eq

theorem Selection.forall_iff {p q : TransferEvent → Prop}
    (hpq : ∀ a ∈ S, ∀ b ∈ S', a.identity = b.identity → (p a ↔ q b)) :
    (∀ a ∈ S, p a) ↔ ∀ b ∈ S', q b := by
  constructor
  · intro hp b hb
    obtain ⟨hk,he⟩ := hS'.counts b hb
    obtain ⟨a,ha,hid⟩ := hS.complete b (hS'.sub b hb) hk he
    exact (hpq a ha b hb hid).mp (hp a ha)
  · intro hq a ha
    obtain ⟨hk,he⟩ := hS.counts a ha
    obtain ⟨b,hb,hid⟩ := hS'.complete a (hS.sub a ha) hk he
    exact (hpq a ha b hb hid.symm).mpr (hq b hb)

lemma Selection.nil_iff : S = [] ↔ S' = [] := by
  have := (hS.perm hS').length_eq
  simp only [length_map] at this
  rw [← length_eq_zero_iff,← length_eq_zero_iff,this]

end

lemma trustedSibling_congr_left (hid : a.identity = b.identity)
    (hsame : sameCanonicalTransfer a b = true) :
    trustedSibling route policy a f = trustedSibling route policy b f := by
  rw [sameCanonicalTransfer_iff] at hsame
  obtain ⟨-,hfr,-,-,-,hbl,hti,-,-,hp,he⟩ := hsame
  simp [trustedSibling,gasFreePayable,trustedFee,hid,hfr,hbl,hti,hp,he]

lemma trustedSibling_congr_right {g : TransferEvent} (hid : f.identity = g.identity)
    (hsame : sameCanonicalTransfer f g = true) :
    trustedSibling route policy a f = trustedSibling route policy a g := by
  rw [sameCanonicalTransfer_iff] at hsame
  obtain ⟨hk,hfr,-,-,-,hbl,hti,hco,hst,hp,he⟩ := hsame
  simp [trustedSibling,trustedFee,hid,hk,hfr,hbl,hti,hco,hst,hp,he]

lemma pairedFee_eq_some_iff {fee : TransferEvent} (hk : e.kind = "gasfree_permit_transfer") :
    pairedFee route policy canonical e = some fee ↔
      canonical.filter (trustedSibling route policy e) = [fee] := by
  rw [pairedFee_eq_some,and_iff_right hk]
  have hfi : gasFreePayable route policy e = true →
      canonical.filter (fun f => f.identity.transactionID = e.identity.transactionID ∧
        trustedFee route policy e f) = canonical.filter (trustedSibling route policy e) := by
    intro hp
    refine filter_congr fun f _ => ?_
    simp [trustedSibling,hp]
  constructor
  · rintro ⟨hp,hsi⟩
    rw [← hfi hp,hsi]
  · intro hsi
    have hm := hsi ▸ mem_singleton_self fee
    have hsb := (mem_filter.mp hm).2
    simp only [trustedSibling,Bool.and_eq_true] at hsb
    exact ⟨hsb.1.1,(hfi hsb.1.1).trans hsi⟩

/-- A trusted fee among the events is still there once the copies are removed. -/
theorem exists_canonical_sibling (hcn : ConflictFree sha256Hex events)
    (h : canonicalEvents sha256Hex events = .ok canonical)
    (hf : f ∈ events) (hsi : trustedSibling route policy e f = true) :
    ∃ c ∈ canonical.filter (trustedSibling route policy e), c.identity = f.identity := by
  obtain ⟨-,hsu,hco⟩ := canonicalEvents_spec h
  obtain ⟨-,c,hc,hk,hsame⟩ := hco f hf
  have hid := (hcn c (hsu c hc) f hf hk).1
  refine ⟨c,mem_filter.mpr ⟨hc,?_⟩,hid⟩
  rw [trustedSibling_congr_right hid hsame]
  exact hsi

lemma pairedFee_isSome_iff (hco : ConflictFree sha256Hex events)
    (h : canonicalEvents sha256Hex events = .ok canonical)
    (hk : e.kind = "gasfree_permit_transfer") :
    (pairedFee route policy canonical e).isSome = true ↔ OneTrustedFee route policy events e := by
  obtain ⟨hn,hsu,-⟩ := canonicalEvents_spec h
  rw [Option.isSome_iff_exists]
  constructor
  · rintro ⟨fee,hfe⟩
    rw [pairedFee_eq_some_iff hk] at hfe
    have hm := hfe ▸ mem_singleton_self fee
    obtain ⟨hca,hsi⟩ := mem_filter.mp hm
    refine ⟨fee,hsu fee hca,hsi,fun g hg hgs => ?_⟩
    obtain ⟨c,hc,hid⟩ := exists_canonical_sibling hco h hg hgs
    rw [hfe,mem_singleton] at hc
    rw [← hid,hc]
  · rintro ⟨f,hf,hsi,hu⟩
    obtain ⟨c,hc,hid⟩ := exists_canonical_sibling hco h hf hsi
    have hal : ∀ b ∈ canonical.filter (trustedSibling route policy e), b = c := by
      intro b hb
      obtain ⟨hbc,hbs⟩ := mem_filter.mp hb
      refine canonical_eq_of_identity h hbc (mem_filter.mp hc).1 ?_
      rw [hid]
      exact hu b (hsu b hbc) hbs
    refine ⟨c,(pairedFee_eq_some_iff hk).mpr ?_⟩
    have hfi := hn.of_map.filter (trustedSibling route policy e)
    rcases hl : canonical.filter (trustedSibling route policy e) with _ | ⟨b,_ | ⟨b',l⟩⟩ <;>
      rw [hl] at hc hal hfi
    · exact absurd hc not_mem_nil
    · rw [hal b mem_cons_self]
    · have hb := hal b mem_cons_self
      have hb' := hal b' (mem_cons_of_mem b mem_cons_self)
      exact absurd (hb.trans hb'.symm) (ne_of_not_mem_cons (nodup_cons.mp hfi).1)

lemma feeAmount_eq (hco : ConflictFree sha256Hex events)
    (h : canonicalEvents sha256Hex events = .ok canonical)
    (hfe : e.kind = "gasfree_permit_transfer" →
      (pairedFee route policy canonical e).isSome = true) :
    feeAmount route policy canonical e = siblingFeeAmount route policy events e := by
  unfold feeAmount siblingFeeAmount
  split_ifs with hk
  · obtain ⟨fee,hfe⟩ := Option.isSome_iff_exists.mp (hfe hk)
    have hsi := (pairedFee_eq_some_iff hk).mp hfe
    obtain ⟨hca,hsb⟩ := mem_filter.mp (hsi ▸ mem_singleton_self fee)
    obtain ⟨-,hsu,-⟩ := canonicalEvents_spec h
    cases hf : events.find? (trustedSibling route policy e) with
    | none => exact absurd hsb (find?_eq_none.mp hf fee (hsu fee hca))
    | some g =>
      have hg := mem_of_find?_eq_some hf
      obtain ⟨c,hc,hid⟩ := exists_canonical_sibling hco h hg (find?_some hf)
      rw [hsi,mem_singleton] at hc
      subst hc
      have hsame := facts_of_identity hco (hsu c hca) hg hid
      rw [sameCanonicalTransfer_iff] at hsame
      simp [hfe,hsame.2.2.1]
  · simp [pairedFee,hk]

end

section
variable (hid : a.identity = b.identity) (hsame : sameCanonicalTransfer a b = true)
include hid hsame

lemma OneTrustedFee.congr (h : OneTrustedFee route policy events a) :
    OneTrustedFee route policy events b := by
  obtain ⟨f,hf,hsi,hu⟩ := h
  refine ⟨f,hf,trustedSibling_congr_left hid hsame ▸ hsi,fun g hg hgs => ?_⟩
  exact hu g hg (trustedSibling_congr_left hid hsame ▸ hgs)

lemma siblingFeeAmount_congr :
    siblingFeeAmount route policy events a = siblingFeeAmount route policy events b := by
  have hk := (sameCanonicalTransfer_iff.mp hsame).1
  have hsi : trustedSibling route policy a = trustedSibling route policy b :=
    funext fun _ => trustedSibling_congr_left hid hsame
  rw [siblingFeeAmount,siblingFeeAmount,hk,hsi]

end

lemma Admits.of_selection (hco : ConflictFree sha256Hex events) (hS : Selection route events S)
    (hS' : Selection route events S') (h : Admits route policy events S) :
    Admits route policy events S' := by
  have hf := fun a ha b hb => facts_of_identity hco (hS.sub a ha) (hS'.sub b hb)
  have ham : (S.map (·.amount.n)).sum = (S'.map (·.amount.n)).sum :=
    hS.sum_eq hS' fun a ha b hb hid => by
      rw [(sameCanonicalTransfer_iff.mp (hf a ha b hb hid)).2.2.1]
  have hfe : (S.map (siblingFeeAmount route policy events)).sum =
      (S'.map (siblingFeeAmount route policy events)).sum :=
    hS.sum_eq hS' fun a ha b hb hid => siblingFeeAmount_congr hid (hf a ha b hb hid)
  constructor
  case nonempty => exact fun hn => h.nonempty ((hS.nil_iff hS').mpr hn)
  case punctual =>
    refine (hS.forall_iff hS' fun a ha b hb hid => ?_).mp h.punctual
    rw [(sameCanonicalTransfer_iff.mp (hf a ha b hb hid)).2.2.2.2.2.2.1]
  case received_fits => exact ham ▸ h.received_fits
  case fees_fit => exact hfe ▸ h.fees_fit
  case senders =>
    intro hr
    refine (hS.forall_iff hS' fun a ha b hb hid => ?_).mp (h.senders hr)
    refine hS.forall_iff hS' fun a' ha' b' hb' hid' => ?_
    rw [(sameCanonicalTransfer_iff.mp (hf a ha b hb hid)).2.1,
      (sameCanonicalTransfer_iff.mp (hf a' ha' b' hb' hid')).2.1]
  case siblings =>
    refine (hS.forall_iff hS' fun a ha b hb hid => ?_).mp h.siblings
    have hsame := hf a ha b hb hid
    have hsame' := facts_of_identity hco (hS'.sub b hb) (hS.sub a ha) hid.symm
    rw [(sameCanonicalTransfer_iff.mp hsame).1]
    exact ⟨fun hfee hk => (hfee hk).congr hid hsame,
      fun hfee hk => (hfee hk).congr hid.symm hsame'⟩
  case amount => exact ham ▸ h.amount

/-- No payment is too late exactly if all of them arrive by the automatic deadline. -/
theorem not_lateOutside_iff (hr : validMatchingRoute route = true) {es : List TransferEvent} :
    ¬(es.any (isLate route) = true ∧ es.any (isLateOutside route) = true) ↔ ∀ e ∈ es,
        e.onChainTime ≤ min (route.expiresAt+automaticLatePaymentGrace) route.graceEndsAt := by
  simp only [validMatchingRoute,decide_eq_true_eq] at hr
  have hsi : ∀ e : TransferEvent, isLateOutside route e = true ↔
      ¬e.onChainTime ≤ min (route.expiresAt+automaticLatePaymentGrace) route.graceEndsAt := by
    simp only [isLateOutside,isLate,automaticLatePaymentDeadline_eq_min,Bool.and_eq_true,
      decide_eq_true_eq,automaticLatePaymentGrace,minute]
    omega
  simp only [any_eq_true,not_and,not_exists,forall_exists_index,and_imp]
  constructor
  · intro hno e he
    by_contra hl
    have ho := (hsi e).mpr hl
    have hi : isLate route e = true := by
      simp only [isLateOutside,Bool.and_eq_true] at ho
      exact ho.1
    exact hno e he hi e he ho
  · exact fun hal _ _ _ b hb ho => (hsi b).mp ho (hal b hb)

lemma settles_iff_admits_canonical {canonical : List TransferEvent}
    (hro : validMatchingRoute route = true) (hpo : policy.validate = .ok ())
    (hco : ConflictFree h.sha256Hex events) (hid : DistinctIDs events)
    (hfr : ∀ e ∈ events, e.fromAddress ≠ "")
    (hca : canonicalEvents h.sha256Hex events = .ok canonical) :
    (∃ d, evaluateAutomatedMatch h route events now policy = .ok d ∧ d.outcome = .settle) ↔
      Admits route policy events (canonical.filter (counted route)) := by
  set es := canonical.filter (counted route) with hes
  have hl : ∀ t, traverse (collectEvent route policy canonical) canonical {} = .ok t ↔
      SendersAgree policy "" es ∧ (∀ e ∈ es, e.kind = "gasfree_permit_transfer" →
        (pairedFee route policy canonical e).isSome) ∧ Adds route policy canonical {} t es :=
    fun t => traverse_collectEvent_eq_ok (canonical_feesApart hid hca)
      (fun _ he => he) (fun _ hi => absurd hi not_mem_nil)
  have hse : SendersAgree policy "" es ↔ (policy.requireSameSender = true →
      ∀ a ∈ es, ∀ b ∈ es, a.fromAddress = b.fromAddress) := by
    rw [sendersAgree_iff fun e he => hfr e
      ((canonicalEvents_spec hca).2.1 e (mem_filter.mp he).1)]
    simp only [ne_eq,not_true_eq_false,false_imp_iff,true_and]
    rfl
  have hf : (∀ e ∈ es, e.kind = "gasfree_permit_transfer" →
      (pairedFee route policy canonical e).isSome = true) →
      (es.map (feeAmount route policy canonical)).sum =
        (es.map (siblingFeeAmount route policy events)).sum :=
    fun hp => congrArg _ (map_congr_left fun e he =>
      feeAmount_eq hco hca (hp e he))
  constructor
  · rintro ⟨d,hd,hs⟩
    obtain ⟨-,-,canonical',t,hca',hru,rfl⟩ := evaluate_cases hd (by simp [hs])
    cases hca.symm.trans hca'
    obtain ⟨hag,hp,had⟩ := (hl t).mp hru
    obtain ⟨hne,hla,ham⟩ := (judgeTotals_settle_iff hpo).mp hs
    have hr : t.received.n = (es.map (·.amount.n)).sum := by simpa using had.received
    have hg : t.gasFreeFees.n = (es.map (feeAmount route policy canonical)).sum := by
      simpa using had.gasFreeFees
    constructor
    case nonempty =>
      intro hn
      exact hne (by rw [had.allocations,hn]; rfl)
    case punctual =>
      rw [← not_lateOutside_iff hro]
      simpa [had.anyLate,had.lateOutside] using hla
    case received_fits => exact hr ▸ Nat.le_pred_of_lt t.received.fits
    case fees_fit => exact hf hp ▸ hg ▸ Nat.le_pred_of_lt t.gasFreeFees.fits
    case senders => exact hse.mp hag
    case siblings =>
      exact fun e he hk => (pairedFee_isSome_iff hco hca hk).mp (hp e he hk)
    case amount => exact hr ▸ ham
  · intro hadm
    have hp := fun e he hk =>
      (pairedFee_isSome_iff hco hca hk).mpr (hadm.siblings e he hk)
    have hfi := hadm.received_fits
    have hfe := hf hp ▸ hadm.fees_fit
    obtain ⟨t,had⟩ : ∃ t, Adds route policy canonical {} t es :=
      exists_adds (by simp only [Amount.zero_n]; omega) (by simp only [Amount.zero_n]; omega)
        (by simp only [Amount.zero_n]; omega)
    have hru := (hl t).mpr ⟨hse.mpr hadm.senders,hp,had⟩
    refine ⟨judgeTotals h route now policy t,?_,(judgeTotals_settle_iff hpo).mpr ⟨?_,?_,?_⟩⟩
    · simp only [evaluateAutomatedMatch,hpo,hca,ok_bind,require_pos hro,hru]
      rfl
    · obtain ⟨e,he⟩ := exists_mem_of_ne_nil es hadm.nonempty
      rw [had.allocations]
      intro hn
      have hem := (append_eq_nil_iff.mp hn).2
      exact eventAllocations_ne_nil e (flatMap_eq_nil_iff.mp hem e he)
    · simpa [had.anyLate,had.lateOutside] using
        (not_lateOutside_iff hro).mpr hadm.punctual
    · have hr : t.received.n = (es.map (·.amount.n)).sum := by simpa using had.received
      exact hr ▸ hadm.amount

/-- The reducer settles exactly the admitted selections. `now` plays no role. -/
theorem evaluateAutomatedMatch_settles_iff {h : Hashing} {route : PaymentRoute}
    {events S : List TransferEvent} {now : ℤ} {policy : AutomatedMatchingPolicy}
    (hroute : validMatchingRoute route = true) (hpolicy : policy.validate = .ok ())
    (hvalid : ∀ e ∈ events, e.identity.validate = .ok ()) (hconf : ConflictFree h.sha256Hex events)
    (hids : ∀ a ∈ events, ∀ b ∈ events, a.identity ≠ b.identity → a.id ≠ b.id)
    (hfrom : ∀ e ∈ events, e.fromAddress ≠ "") (hS : Selection route events S) :
    (∃ d, evaluateAutomatedMatch h route events now policy = .ok d ∧ d.outcome = .settle) ↔
      Admits route policy events S := by
  obtain ⟨canonical,hca⟩ := exists_canonicalEvents hvalid
    fun a ha b hb hk => (hconf a ha b hb hk).2
  have hse : Selection route events (canonical.filter (counted route)) :=
    selection_canonical hconf hca
  rw [settles_iff_admits_canonical hroute hpolicy hconf hids hfrom hca]
  exact ⟨Admits.of_selection hconf hse hS,Admits.of_selection hconf hS hse⟩

def sampleSelection : List TransferEvent :=
  [sampleTransfer "p1" "tx1" "transfer:0" "TMerchant" "gasfree_permit_transfer" 70,
    sampleTransfer "p2" "tx2" "transfer:0" "TMerchant" "transfer" 40]

theorem evaluateAutomatedMatch_settles_sample :
    Admits sampleRoute samplePolicy sampleEvents sampleSelection ∧
      ∃ d, evaluateAutomatedMatch sampleHashing sampleRoute sampleEvents 60 samplePolicy = .ok d ∧
        d.outcome = .settle := by
  have hse : Selection sampleRoute sampleEvents sampleSelection :=
    ⟨by decide +kernel,by decide +kernel,by decide +kernel,by decide +kernel⟩
  have had : Admits sampleRoute samplePolicy sampleEvents sampleSelection := by
    constructor
    case siblings => exact (by decide +kernel : ∀ e ∈ sampleSelection,
      e.kind = "gasfree_permit_transfer" → ∃ f ∈ sampleEvents,
        trustedSibling sampleRoute samplePolicy e f = true ∧ ∀ g ∈ sampleEvents,
          trustedSibling sampleRoute samplePolicy e g = true → g.identity = f.identity)
    all_goals decide +kernel
  have hco : ConflictFree sampleHashing.sha256Hex sampleEvents :=
    conflictFree_of_identities Function.injective_id (by decide +kernel) (by decide +kernel)
  exact ⟨had,(evaluateAutomatedMatch_settles_iff (by decide +kernel) (by decide +kernel)
    (by decide +kernel) hco (by decide +kernel) (by decide +kernel) hse).mpr had⟩

end Ocrypt.MatchingAdmission
