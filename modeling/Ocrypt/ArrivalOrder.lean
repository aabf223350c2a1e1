import Ocrypt.DestinationFilter

/-! The reducer depends only on which transfers it is given: neither the order in which they
arrive nor repeated reports of one of them change its decision. The sort of the source leaves the
order of equal elements open, and by the same argument that choice does not matter either. -/
namespace Ocrypt.ArrivalOrder
open Domain Fallible Table Matching MatchingTotals MatchingConservation List

def bare (e : TransferEvent) : TransferEvent := { e with nativeEVMRawEvidence := [] }

section

variable {sha256Hex : String → String} {route : PaymentRoute} {policy : AutomatedMatchingPolicy}

lemma lookup_map_bare (ids : List (String × TransferEvent)) (key : String) :
    (ids.map (Prod.map id bare)).lookup key = (ids.lookup key).map bare := by
  induction ids with
  | nil => rfl
  | cons q ids ih =>
    obtain ⟨k,c⟩ := q
    by_cases hke : key = k
    · simp [hke]
    · have hne : (key == k) = false := beq_eq_false_iff_ne.mpr hke
      simp [lookup_cons,hne,ih]

lemma admitIdentity_bare (ids : List (String × TransferEvent)) (e : TransferEvent) :
    admitIdentity sha256Hex (ids.map (Prod.map id bare)) (bare e) =
      (admitIdentity sha256Hex ids e).map (·.map (Prod.map id bare)) := by
  have hi : (bare e).identity = e.identity := rfl
  unfold admitIdentity
  rw [hi]
  cases e.identity.key sha256Hex with
  | error msg => rfl
  | ok key =>
    dsimp only
    rw [lookup_map_bare]
    cases ids.lookup key with
    | none => simp [Except.map]
    | some c =>
      have hsame : sameCanonicalTransfer (bare c) (bare e) = sameCanonicalTransfer c e := rfl
      simp only [Option.map_some,hsame]
      split
      · rfl
      · rfl

lemma traverse_admitIdentity_bare (xs : List TransferEvent) (ids : List (String × TransferEvent)) :
    traverse (admitIdentity sha256Hex) (xs.map bare) (ids.map (Prod.map id bare)) =
      (traverse (admitIdentity sha256Hex) xs ids).map (·.map (Prod.map id bare)) := by
  induction xs generalizing ids with
  | nil => rfl
  | cons x xs ih =>
    rw [map_cons,Fallible.traverse,Fallible.traverse,admitIdentity_bare]
    cases admitIdentity sha256Hex ids x with
    | error f => rfl
    | ok ids' => exact ih ids'

lemma canonicalEvents_bare (events : List TransferEvent) :
    canonicalEvents sha256Hex (events.map bare) =
      (canonicalEvents sha256Hex events).map (·.map bare) := by
  have hso : sortEvents (events.map bare) = (sortEvents events).map bare :=
    (map_insertionSort eventLE eventLE bare events fun _ _ _ _ => Iff.rfl).symm
  have hr : traverse (admitIdentity sha256Hex) ((sortEvents events).map bare) [] =
      (traverse (admitIdentity sha256Hex) (sortEvents events) []).map (·.map (Prod.map id bare)) :=
    traverse_admitIdentity_bare (sortEvents events) []
  unfold canonicalEvents
  rw [hso,hr]
  cases traverse (admitIdentity sha256Hex) (sortEvents events) [] with
  | error f => rfl
  | ok ids => simp [Except.map]

lemma correlateGasFreeFee_bare (payment : TransferEvent) (siblings : List TransferEvent) :
    correlateGasFreeFee (bare payment) (siblings.map bare) route policy =
      (correlateGasFreeFee payment siblings route policy).map bare := by
  have hf : (siblings.map bare).filter (trustedFee route policy (bare payment)) =
      (siblings.filter (trustedFee route policy payment)).map bare := by
    rw [filter_map]
    rfl
  have hp : gasFreePayable route policy (bare payment) =
    gasFreePayable route policy payment := rfl
  unfold correlateGasFreeFee
  rw [hf,hp]
  split
  · match siblings.filter (trustedFee route policy payment) with
    | [] => rfl
    | [fee] => rfl
    | _::_::_ => rfl
  · rfl

lemma add_bare (canonical : List TransferEvent) (t : Tally) (e : TransferEvent) :
    t.add route policy (canonical.map bare) (bare e) = t.add route policy canonical e := by
  have hsi : (canonical.map bare).filter
        (·.identity.transactionID = e.identity.transactionID) =
      (canonical.filter (·.identity.transactionID = e.identity.transactionID)).map bare := by
    rw [filter_map]
    rfl
  have hi : (bare e).identity = e.identity := rfl
  unfold Tally.add
  rw [hi]
  simp only [hsi,correlateGasFreeFee_bare]
  cases correlateGasFreeFee e
    (canonical.filter (·.identity.transactionID = e.identity.transactionID)) route policy with
  | none => rfl
  | some fee => rfl

lemma collectEvent_bare (canonical : List TransferEvent) (t : Tally) (e : TransferEvent) :
    collectEvent route policy (canonical.map bare) t (bare e) =
      collectEvent route policy canonical t e := by
  unfold collectEvent
  rw [add_bare]
  rfl

lemma traverse_collectEvent_bare (canonical xs : List TransferEvent) (t : Tally) :
    traverse (collectEvent route policy (canonical.map bare)) (xs.map bare) t =
      traverse (collectEvent route policy canonical) xs t := by
  induction xs generalizing t with
  | nil => rfl
  | cons x xs ih =>
    rw [map_cons,Fallible.traverse,Fallible.traverse,collectEvent_bare]
    cases collectEvent route policy canonical t x with
    | error f => rfl
    | ok t' => exact ih t'

lemma evaluateAutomatedMatch_bare (h : Hashing) (events : List TransferEvent) (now : ℤ) :
    evaluateAutomatedMatch h route (events.map bare) now policy =
      evaluateAutomatedMatch h route events now policy := by
  unfold evaluateAutomatedMatch
  rw [canonicalEvents_bare]
  cases canonicalEvents h.sha256Hex events with
  | error f => rfl
  | ok canonical =>
    simp [Except.map,traverse_collectEvent_bare]

end

section

variable {sha256Hex : String → String} {events events' canonical canonical' : List TransferEvent}
  {a b : TransferEvent}

lemma eventLE_refl (e : TransferEvent) : eventLE e e := .inr ⟨rfl,String.le_refl _⟩

lemma traverse_admitIdentity_least {xs : List TransferEvent}
    {ids ids' : List (String × TransferEvent)} (hta : IdentityTable sha256Hex ids)
    (hso : xs.Pairwise eventLE) (h : traverse (admitIdentity sha256Hex) xs ids = .ok ids') :
    (∃ ys, ys.Sublist xs ∧ ids'.map Prod.snd = ids.map Prod.snd ++ ys) ∧
      ∀ p ∈ ids', p ∈ ids ∨ ∀ f ∈ xs, keyOf sha256Hex f = p.1 → eventLE p.2 f := by
  induction xs generalizing ids with
  | nil =>
    cases h
    exact ⟨⟨[],.slnil,by simp⟩,fun p hp => .inl hp⟩
  | cons x xs ih =>
    obtain ⟨hfi,hr⟩ := pairwise_cons.mp hso
    obtain ⟨mid,hmi,hru⟩ := traverse_cons_eq_ok.mp h
    -- An entry with the key of `x` is the one that was there first.
    have hke : ∀ c, IdentityTable sha256Hex mid → (keyOf sha256Hex x,c) ∈ mid → ∀ p ∈ ids',
        keyOf sha256Hex x = p.1 → p = (keyOf sha256Hex x,c) := by
      intro c hm hc p hp hx
      obtain ⟨hta',hk,-,-⟩ := traverse_admitIdentity_spec hm hru
      exact inj_on_of_nodup_map hta'.nodup hp (hk _ hc) hx.symm
    obtain ⟨-,⟨c,hlo,-,rfl⟩ | ⟨hn,rfl⟩⟩ := admitIdentity_eq_ok.mp hmi
    · obtain ⟨⟨ys,hys,ho⟩,hl⟩ := ih hta hr hru
      refine ⟨⟨ys,hys.cons x,ho⟩,fun p hp => ?_⟩
      by_cases hpx : keyOf sha256Hex x = p.1
      · rw [hke c hta (lookup_mem hlo) p hp hpx]
        exact .inl (lookup_mem hlo)
      · exact (hl p hp).imp_right fun hle => forall_mem_cons.mpr ⟨fun hxp => absurd hxp hpx,hle⟩
    · have hta' := hta.append hn
      obtain ⟨⟨ys,hys,ho⟩,hl⟩ := ih hta' hr hru
      refine ⟨⟨x::ys,hys.cons_cons x,by simp [ho]⟩,fun p hp => ?_⟩
      by_cases hpx : keyOf sha256Hex x = p.1
      · rw [hke x hta' (by simp) p hp hpx]
        exact .inr (forall_mem_cons.mpr ⟨fun _ => eventLE_refl x,fun f hf _ => hfi f hf⟩)
      · rcases hl p hp with hme | hle
        · exact (mem_snoc.mp hme).imp_right fun hk => absurd (hk ▸ rfl) hpx
        · exact .inr (forall_mem_cons.mpr ⟨fun hxp => absurd hxp hpx,hle⟩)

lemma canonicalEvents_least (h : canonicalEvents sha256Hex events = .ok canonical) :
    canonical.Pairwise eventLE ∧ ∀ e ∈ canonical, ∀ f ∈ events,
      keyOf sha256Hex f = keyOf sha256Hex e → eventLE e f := by
  obtain ⟨ids,hr,rfl⟩ := map_eq_ok.mp h
  have hso := pairwise_insertionSort eventLE events
  obtain ⟨⟨ys,hys,ho⟩,hl⟩ := traverse_admitIdentity_least .nil hso hr
  obtain ⟨hta,-⟩ := traverse_admitIdentity_spec .nil hr
  refine ⟨ho ▸ hso.sublist hys,fun e he f hf hk => ?_⟩
  obtain ⟨p,hp,rfl⟩ := mem_map.mp he
  rcases hl p hp with hn | hle
  · exact absurd hn not_mem_nil
  · exact hle f (mem_sortEvents.mpr hf) (hk.trans (hta.keyed p hp).symm)

section
variable (hids : DistinctIDs events)
include hids

lemma identity_of_tie (ha : a ∈ events) (hb : b ∈ events) (hab : eventLE a b) (hba : eventLE b a) :
    a.id = b.id ∧ a.identity = b.identity := by
  have hid : a.id = b.id := by
    rcases hab with hlt | ⟨heq,hab⟩ <;> rcases hba with hlt' | ⟨heq',hba⟩
    · omega
    · omega
    · omega
    · exact String.le_antisymm hab hba
  exact ⟨hid,not_not.mp fun hne => hids a ha b hb hne hid⟩

lemma eq_of_tie (ha : a ∈ events)
    (hb : b ∈ events) (hbr : bare a = a ∧ bare b = b) (hsame : sameCanonicalTransfer a b = true)
    (hab : eventLE a b) (hba : eventLE b a) : a = b := by
  obtain ⟨hid,hi⟩ := identity_of_tie hids ha hb hab hba
  have hr : a.nativeEVMRawEvidence = b.nativeEVMRawEvidence := by
    rw [← hbr.1,← hbr.2]
    rfl
  rw [sameCanonicalTransfer_iff] at hsame
  apply TransferEvent.ext <;> simp_all

lemma mem_canonicalEvents (hba : ∀ e ∈ events, bare e = e)
    (h : canonicalEvents sha256Hex events = .ok canonical) {e : TransferEvent} :
    e ∈ canonical ↔ e ∈ events ∧
      ∀ f ∈ events, keyOf sha256Hex f = keyOf sha256Hex e → eventLE e f := by
  obtain ⟨-,hfr,hco⟩ := canonicalEvents_spec h
  obtain ⟨-,hl⟩ := canonicalEvents_least h
  constructor
  · intro he
    exact ⟨hfr e he,hl e he⟩
  · rintro ⟨he,hle⟩
    obtain ⟨-,c,hc,hk,hsame⟩ := hco e he
    have hce := hl c hc e he hk.symm
    have hec := hle c (hfr c hc) hk
    rw [← eq_of_tie hids (hfr c hc) he ⟨hba c (hfr c hc),hba e he⟩ hsame hce hec]
    exact hc

lemma canonicalEvents_eq (hbr : ∀ e ∈ events, bare e = e)
    (hm : ∀ e, e ∈ events' ↔ e ∈ events) (h : canonicalEvents sha256Hex events = .ok canonical)
    (h' : canonicalEvents sha256Hex events' = .ok canonical') : canonical' = canonical := by
  have hids' : DistinctIDs events' := fun a ha b hb => hids a ((hm a).mp ha) b ((hm b).mp hb)
  have hbr' := fun e he => hbr e ((hm e).mp he)
  have hsame : ∀ e, e ∈ canonical' ↔ e ∈ canonical := by
    intro e
    rw [mem_canonicalEvents hids hbr h,mem_canonicalEvents hids' hbr' h']
    simp [hm]
  have hn : canonical.Nodup := .of_map _ (canonicalEvents_spec h).1
  have hn' : canonical'.Nodup := .of_map _ (canonicalEvents_spec h').1
  refine List.Perm.eq_of_pairwise (fun a b ha hb hab hba => ?_) (canonicalEvents_least h').1
    (canonicalEvents_least h).1 ((perm_ext_iff_of_nodup hn' hn).mpr hsame)
  have hi := (identity_of_tie hids ((hm a).mp ((canonicalEvents_spec h').2.1 a ha))
    ((canonicalEvents_spec h).2.1 b hb) hab hba).2
  exact canonical_eq_of_identity h ((hsame a).mp ha) hb hi

lemma canonicalEvents_toOption (hba : ∀ e ∈ events, bare e = e)
    (hm : ∀ e, e ∈ events' ↔ e ∈ events) :
    (canonicalEvents sha256Hex events').toOption = (canonicalEvents sha256Hex events).toOption := by
  -- Whether the events agree with each other is a matter of which events there are, too.
  have hok : ∀ {xs ys canonical}, (∀ e, e ∈ xs ↔ e ∈ ys) →
      canonicalEvents sha256Hex xs = .ok canonical →
      ∃ canonical', canonicalEvents sha256Hex ys = .ok canonical' := by
    intro xs ys canonical hxy h
    obtain ⟨hn,-,hco⟩ := canonicalEvents_spec h
    refine exists_canonicalEvents (fun e he => (hco e ((hxy e).mpr he)).1) fun a ha b hb hk => ?_
    obtain ⟨-,c,hc,hca,hsame⟩ := hco a ((hxy a).mpr ha)
    obtain ⟨-,d,hd,hdb,hsame'⟩ := hco b ((hxy b).mpr hb)
    have hcd : c = d := inj_on_of_nodup_map hn hc hd (by rw [hca,hdb,hk])
    rw [sameCanonicalTransfer_iff] at hsame hsame' ⊢
    simp_all
  cases h : canonicalEvents sha256Hex events with
  | ok canonical =>
    obtain ⟨canonical',h'⟩ := hok (fun e => (hm e).symm) h
    rw [h',canonicalEvents_eq hids hba hm h h']
  | error failure =>
    cases h' : canonicalEvents sha256Hex events' with
    | error failure' => rfl
    | ok canonical' =>
      obtain ⟨canonical,hcn⟩ := hok hm h'
      cases h.symm.trans hcn

end

end

/-- Events that arrive in another order, with any of them repeated, lead to the same decision: its
outcome, class, totals, allocations in order and evidence hash; or neither list has one. -/
theorem evaluateAutomatedMatch_arrival (h : Hashing) (route : PaymentRoute)
    (policy : AutomatedMatchingPolicy) (now : ℤ) {events copies arrived : List TransferEvent}
    (hids : DistinctIDs events) (hcopies : ∀ e ∈ copies, e ∈ events)
    (harrived : arrived.Perm (events ++ copies)) :
    (evaluateAutomatedMatch h route arrived now policy).toOption =
      (evaluateAutomatedMatch h route events now policy).toOption := by
  have hm : ∀ e, e ∈ arrived.map bare ↔ e ∈ events.map bare := by
    intro e
    rw [(harrived.map bare).mem_iff,map_append,mem_append]
    refine or_iff_left_of_imp fun hco => ?_
    obtain ⟨c,hc,rfl⟩ := mem_map.mp hco
    exact mem_map_of_mem (hcopies c hc)
  have hd : DistinctIDs (events.map bare) := by
    intro a ha b hb
    obtain ⟨x,hx,rfl⟩ := mem_map.mp ha
    obtain ⟨y,hy,rfl⟩ := mem_map.mp hb
    exact hids x hx y hy
  have hba : ∀ e ∈ events.map bare, bare e = e := by
    intro e he
    obtain ⟨x,-,rfl⟩ := mem_map.mp he
    rfl
  have hca : (canonicalEvents h.sha256Hex (arrived.map bare)).toOption =
      (canonicalEvents h.sha256Hex (events.map bare)).toOption :=
    canonicalEvents_toOption hd hba hm
  rw [← evaluateAutomatedMatch_bare h arrived,← evaluateAutomatedMatch_bare h events]
  unfold evaluateAutomatedMatch
  simp [toOption_bind,hca]

def sampleAgain : TransferEvent :=
  sampleTransfer "p1" "tx1" "transfer:0" "TMerchant" "gasfree_permit_transfer" 70

theorem evaluateAutomatedMatch_arrival_sample :
    (evaluateAutomatedMatch sampleHashing sampleRoute (sampleAgain::sampleEvents.reverse) 60
        samplePolicy).toOption =
      (evaluateAutomatedMatch sampleHashing sampleRoute sampleEvents 60 samplePolicy).toOption := by
  have hids : DistinctIDs sampleEvents := by
    unfold DistinctIDs
    decide +kernel
  have hco : ∀ e ∈ [sampleAgain], e ∈ sampleEvents := by decide +kernel
  have har : (sampleAgain::sampleEvents.reverse).Perm (sampleEvents ++ [sampleAgain]) := by
    decide +kernel
  exact evaluateAutomatedMatch_arrival sampleHashing sampleRoute samplePolicy 60 hids hco har

end Ocrypt.ArrivalOrder
