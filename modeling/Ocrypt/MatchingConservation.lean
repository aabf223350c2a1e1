import Ocrypt.GreedyFill
import Ocrypt.MatchingTotals
import Ocrypt.SettlementLegs

/-! Conservation of money in settling decisions: the allocations of a decision add up to its
totals, and the ledger legs derived from it balance. -/
namespace Ocrypt.MatchingConservation
open Money Domain Fallible GreedyFill Ledger Matching MatchingTotals SettlementLegs List

lemma allocateCredit_credited (remaining : Amount) (as : List MatchAllocation) :
    (allocateCredit remaining as).map (·.credited.n) =
      fill remaining.n (as.map (·.effective.n)) := by
  induction as generalizing remaining with
  | nil => rfl
  | cons a as ih =>
    rw [allocateCredit]
    split_ifs with hz hle
    · rw [Amount.isZero_iff] at hz
      simp [ih,hz]
    · have hle' : a.effective.n ≤ remaining.n := by
        simpa using hle
      have hsu : remaining.sub a.effective =
          .ok ⟨remaining.n - a.effective.n,lt_of_le_of_lt (Nat.sub_le _ _) remaining.fits⟩ :=
        Amount.sub_eq_ok.mpr ⟨hle',rfl⟩
      simp [ih,hsu,Except.toOption,hle']
    · have hlt : remaining.n < a.effective.n := by
        simpa using hle
      simp [ih,min_eq_right hlt.le,Nat.sub_eq_zero_of_le hlt.le]

lemma allocateCredit_map {β : Type} (f : MatchAllocation → β)
    (hf : ∀ (a : MatchAllocation) (c : Amount), f { a with credited := c } = f a)
    (remaining : Amount) (as : List MatchAllocation) :
    (allocateCredit remaining as).map f = as.map f := by
  induction as generalizing remaining with
  | nil => rfl
  | cons a as ih =>
    rw [allocateCredit]
    split_ifs <;> simp [ih,hf]

variable {policy : AutomatedMatchingPolicy} {route : PaymentRoute} {events : List TransferEvent}
  {as : List MatchAllocation} {remaining : Amount} {h : Hashing} {t : Tally} {now : ℤ}
  {d : AutomatedMatchDecision}

lemma mem_allocateCredit {a : MatchAllocation}
    (h : a ∈ allocateCredit remaining as) : ∃ b ∈ as, ∃ c, a = { b with credited := c } := by
  induction as generalizing remaining with
  | nil => exact absurd h not_mem_nil
  | cons b as ih =>
    rw [allocateCredit] at h
    have hl : ∀ {r}, a ∈ allocateCredit r as →
        ∃ b' ∈ b::as, ∃ c, a = { b' with credited := c } := by
      intro r hr
      obtain ⟨b',hb',hc⟩ := ih hr
      exact ⟨b',mem_cons_of_mem b hb',hc⟩
    split_ifs at h <;> rcases mem_cons.mp h with rfl | h
    all_goals first | exact ⟨b,mem_cons_self,_,rfl⟩ | exact hl h

lemma allocateCredit_credited_le :
    ∀ a ∈ allocateCredit remaining as, a.credited.n ≤ a.effective.n := by
  induction as generalizing remaining with
  | nil => exact fun a ha => absurd ha not_mem_nil
  | cons b as ih =>
    rw [allocateCredit]
    split_ifs with hz hle <;> rw [forall_mem_cons]
    · exact ⟨Nat.zero_le _,ih⟩
    · exact ⟨le_rfl,ih⟩
    · have hlt : remaining.n < b.effective.n := by
        simpa using hle
      exact ⟨hlt.le,ih⟩

lemma judgeTotals_allocations : (judgeTotals h route now policy t).allocations = t.allocations ∨
      ∃ credit, (judgeTotals h route now policy t).allocations =
        allocateCredit credit t.allocations := by
  have hse : ∀ d : AutomatedMatchDecision,
      (settleDecision h t d).allocations = allocateCredit d.credited d.allocations := by
    intro d
    unfold settleDecision
    split_ifs <;> rfl
  unfold judgeTotals
  split
  · exact .inl rfl
  split
  · exact .inl rfl
  split
  · split
    · exact .inr ⟨_,hse _⟩
    · split <;> exact .inl rfl
  · exact .inr ⟨_,hse _⟩
  · split
    · exact .inr ⟨_,hse _⟩
    · exact .inr ⟨_,hse _⟩
    · exact .inl rfl

/-- What a settling decision takes over from the totals of the loop. -/
structure SettledFrom (route : PaymentRoute) (t : Tally) (d : AutomatedMatchDecision) : Prop where
  received : d.received = t.received
  treasuryReceived : d.treasuryReceived = t.treasuryReceived
  gasFreeFees : d.gasFreeFees = t.gasFreeFees
  expected : d.expected = route.expectedAmount
  allocations : d.allocations = allocateCredit d.credited t.allocations
  nonempty : t.allocations ≠ []
  credited : d.credited = t.received ∨
    d.credited = route.expectedAmount ∧ route.expectedAmount.n ≤ t.received.n

lemma settleDecision_settledFrom {credited : Amount} {cls : ExceptionClass}
    {reasons : List String} (hne : t.allocations ≠ []) (hc : credited = t.received ∨
      credited = route.expectedAmount ∧ route.expectedAmount.n ≤ t.received.n) :
    SettledFrom route t (settleDecision h t { openDecision route policy t with
      exceptionClass := cls, credited := credited, reasonCodes := reasons }) := by
  unfold settleDecision
  split_ifs <;> exact ⟨rfl,rfl,rfl,rfl,rfl,hne,hc⟩

/-- A settling decision carries the totals that were collected. -/
theorem judgeTotals_settledFrom (hs : (judgeTotals h route now policy t).outcome = .settle) :
    SettledFrom route t (judgeTotals h route now policy t) := by
  revert hs
  unfold judgeTotals
  split
  · exact fun hs => absurd hs (by simp [sealAutomatedDecision,openDecision])
  next he =>
  have hne : t.allocations ≠ [] := fun hn => he (by simp [hn])
  split
  · exact fun hs => absurd hs (by simp [sealAutomatedDecision,openDecision])
  split
  · split
    · exact fun _ => settleDecision_settledFrom hne (.inl rfl)
    split
    · exact fun hs => absurd hs (by simp [sealAutomatedDecision])
    · exact fun hs => absurd hs (by simp [sealAutomatedDecision,openDecision])
  · next heq =>
    rw [Amount.cmp_eq_eq] at heq
    exact fun _ => settleDecision_settledFrom hne (.inr ⟨rfl,heq ▸ le_rfl⟩)
  · next hgt =>
    rw [Amount.cmp_eq_gt] at hgt
    split
    · exact fun _ => settleDecision_settledFrom hne (.inl rfl)
    · exact fun _ => settleDecision_settledFrom hne (.inr ⟨rfl,hgt.le⟩)
    · exact fun hs => absurd hs (by simp [sealAutomatedDecision,openDecision])

section
variable (hd : evaluateAutomatedMatch h route events now policy = .ok d)
include hd

/-- An evaluation that does not end in review passed every check, completed both loops and judged
their totals. -/
theorem evaluate_cases (hs : d.outcome ≠ .review) :
    policy.validate = .ok () ∧ validMatchingRoute route = true ∧
      ∃ canonical t, canonicalEvents h.sha256Hex events = .ok canonical ∧
        traverse (collectEvent route policy canonical) canonical {} = .ok t ∧
        judgeTotals h route now policy t = d := by
  simp only [evaluateAutomatedMatch,do_ok] at hd
  obtain ⟨_,hv,hro,canonical,hca,hr⟩ := hd
  refine ⟨hv,hro,canonical,?_⟩
  split at hr
  · cases hr
  · rw [pure_eq_ok] at hr
    subst hr
    exact absurd rfl hs
  · next t ht => exact ⟨t,hca,ht,pure_eq_ok.mp hr⟩

end

lemma hasPrefix_append {s start : String} (h : hasPrefix s start = true) :
    s = start ++ trimPrefix s start := by
  have hp := isPrefixOf_iff_prefix.mp h
  obtain ⟨rest,hr⟩ := hp
  have htr : trimPrefix s start = String.ofList rest := by
    rw [trimPrefix,if_pos h,← hr,drop_left]
  rw [htr,← String.toList_inj,String.toList_append,String.toList_ofList,hr]

variable {sha256Hex : String → String} {a b e : TransferEvent}

section

variable {canonical : List TransferEvent} {fee : TransferEvent}

def DistinctIDs (events : List TransferEvent) : Prop :=
  ∀ a ∈ events, ∀ b ∈ events, a.identity ≠ b.identity → a.id ≠ b.id

lemma canonical_eq_of_identity (h : canonicalEvents sha256Hex events = .ok canonical)
    (ha : a ∈ canonical) (hb : b ∈ canonical)
    (hab : a.identity = b.identity) : a = b :=
  inj_on_of_nodup_map (canonicalEvents_spec h).1 ha hb (by rw [keyOf,keyOf,hab])

lemma canonical_eq_of_id (hids : DistinctIDs events)
    (h : canonicalEvents sha256Hex events = .ok canonical) (ha : a ∈ canonical) (hb : b ∈ canonical)
    (hab : a.id = b.id) :
    a = b := by
  obtain ⟨-,hsu,-⟩ := canonicalEvents_spec h
  by_contra hne
  refine hids a (hsu a ha) b (hsu b hb) ?_ hab
  exact fun hi => hne (canonical_eq_of_identity h ha hb hi)

lemma canonical_feesApart (hids : DistinctIDs events)
    (h : canonicalEvents sha256Hex events = .ok canonical) : FeesApart route canonical := by
  intro e he hc f hf hk hid
  have heq := canonical_eq_of_id hids h he hf hid
  simp only [counted,decide_eq_true_eq] at hc
  exact hc.1 (heq ▸ hk)

/-- Routes on one address that pair the same fee pair it with the same payment. -/
theorem identity_of_fee {route' : PaymentRoute} {policy' : AutomatedMatchingPolicy}
    {canonical' : List TransferEvent}
    (hch : route'.chainID = route.chainID) (has : route'.assetID = route.assetID)
    (had : route'.address = route.address)
    (hca : counted route a = true) (hcb : counted route' b = true)
    (hfa : pairedFee route policy canonical a = some fee)
    (hfb : pairedFee route' policy' canonical' b = some fee) : a.identity = b.identity := by
  obtain ⟨-,htx,hta⟩ := pairedFee_mem hfa
  obtain ⟨-,htxb,htb⟩ := pairedFee_mem hfb
  obtain ⟨-,hp,-⟩ := pairedFee_eq_some.mp hfa
  obtain ⟨-,hpa,-⟩ := pairedFee_eq_some.mp hfb
  simp only [counted,eligible,decide_eq_true_eq,hch,has,had] at hca hcb
  simp only [trustedFee,decide_eq_true_eq] at hta htb
  simp only [gasFreePayable,Bool.and_eq_true] at hp hpa
  have hi := hta.2.2.2.2.1.symm.trans htb.2.2.2.2.1
  rw [String.append_right_inj] at hi
  refine EventIdentity.ext ?_ ?_ ?_ ?_ ?_
  · exact hca.2.2.2.1.trans hcb.2.2.2.1.symm
  · exact htx.symm.trans htxb
  · rw [hasPrefix_append hp.2,hasPrefix_append hpa.2,hi]
  · exact hca.2.2.2.2.1.trans hcb.2.2.2.2.1.symm
  · exact hca.2.2.2.2.2.1.trans hcb.2.2.2.2.2.1.symm

lemma pairedFee_injective (h : canonicalEvents sha256Hex events = .ok canonical)
    (ha : a ∈ canonical) (hb : b ∈ canonical)
    (hca : counted route a = true) (hcb : counted route b = true)
    (hfa : pairedFee route policy canonical a = some fee)
    (hfb : pairedFee route policy canonical b = some fee) : a = b :=
  canonical_eq_of_identity h ha hb (identity_of_fee rfl rfl rfl hca hcb hfa hfb)

lemma mem_eventAllocations_eventID {i : String} :
    i ∈ (eventAllocations route policy canonical e).map (·.eventID) ↔
      i = e.id ∨ ∃ fee, pairedFee route policy canonical e = some fee ∧ i = fee.id := by
  unfold eventAllocations
  cases pairedFee route policy canonical e <;> simp [paymentAllocation,feeAllocation]

lemma nodup_allocation_eventIDs (hids : DistinctIDs events)
    (h : canonicalEvents sha256Hex events = .ok canonical) :
    (((canonical.filter (counted route)).flatMap (eventAllocations route policy canonical)).map
      (·.eventID)).Nodup := by
  have hap : FeesApart route canonical := canonical_feesApart hids h
  have hf : ∀ {e fee : TransferEvent}, pairedFee route policy canonical e = some fee →
      fee ∈ canonical ∧ fee.kind = "gasfree_fee" := fun hp =>
    ⟨(pairedFee_mem hp).1,trustedFee_kind (pairedFee_mem hp).2.2⟩
  rw [map_flatMap,nodup_flatMap]
  constructor
  · intro e he
    obtain ⟨hm,hc⟩ := mem_filter.mp he
    unfold eventAllocations
    cases hp : pairedFee route policy canonical e with
    | none => simp
    | some fee =>
      have hne := hap e hm hc fee (hf hp).1 (hf hp).2
      simp [paymentAllocation,feeAllocation,hne]
  · have hn : (canonical.filter (counted route)).Nodup :=
      (canonicalEvents_spec h).1.of_map.filter _
    refine hn.pairwise_of_forall_ne fun a ha b hb hne => ?_
    obtain ⟨hma,hca⟩ := mem_filter.mp ha
    obtain ⟨hmb,hcb⟩ := mem_filter.mp hb
    intro i hia hib
    rw [mem_eventAllocations_eventID] at hia hib
    rcases hia with rfl | ⟨fee,hpa,rfl⟩ <;> rcases hib with hib | ⟨fee',hpb,hib⟩
    · exact hne (canonical_eq_of_id hids h hma hmb hib)
    · exact hap a hma hca fee' (hf hpb).1 (hf hpb).2 hib
    · exact hap b hmb hcb fee (hf hpa).1 (hf hpa).2 hib.symm
    · have heq := canonical_eq_of_id hids h (hf hpa).1 (hf hpb).1 hib
      exact hne (pairedFee_injective h hma hmb hca hcb hpa (heq ▸ hpb))

end

section

variable {canonical : List TransferEvent}

variable (p : MatchAllocation → Bool) (f : MatchAllocation → ℕ)

/-- The total of `f` over the allocations selected by `p`. -/
def allocationTotal (as : List MatchAllocation) : ℕ :=
  ((as.filter p).map f).sum

lemma allocationTotal_flatMap (g : TransferEvent → List MatchAllocation) (es : List TransferEvent) :
    allocationTotal p f (es.flatMap g) = (es.map fun e => allocationTotal p f (g e)).sum := by
  induction es with
  | nil => rfl
  | cons e es ih =>
    rw [map_cons,sum_cons,← ih]
    simp [allocationTotal]

lemma allocationTotal_payment (e : TransferEvent) :
    allocationTotal (·.role = .payment) (·.received.n) (eventAllocations route policy canonical e) =
      e.amount.n := by
  unfold eventAllocations
  cases pairedFee route policy canonical e <;>
    simp [allocationTotal,paymentAllocation,feeAllocation]

lemma allocationTotal_fee (e : TransferEvent) :
    allocationTotal (·.role = .gasfreeFee) (·.received.n)
      (eventAllocations route policy canonical e) = feeAmount route policy canonical e := by
  unfold eventAllocations feeAmount
  cases pairedFee route policy canonical e <;>
    simp [allocationTotal,paymentAllocation,feeAllocation]

lemma allocationTotal_effective (e : TransferEvent) :
    allocationTotal (fun _ => true) (·.effective.n) (eventAllocations route policy canonical e) =
      e.amount.n := by
  unfold eventAllocations
  cases pairedFee route policy canonical e <;>
    simp [allocationTotal,paymentAllocation,feeAllocation]

lemma eventAllocations_ne_nil (e : TransferEvent) :
    eventAllocations route policy canonical e ≠ [] := by
  unfold eventAllocations
  cases pairedFee route policy canonical e <;> simp

lemma effective_eq_zero_of_fee {a : MatchAllocation}
    (h : a ∈ eventAllocations route policy canonical e) (hr : a.role = .gasfreeFee) :
    a.effective = .zero := by
  unfold eventAllocations at h
  cases hp : pairedFee route policy canonical e with
  | none =>
    rw [hp,mem_singleton] at h
    subst h
    cases hr
  | some fee =>
    simp only [hp,mem_cons,not_mem_nil,or_false] at h
    rcases h with rfl | rfl
    · cases hr
    · rfl

/-- Distributing the credit changes no total but that of the credit. -/
theorem allocationTotal_allocateCredit
    (hp : ∀ (a : MatchAllocation) (c : Amount), p { a with credited := c } = p a)
    (hf : ∀ (a : MatchAllocation) (c : Amount), f { a with credited := c } = f a)
    (remaining : Amount) (as : List MatchAllocation) :
    allocationTotal p f (allocateCredit remaining as) = allocationTotal p f as := by
  have hsu : ∀ bs : List MatchAllocation,
      allocationTotal p f bs = (bs.map fun a => if p a then f a else 0).sum := by
    intro bs
    induction bs with
    | nil => rfl
    | cons b bs ih =>
      cases hb : p b <;> simp_all [allocationTotal]
  rw [hsu,hsu,allocateCredit_map]
  intro a c
  rw [hp,hf]

end

/-- The totals of a decision are the sums over its allocations. -/
structure Conserved (d : AutomatedMatchDecision) : Prop where
  treasury : d.treasuryReceived = d.received
  payments : d.received.n = allocationTotal (·.role = .payment) (·.received.n) d.allocations
  credits : (d.allocations.map (·.credited.n)).sum = d.credited.n
  credited_le : d.credited.n ≤ d.received.n
  allocation_le : ∀ a ∈ d.allocations, a.credited.n ≤ a.effective.n
  fees_zero : ∀ a ∈ d.allocations, a.role = .gasfreeFee → a.credited = .zero ∧ a.effective = .zero
  fees : d.gasFreeFees.n = allocationTotal (·.role = .gasfreeFee) (·.received.n) d.allocations
  distinct : (d.allocations.map (·.eventID)).Nodup

/-- Nothing is lost or added between the transfers and a settling decision. -/
theorem SettledFrom.conserved {canonical : List TransferEvent} (hids : DistinctIDs events)
    (hca : canonicalEvents sha256Hex events = .ok canonical)
    (had : Adds route policy canonical {} t (canonical.filter (counted route)))
    (hf : SettledFrom route t d) : Conserved d := by
  set es := canonical.filter (counted route)
  have hr : t.received.n = (es.map (·.amount.n)).sum := by
    simpa using had.received
  have hal := had.allocations_eq
  have he : (t.allocations.map (·.effective.n)).sum = t.received.n := by
    have := allocationTotal_flatMap (fun _ => true) (·.effective.n)
      (eventAllocations route policy canonical) es
    simp only [allocationTotal_effective,← hal,← hr] at this
    simpa [allocationTotal] using this
  have hle : d.credited.n ≤ d.received.n := by
    rw [hf.received]
    rcases hf.credited with hc | ⟨hc,hle⟩ <;> rw [hc]
    exact hle
  constructor
  case treasury =>
    rw [hf.treasuryReceived,hf.received]
    refine Amount.ext ?_
    rw [hr]
    simpa using had.treasuryReceived
  case payments =>
    rw [hf.allocations,allocationTotal_allocateCredit _ _ (fun _ _ => rfl) (fun _ _ => rfl),
      hal,allocationTotal_flatMap,hf.received,hr]
    simp [allocationTotal_payment]
  case credits =>
    rw [hf.allocations,allocateCredit_credited,sum_fill,he,← hf.received]
    exact min_eq_left hle
  case credited_le => exact hle
  case allocation_le =>
    rw [hf.allocations]
    exact allocateCredit_credited_le
  case fees_zero =>
    rw [hf.allocations]
    intro a ha hro
    have hcl := allocateCredit_credited_le a ha
    obtain ⟨b,hb,c,rfl⟩ := mem_allocateCredit ha
    rw [hal,mem_flatMap] at hb
    obtain ⟨e',-,hb⟩ := hb
    have hz : b.effective = .zero := effective_eq_zero_of_fee hb hro
    refine ⟨Amount.ext ?_,hz⟩
    simpa [hz] using hcl
  case fees =>
    rw [hf.allocations,allocationTotal_allocateCredit _ _ (fun _ _ => rfl) (fun _ _ => rfl),
      hal,allocationTotal_flatMap,hf.gasFreeFees]
    simp only [allocationTotal_fee]
    simpa using had.gasFreeFees
  case distinct =>
    rw [hf.allocations,allocateCredit_map _ (fun _ _ => rfl),hal]
    exact nodup_allocation_eventIDs hids hca

section
variable (hids : DistinctIDs events) (hd : evaluateAutomatedMatch h route events now policy = .ok d)
  (hs : d.outcome = .settle)
include hids hd hs

/-- What a settling evaluation did: it added up the counted events of the canonical list and
judged the totals. -/
theorem evaluate_settle_adds : ∃ canonical t, canonicalEvents h.sha256Hex events = .ok canonical ∧
      Adds route policy canonical {} t (canonical.filter (counted route)) ∧
      SettledFrom route t d := by
  obtain ⟨-,-,canonical,t,hca,hl,rfl⟩ := evaluate_cases hd (by simp [hs])
  obtain ⟨-,-,had⟩ := (traverse_collectEvent_eq_ok (canonical_feesApart hids hca)
    (fun _ he => he) (fun _ hi => absurd hi not_mem_nil)).mp hl
  exact ⟨canonical,t,hca,had,judgeTotals_settledFrom hs⟩

lemma evaluate_settle_exists_event :
    ∃ e ∈ events, e.identity.validate = .ok () ∧ e.identity.assetID = route.assetID ∧
      e.amount.n ≤ d.received.n := by
  obtain ⟨canonical,t,hca,had,hf⟩ := evaluate_settle_adds hids hd hs
  obtain ⟨-,hsu,hcv⟩ := canonicalEvents_spec hca
  obtain ⟨e,he⟩ : ∃ e, e ∈ canonical.filter (counted route) := by
    refine exists_mem_of_ne_nil _ fun hn => hf.nonempty ?_
    rw [had.allocations,hn]
    rfl
  obtain ⟨hm,hco⟩ := mem_filter.mp he
  simp only [counted,eligible,decide_eq_true_eq] at hco
  refine ⟨e,hsu e hm,(hcv e (hsu e hm)).1,hco.2.2.2.2.1,?_⟩
  rw [hf.received,had.received]
  exact le_add_left (single_le_sum (fun _ _ => Nat.zero_le _) _ (mem_map_of_mem he))

end

/-- Money is conserved by every settling decision: its totals are the sums over its
allocations, no transfer is allocated twice, the credit never exceeds what was received, and
the ledger legs derived from it balance. -/
theorem evaluateAutomatedMatch_settle_conserves {h : Hashing} {route : PaymentRoute}
    {events : List TransferEvent} {now : ℤ} {policy : AutomatedMatchingPolicy}
    {d : AutomatedMatchDecision} (accounts : SettlementAccounts)
    (hids : ∀ a ∈ events, ∀ b ∈ events, a.identity ≠ b.identity → a.id ≠ b.id)
    (hpos : ∀ e ∈ events, 0 < e.amount.n)
    (hd : evaluateAutomatedMatch h route events now policy = .ok d) (hs : d.outcome = .settle) :
    d.treasuryReceived = d.received ∧
      d.received.n = ((d.allocations.filter (·.role = .payment)).map (·.received.n)).sum ∧
      (d.allocations.map (·.credited.n)).sum = d.credited.n ∧ d.credited.n ≤ d.received.n ∧
      (∀ a ∈ d.allocations, a.credited.n ≤ a.effective.n) ∧
      (∀ a ∈ d.allocations, a.role = .gasfreeFee → a.credited = .zero ∧ a.effective = .zero) ∧
      d.gasFreeFees.n = ((d.allocations.filter (·.role = .gasfreeFee)).map (·.received.n)).sum ∧
      (d.allocations.map (·.eventID)).Nodup ∧
      ∃ legs, automatedSettlementLegs accounts route.assetID d = .ok legs ∧
        validateBalanced legs = .ok () := by
  obtain ⟨canonical,t,hca,had,hf⟩ := evaluate_settle_adds hids hd hs
  have hco := hf.conserved hids hca had
  obtain ⟨e,he,hv,has,ham⟩ := evaluate_settle_exists_event hids hd hs
  have hasset_ne : route.assetID ≠ "" :=
    has ▸ (EventIdentity.validate_eq_ok.mp hv).2.2.2.1
  have hexpected_ne : route.expectedAmount.n ≠ 0 := by
    obtain ⟨-,hr,-⟩ := evaluate_cases hd (by simp [hs])
    simp only [validMatchingRoute,decide_eq_true_eq] at hr
    simpa using hr.2.2.1
  have hcredited_ne : d.credited.n ≠ 0 := by
    have hre := lt_of_lt_of_le (hpos e he) ham
    rcases hf.credited with hc | ⟨hc,-⟩ <;> rw [hc]
    · rw [← hf.received]
      omega
    · exact hexpected_ne
  exact ⟨hco.treasury,hco.payments,hco.credits,hco.credited_le,hco.allocation_le,
    hco.fees_zero,hco.fees,hco.distinct,
    automatedSettlementLegs_balanced accounts hasset_ne hco.treasury hco.credited_le hcredited_ne⟩

def samplePolicy : AutomatedMatchingPolicy where
  id := "policy"
  version := 1
  accumulatePartials := true
  underpaymentToleranceBPS := 100
  overpaymentMode := .creditExpected
  acceptLateWithinGrace := true
  requireSameSender := true
  gasFreeEnabled := true
  gasFreeFeeCollectors := ["TCollector"]

def sampleEvents : List TransferEvent :=
  [sampleTransfer "p1" "tx1" "transfer:0" "TMerchant" "gasfree_permit_transfer" 70,
    sampleTransfer "f1" "tx1" "gasfree-fee:0" "TCollector" "gasfree_fee" 1,
    sampleTransfer "p2" "tx2" "transfer:0" "TMerchant" "transfer" 40,
    sampleTransfer "p2" "tx2" "transfer:0" "TMerchant" "transfer" 40]

def sampleHashing : Hashing := ⟨id,fun _ => ""⟩

theorem evaluateAutomatedMatch_settle_conserves_sample :
    ∃ d, evaluateAutomatedMatch sampleHashing sampleRoute sampleEvents 60 samplePolicy = .ok d ∧
      d.outcome = .settle ∧ d.received.n = 110 ∧ d.credited.n = 100 ∧
      (d.allocations.map (·.credited.n)).sum = d.credited.n ∧
      ∃ legs, automatedSettlementLegs sampleAccounts sampleRoute.assetID d = .ok legs ∧
        validateBalanced legs = .ok () := by
  have he : (evaluateAutomatedMatch sampleHashing sampleRoute sampleEvents 60
      samplePolicy).toOption.map (fun d => (d.outcome,d.received.n,d.credited.n)) =
      some (.settle,110,100) := by
    decide +kernel
  cases hd : evaluateAutomatedMatch sampleHashing sampleRoute sampleEvents 60 samplePolicy with
  | error f => simp [hd,Except.toOption] at he
  | ok d =>
    simp only [hd,Except.toOption,Option.map_some,Option.some.injEq,Prod.mk.injEq] at he
    have hal := evaluateAutomatedMatch_settle_conserves sampleAccounts (by decide +kernel)
      (by decide +kernel) hd he.1
    exact ⟨d,rfl,he.1,he.2.1,he.2.2,hal.2.2.1,hal.2.2.2.2.2.2.2.2⟩

end Ocrypt.MatchingConservation
