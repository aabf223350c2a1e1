import Ocrypt.MatchingEffects

/-! Payments to an address that several routes share: every payment is owned by one route, and
the fees of a transaction are shown to every route that owns a payment of it. Still no transfer,
fees included, is allocated to two routes. -/
namespace Ocrypt.OwnedPayments
open Domain Matching MatchingTotals MatchingConservation MatchingStore List

section

variable {events : List TransferEvent} {owner : TransferEvent → String} {routeID : String}
  {e : TransferEvent}

lemma mem_view (h : e ∈ (filterAutomatedMatchingEvents events owner routeID).1) :
    e ∈ events ∧ (isFee e = false → owner e = "" ∨ owner e = routeID) := by
  rcases mem_append.mp h with h | h
  · obtain ⟨he,ho⟩ := mem_filter.mp h
    exact ⟨he,fun _ => (of_decide_eq_true ho).2⟩
  · obtain ⟨he,hf⟩ := mem_filter.mp h
    have hk := (of_decide_eq_true hf).1
    exact ⟨he,fun hn => by simp [hn] at hk⟩

lemma distinct_view (hi : (events.map (·.id)).Nodup) :
    DistinctIDs (filterAutomatedMatchingEvents events owner routeID).1 := by
  intro a ha b hb hne hid
  have heq := inj_on_of_nodup_map hi (mem_view ha).1 (mem_view hb).1 hid
  exact hne (congrArg TransferEvent.identity heq)

end

lemma allocated_id {h : Hashing} {route : PaymentRoute} {events : List TransferEvent} {now : ℤ}
    {policy : AutomatedMatchingPolicy} {d : AutomatedMatchDecision} (hid : DistinctIDs events)
    (hd : evaluateAutomatedMatch h route events now policy = .ok d) (hs : d.outcome = .settle)
    {i : String} (hi : i ∈ d.allocations.map (·.eventID)) :
    ∃ canonical, (∀ e ∈ canonical, e ∈ events) ∧ ∃ e ∈ canonical, counted route e = true ∧
      (i = e.id ∨ ∃ fee, pairedFee route policy canonical e = some fee ∧ i = fee.id) := by
  obtain ⟨canonical,t,hca,had,hf⟩ := evaluate_settle_adds hid hd hs
  rw [hf.allocations,allocateCredit_map _ fun _ _ => rfl,had.allocations_eq,map_flatMap,
    mem_flatMap] at hi
  obtain ⟨e,he,hi⟩ := hi
  obtain ⟨hm,hco⟩ := mem_filter.mp he
  exact ⟨canonical,(canonicalEvents_spec hca).2.1,e,hm,hco, mem_eventAllocations_eventID.mp hi⟩

/-- Routes on one address that share the payments by an ownership map settle with disjoint
transfers, whatever their policies and clocks are; `""` is how the map says that nobody owns a
payment. -/
theorem settlements_disjoint (h : Hashing) (routes : List PaymentRoute)
    (events : List TransferEvent) (owner : TransferEvent → String)
    (policy : PaymentRoute → AutomatedMatchingPolicy) (now : PaymentRoute → ℤ)
    (hshared : ∀ r ∈ routes, ∀ r' ∈ routes, r'.chainID = r.chainID ∧ r'.assetID = r.assetID ∧
      r'.address = r.address) (hnamed : ∀ r ∈ routes, r.id ≠ "")
    (hidentities : (events.map (·.identity)).Nodup) (hids : (events.map (·.id)).Nodup)
    (howned : ∀ e ∈ events, isFee e = false → ∃ r ∈ routes, owner e = r.id)
    {r r' : PaymentRoute} (hr : r ∈ routes) (hr' : r' ∈ routes) (hne : r.id ≠ r'.id)
    {d d' : AutomatedMatchDecision}
    (hd : evaluateAutomatedMatch h r (filterAutomatedMatchingEvents events owner r.id).1 (now r)
      (policy r) = .ok d) (hs : d.outcome = .settle)
    (hd' : evaluateAutomatedMatch h r' (filterAutomatedMatchingEvents events owner r'.id).1 (now r')
      (policy r') = .ok d') (hs' : d'.outcome = .settle) :
    (d.allocations.map (·.eventID)).Disjoint (d'.allocations.map (·.eventID)) := by
  obtain ⟨hch,has,had⟩ := hshared r hr r' hr'
  have hu : ∀ e ∈ events, isFee e = false → owner e ≠ "" := by
    intro e he hn
    obtain ⟨x,hx,ho⟩ := howned e he hn
    rw [ho]
    exact hnamed x hx
  have hpy : ∀ {x : PaymentRoute} {e : TransferEvent}, counted x e = true →
      isFee e = false := by
    intro x e hco
    simp only [counted,decide_eq_true_eq] at hco
    simp [isFee,hco.1]
  -- A counted payment in the view of a route is owned by it.
  have ho : ∀ {x : PaymentRoute} {e : TransferEvent},
      e ∈ (filterAutomatedMatchingEvents events owner x.id).1 → counted x e = true →
      owner e = x.id := by
    intro x e he hco
    obtain ⟨hm,how⟩ := mem_view he
    exact (how (hpy hco)).resolve_left (hu e hm (hpy hco))
  intro i hi hi'
  obtain ⟨canonical,hsu,e,he,hco,hca⟩ := allocated_id (distinct_view hids) hd hs hi
  obtain ⟨canonical',hsu',e',he',hco',hca'⟩ :=
    allocated_id (distinct_view hids) hd' hs' hi'
  have hm := (mem_view (hsu e he)).1
  have hm' := (mem_view (hsu' e' he')).1
  have hsame : ∀ {a b : TransferEvent}, a ∈ events → b ∈ events → a.id = b.id → a = b :=
    fun ha hb => inj_on_of_nodup_map hids ha hb
  have hdi : e ≠ e' := by
    intro heq
    have ho' := ho (hsu' e' he') hco'
    rw [← heq,ho (hsu e he) hco] at ho'
    exact hne ho'
  -- A fee is an event of its own kind, so it is never the payment of another route.
  have hfe : ∀ {x y : PaymentRoute} {p : AutomatedMatchingPolicy} {c a b fee}
      (hp : pairedFee x p c a = some fee) (hcb : counted y b = true), fee ≠ b := by
    intro x y p c a b fee hp hcb heq
    have hn := hpy hcb
    simp [isFee,← heq,trustedFee_kind (pairedFee_mem hp).2.2] at hn
  rcases hca with rfl | ⟨fee,hpa,rfl⟩ <;> rcases hca' with hid | ⟨fee',hpa',hid⟩
  · exact hdi (hsame hm hm' hid)
  · have hfe' := (mem_view (hsu' fee' (pairedFee_mem hpa').1)).1
    exact hfe hpa' hco (hsame hm hfe' hid).symm
  · have hf := (mem_view (hsu fee (pairedFee_mem hpa).1)).1
    exact hfe hpa hco' (hsame hf hm' hid)
  · have hf := (mem_view (hsu fee (pairedFee_mem hpa).1)).1
    have hf' := (mem_view (hsu' fee' (pairedFee_mem hpa').1)).1
    have heq := hsame hf hf' hid
    rw [← heq] at hpa'
    have hie := identity_of_fee hch has had hco hco' hpa hpa'
    exact hdi (inj_on_of_nodup_map hidentities hm hm' hie)

def sampleOwner (e : TransferEvent) : String :=
  if e.id = "p1" then "first" else if e.id = "p2" then "second" else ""

def sampleTransaction : List TransferEvent :=
  [sampleTransfer "p1" "tx" "transfer:0" "TMerchant" "gasfree_permit_transfer" 100,
    sampleTransfer "p2" "tx" "transfer:1" "TMerchant" "gasfree_permit_transfer" 100,
    sampleTransfer "f1" "tx" "gasfree-fee:0" "TCollector" "gasfree_fee" 1,
    sampleTransfer "f2" "tx" "gasfree-fee:1" "TCollector" "gasfree_fee" 1]

def sampleEvaluation (routeID : String) : Except Failure AutomatedMatchDecision :=
  evaluateAutomatedMatch sampleHashing { sampleRoute with id := routeID }
    (filterAutomatedMatchingEvents sampleTransaction sampleOwner routeID).1 60 samplePolicy

lemma sampleEvaluation_settles (routeID : String) (h : routeID = "first" ∨ routeID = "second") :
    ∃ d, sampleEvaluation routeID = .ok d ∧ d.outcome = .settle := by
  rcases h with rfl | rfl <;> decide +kernel

theorem settlements_disjoint_sample :
    ∃ d d', sampleEvaluation "first" = .ok d ∧ d.outcome = .settle ∧
      sampleEvaluation "second" = .ok d' ∧ d'.outcome = .settle ∧
      (d.allocations.map (·.eventID)).Disjoint (d'.allocations.map (·.eventID)) := by
  obtain ⟨d,hd,hs⟩ := sampleEvaluation_settles "first" (.inl rfl)
  obtain ⟨d',hd',hs'⟩ := sampleEvaluation_settles "second" (.inr rfl)
  refine ⟨d,d',hd,hs,hd',hs',?_⟩
  exact settlements_disjoint sampleHashing
    [{ sampleRoute with id := "first" },{ sampleRoute with id := "second" }]
    sampleTransaction sampleOwner (fun _ => samplePolicy) (fun _ => 60)
    (by simp) (by simp) (by decide) (by decide) (by decide) mem_cons_self
    (mem_cons_of_mem _ mem_cons_self) (by decide) hd hs hd' hs'

end Ocrypt.OwnedPayments
