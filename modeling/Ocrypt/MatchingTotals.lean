import Mathlib.Algebra.BigOperators.Group.List.Basic
import Ocrypt.Matching
import Ocrypt.Table

/-! What the two loops of the reducer compute: the de-duplicated list of transfers, and the
totals and allocations of the transfers that count for the route. -/
namespace Ocrypt.MatchingTotals
open Money Domain Fallible Table Matching List

lemma sameCanonicalTransfer_iff {a b : TransferEvent} : sameCanonicalTransfer a b = true ↔
      a.kind = b.kind ∧ a.fromAddress = b.fromAddress ∧ a.amount = b.amount ∧
        a.assetDecimals = b.assetDecimals ∧ a.blockHeight = b.blockHeight ∧
        a.blockHash = b.blockHash ∧ a.onChainTime = b.onChainTime ∧
        a.confirmations = b.confirmations ∧ a.status = b.status ∧
        a.parserVersion = b.parserVersion ∧ a.evidenceHash = b.evidenceHash := by
  simp [sameCanonicalTransfer]

variable {e : TransferEvent} {events : List TransferEvent} {ids' : List (String × TransferEvent)}

section

variable {sha256Hex : String → String} {ids : List (String × TransferEvent)}
  {xs : List TransferEvent}

def keyOf (sha256Hex : String → String) (e : TransferEvent) : String :=
  sha256Hex e.identity.payload

lemma admitIdentity_eq_ok {ids : List (String × TransferEvent)} :
    admitIdentity sha256Hex ids e = .ok ids' ↔ e.identity.validate = .ok () ∧
        ((∃ c, ids.lookup (keyOf sha256Hex e) = some c ∧ sameCanonicalTransfer c e = true ∧
            ids = ids') ∨
          ids.lookup (keyOf sha256Hex e) = none ∧ ids ++ [(keyOf sha256Hex e,e)] = ids') := by
  unfold admitIdentity
  cases hke : e.identity.key sha256Hex with
  | error msg =>
    have hi : e.identity.validate ≠ .ok () := by
      intro hv
      have hok : e.identity.key sha256Hex = .ok (sha256Hex e.identity.payload) :=
        EventIdentity.key_eq_ok.mpr ⟨hv,rfl⟩
      simp [hok] at hke
    simp [hi]
  | ok k =>
    obtain ⟨hva,rfl⟩ := EventIdentity.key_eq_ok.mp hke
    simp only [hva,keyOf]
    cases ids.lookup (sha256Hex e.identity.payload) with
    | none => simp
    | some c => by_cases hs : sameCanonicalTransfer c e = true <;> simp [hs]

/-- An identity table: its keys are distinct and each is the key of its event. -/
structure IdentityTable (sha256Hex : String → String) (ids : List (String × TransferEvent)) :
    Prop where
  nodup : (ids.map Prod.fst).Nodup
  keyed : ∀ p ∈ ids, p.1 = keyOf sha256Hex p.2

lemma IdentityTable.nil : IdentityTable sha256Hex [] :=
  ⟨nodup_nil,fun _ hp => absurd hp not_mem_nil⟩

lemma IdentityTable.append
    (h : IdentityTable sha256Hex ids) (hn : ids.lookup (keyOf sha256Hex e) = none) :
    IdentityTable sha256Hex (ids ++ [(keyOf sha256Hex e,e)]) := by
  rw [lookup_eq_none_iff] at hn
  constructor
  · exact nodup_map_append h.nodup fun p hp => (bne_iff_ne.mp (hn p hp)).symm
  · exact forall_snoc h.keyed rfl

lemma lookup_mem {k : String} {c : TransferEvent} (h : ids.lookup k = some c) : (k,c) ∈ ids := by
  obtain ⟨l,r,rfl,-⟩ := lookup_eq_some_iff.mp h
  simp

/-- Every event ends up in the table under its key, with the facts that it was read with. -/
theorem traverse_admitIdentity_spec
    {ids : List (String × TransferEvent)} (hta : IdentityTable sha256Hex ids)
    (h : traverse (admitIdentity sha256Hex) xs ids = .ok ids') :
    IdentityTable sha256Hex ids' ∧ (∀ p ∈ ids, p ∈ ids') ∧ (∀ p ∈ ids', p ∈ ids ∨ p.2 ∈ xs) ∧
      ∀ e ∈ xs, e.identity.validate = .ok () ∧
        ∃ c, (keyOf sha256Hex e,c) ∈ ids' ∧ sameCanonicalTransfer c e = true := by
  induction xs generalizing ids with
  | nil =>
    cases h
    exact ⟨hta,fun _ hp => hp,fun _ hp => .inl hp,fun _ he => absurd he not_mem_nil⟩
  | cons x xs ih =>
    obtain ⟨mid,hm,hr⟩ := traverse_cons_eq_ok.mp h
    obtain ⟨hv,hca⟩ := admitIdentity_eq_ok.mp hm
    rcases hca with ⟨c,hl,hsame,rfl⟩ | ⟨hn,rfl⟩
    · obtain ⟨ht,hk,hf,hco⟩ := ih hta hr
      refine ⟨ht,hk,fun p hp => (hf p hp).imp_right (mem_cons_of_mem x),?_⟩
      exact forall_mem_cons.mpr ⟨⟨hv,c,hk _ (lookup_mem hl),hsame⟩,hco⟩
    · obtain ⟨ht,hk,hf,hco⟩ := ih (hta.append hn) hr
      refine ⟨ht,fun p hp => hk p (mem_append_left _ hp),fun p hp => ?_,?_⟩
      · rcases hf p hp with hp | hp
        · rcases mem_snoc.mp hp with hp | rfl
          · exact .inl hp
          · exact .inr mem_cons_self
        · exact .inr (mem_cons_of_mem x hp)
      · refine forall_mem_cons.mpr ⟨⟨hv,x,hk _ (by simp),?_⟩,hco⟩
        simp [sameCanonicalTransfer_iff]

theorem exists_traverse_admitIdentity (hv : ∀ e ∈ xs, e.identity.validate = .ok ())
    (hi : ∀ p ∈ ids, ∀ e ∈ xs, p.1 = keyOf sha256Hex e → sameCanonicalTransfer p.2 e = true)
    (hxs : ∀ a ∈ xs, ∀ b ∈ xs, keyOf sha256Hex a = keyOf sha256Hex b →
      sameCanonicalTransfer a b = true) :
    ∃ ids', traverse (admitIdentity sha256Hex) xs ids = .ok ids' := by
  induction xs generalizing ids with
  | nil => exact ⟨ids,rfl⟩
  | cons x xs ih =>
    have hr : ∀ ids : List (String × TransferEvent),
        (∀ p ∈ ids, ∀ e ∈ xs, p.1 = keyOf sha256Hex e → sameCanonicalTransfer p.2 e = true) →
        ∃ ids', traverse (admitIdentity sha256Hex) xs ids = .ok ids' :=
      fun _ hi => ih (fun e he => hv e (mem_cons_of_mem x he)) hi
        (fun a ha b hb => hxs a (mem_cons_of_mem x ha) b (mem_cons_of_mem x hb))
    cases hl : ids.lookup (keyOf sha256Hex x) with
    | some c =>
      have hsame := hi _ (lookup_mem hl) x mem_cons_self rfl
      obtain ⟨ids',hi'⟩ := hr ids fun p hp e he => hi p hp e (mem_cons_of_mem x he)
      exact ⟨ids',traverse_cons_eq_ok.mpr ⟨ids,admitIdentity_eq_ok.mpr
        ⟨hv x mem_cons_self,.inl ⟨c,hl,hsame,rfl⟩⟩,hi'⟩⟩
    | none =>
      obtain ⟨ids',hi'⟩ := hr (ids ++ [(keyOf sha256Hex x,x)]) <|
        forall_snoc (fun p hp e he => hi p hp e (mem_cons_of_mem x he))
          fun e he => hxs x mem_cons_self e (mem_cons_of_mem x he)
      exact ⟨ids',traverse_cons_eq_ok.mpr ⟨_,admitIdentity_eq_ok.mpr
        ⟨hv x mem_cons_self,.inr ⟨hl,rfl⟩⟩,hi'⟩⟩

lemma mem_sortEvents : e ∈ sortEvents events ↔ e ∈ events :=
  (perm_insertionSort eventLE events).mem_iff

/-- What the canonical list is: distinct keys, taken from the input, and one representative
with the same key and the same facts for every input event. -/
theorem canonicalEvents_spec {canonical : List TransferEvent}
    (h : canonicalEvents sha256Hex events = .ok canonical) :
    (canonical.map (keyOf sha256Hex)).Nodup ∧ (∀ e ∈ canonical, e ∈ events) ∧
      ∀ e ∈ events, e.identity.validate = .ok () ∧
        ∃ c ∈ canonical, keyOf sha256Hex c = keyOf sha256Hex e ∧
          sameCanonicalTransfer c e = true := by
  obtain ⟨ids,hr,rfl⟩ := map_eq_ok.mp h
  obtain ⟨hta,-,hfr,hco⟩ := traverse_admitIdentity_spec .nil hr
  refine ⟨?_,?_,?_⟩
  · have hk : (ids.map Prod.snd).map (keyOf sha256Hex) = ids.map Prod.fst := by
      rw [map_map]
      exact map_congr_left fun p hp => (hta.keyed p hp).symm
    rw [hk]
    exact hta.nodup
  · intro e he
    obtain ⟨p,hp,rfl⟩ := mem_map.mp he
    rcases hfr p hp with hn | hm
    · exact absurd hn not_mem_nil
    · exact mem_sortEvents.mp hm
  · intro e he
    obtain ⟨hv,c,hc,hsame⟩ := hco e (mem_sortEvents.mpr he)
    exact ⟨hv,c,mem_map_of_mem hc,(hta.keyed _ hc).symm,hsame⟩

lemma exists_canonicalEvents (hv : ∀ e ∈ events, e.identity.validate = .ok ())
    (hag : ∀ a ∈ events, ∀ b ∈ events, keyOf sha256Hex a = keyOf sha256Hex b →
      sameCanonicalTransfer a b = true) :
    ∃ canonical, canonicalEvents sha256Hex events = .ok canonical := by
  obtain ⟨ids,hi⟩ := exists_traverse_admitIdentity
      (fun e he => hv e (mem_sortEvents.mp he)) (fun p hp => absurd hp not_mem_nil)
      (fun a ha b hb => hag a (mem_sortEvents.mp ha) b (mem_sortEvents.mp hb))
  exact ⟨ids.map Prod.snd,by rw [canonicalEvents,hi]; rfl⟩

end

variable {es : List TransferEvent} {s t t' : Tally} {fee : TransferEvent}

section

variable {route : PaymentRoute} {policy : AutomatedMatchingPolicy} {canonical : List TransferEvent}
  {reason : String}

def counted (route : PaymentRoute) (e : TransferEvent) : Bool :=
  e.kind ≠ "gasfree_fee" ∧ eligible route e

def pairedFee (route : PaymentRoute) (policy : AutomatedMatchingPolicy)
    (canonical : List TransferEvent) (e : TransferEvent) : Option TransferEvent :=
  if e.kind = "gasfree_permit_transfer" then
    correlateGasFreeFee e
      (canonical.filter (·.identity.transactionID = e.identity.transactionID)) route policy
  else none

def feeAmount (route : PaymentRoute) (policy : AutomatedMatchingPolicy)
    (canonical : List TransferEvent) (e : TransferEvent) : ℕ :=
  (pairedFee route policy canonical e).elim 0 (·.amount.n)

def eventAllocations (route : PaymentRoute) (policy : AutomatedMatchingPolicy)
    (canonical : List TransferEvent) (e : TransferEvent) : List MatchAllocation :=
  match pairedFee route policy canonical e with
  | some fee => [paymentAllocation e .gasfreePolicy,feeAllocation e fee]
  | none => [paymentAllocation e .partialPayment]

def isLate (route : PaymentRoute) (e : TransferEvent) : Bool := route.expiresAt < e.onChainTime

def isLateOutside (route : PaymentRoute) (e : TransferEvent) : Bool :=
  isLate route e && automaticLatePaymentDeadline route < e.onChainTime

structure Adds (route : PaymentRoute) (policy : AutomatedMatchingPolicy)
    (canonical : List TransferEvent) (s t : Tally) (es : List TransferEvent) : Prop where
  received : t.received.n = s.received.n+(es.map (·.amount.n)).sum
  treasuryReceived : t.treasuryReceived.n = s.treasuryReceived.n+(es.map (·.amount.n)).sum
  gasFreeFees : t.gasFreeFees.n = s.gasFreeFees.n+(es.map (feeAmount route policy canonical)).sum
  allocations : t.allocations = s.allocations ++ es.flatMap (eventAllocations route policy canonical)
  used : t.used = (es.filterMap (pairedFee route policy canonical)).reverse.map (·.id) ++ s.used
  sender : t.sender = es.foldl (fun from_ e => if from_ = "" then e.fromAddress else from_) s.sender
  anyLate : t.anyLate = (s.anyLate || es.any (isLate route))
  lateOutside : t.lateOutsideAutomaticGrace =
    (s.lateOutsideAutomaticGrace || es.any (isLateOutside route))

lemma Adds.refl (s : Tally) : Adds route policy canonical s s [] := by
  constructor <;> simp

lemma Adds.allocations_eq {t : Tally} {es : List TransferEvent}
    (h : Adds route policy canonical {} t es) :
    t.allocations = es.flatMap (eventAllocations route policy canonical) := by
  simpa using h.allocations

lemma Adds.trans {u : Tally} {fs : List TransferEvent}
    (h₁ : Adds route policy canonical s t es) (h₂ : Adds route policy canonical t u fs) :
    Adds route policy canonical s u (es ++ fs) where
  received := by rw [h₂.received,h₁.received]; simp; omega
  treasuryReceived := by rw [h₂.treasuryReceived,h₁.treasuryReceived]; simp; omega
  gasFreeFees := by rw [h₂.gasFreeFees,h₁.gasFreeFees]; simp; omega
  allocations := by rw [h₂.allocations,h₁.allocations]; simp
  used := by rw [h₂.used,h₁.used]; simp
  sender := by rw [h₂.sender,h₁.sender]; simp
  anyLate := by rw [h₂.anyLate,h₁.anyLate]; simp [Bool.or_assoc]
  lateOutside := by rw [h₂.lateOutside,h₁.lateOutside]; simp [Bool.or_assoc]

lemma Adds.unique
    (h : Adds route policy canonical s t es) (h' : Adds route policy canonical s t' es) :
    t = t' := by
  have h₁ := Amount.ext (h.received.trans h'.received.symm)
  have h₂ := Amount.ext (h.treasuryReceived.trans h'.treasuryReceived.symm)
  have h₃ := Amount.ext (h.gasFreeFees.trans h'.gasFreeFees.symm)
  have h₄ := h.allocations.trans h'.allocations.symm
  have h₅ := h.used.trans h'.used.symm
  have h₆ := h.sender.trans h'.sender.symm
  have h₇ := h.anyLate.trans h'.anyLate.symm
  have h₈ := h.lateOutside.trans h'.lateOutside.symm
  cases t
  simp_all

lemma exists_adds (hr : s.received.n+(es.map (·.amount.n)).sum < 2^256)
    (ht : s.treasuryReceived.n+(es.map (·.amount.n)).sum < 2^256)
    (hg : s.gasFreeFees.n+(es.map (feeAmount route policy canonical)).sum < 2^256) :
    ∃ t, Adds route policy canonical s t es :=
  ⟨{ received := ⟨_,hr⟩
     treasuryReceived := ⟨_,ht⟩
     gasFreeFees := ⟨_,hg⟩
     allocations := _
     used := _
     sender := _
     anyLate := _
     lateOutsideAutomaticGrace := _ },rfl,rfl,rfl,rfl,rfl,rfl,rfl,rfl⟩

theorem Adds.split {u : Tally} (h : Adds route policy canonical s u (e::es)) :
    ∃ t, Adds route policy canonical s t [e] ∧ Adds route policy canonical t u es := by
  have hr := h.received ▸ u.received.fits
  have ht := h.treasuryReceived ▸ u.treasuryReceived.fits
  have hg := h.gasFreeFees ▸ u.gasFreeFees.fits
  simp only [map_cons,sum_cons] at hr ht hg
  obtain ⟨t,hst⟩ : ∃ t, Adds route policy canonical s t [e] :=
    exists_adds (by simp; omega) (by simp; omega) (by simp; omega)
  obtain ⟨u',htu⟩ : ∃ u', Adds route policy canonical t u' es :=
    exists_adds (by rw [hst.received]; simp; omega) (by rw [hst.treasuryReceived]; simp; omega)
      (by rw [hst.gasFreeFees]; simp; omega)
  exact ⟨t,hst,(hst.trans htu).unique h ▸ htu⟩

lemma Adds.ok_iff (h : Adds route policy canonical s t es) :
    (Except.ok t : Except LoopExit Tally) = .ok t' ↔ Adds route policy canonical s t' es :=
  ⟨fun heq => Except.ok.inj heq ▸ h,fun h' => congrArg _ (h.unique h')⟩

lemma collectEvent_skip (h : counted route e = false) :
    collectEvent route policy canonical s e = .ok s := by
  simp only [counted,decide_eq_false_iff_not,not_and_or,not_not] at h
  unfold collectEvent
  rcases h with h | h
  · rw [if_pos (.inl h)]
  · split_ifs <;> rfl

/-- An event is added unless it is a permit transfer whose fee is missing. -/
theorem add_note_eq_ok : (s.note route e).add route policy canonical e = .ok t ↔
      (e.kind = "gasfree_permit_transfer" → (pairedFee route policy canonical e).isSome) ∧
        Adds route policy canonical s t [e] := by
  have hre : (s.note route e).received = s.received := rfl
  have htr : (s.note route e).treasuryReceived = s.treasuryReceived := rfl
  unfold Tally.add
  rw [hre,htr]
  cases hr : s.received.add e.amount with
  | error _ =>
    have ho := (Amount.add_eq_error.mp hr).1
    simp only [reduceCtorEq,false_iff,not_and]
    intro _ had
    have hsu := had.received
    have := t.received.fits
    simp at hsu
    omega
  | ok received =>
    cases ht : s.treasuryReceived.add e.amount with
    | error _ =>
      have ho := (Amount.add_eq_error.mp ht).1
      simp only [reduceCtorEq,false_iff,not_and]
      intro _ had
      have hsu := had.treasuryReceived
      have := t.treasuryReceived.fits
      simp at hsu
      omega
    | ok treasuryReceived =>
      rw [Amount.add_eq_ok] at hr ht
      by_cases hk : e.kind = "gasfree_permit_transfer"
      · simp only [hk,if_true,forall_const]
        have hp : pairedFee route policy canonical e = correlateGasFreeFee e
            (canonical.filter (·.identity.transactionID = e.identity.transactionID))
            route policy := if_pos hk
        cases hf : correlateGasFreeFee e
            (canonical.filter (·.identity.transactionID = e.identity.transactionID))
            route policy with
        | none => simp [hp,hf]
        | some fee =>
          rw [hf] at hp
          simp only [hp,Option.isSome_some,true_and]
          cases hg : s.gasFreeFees.add fee.amount with
          | error _ =>
            have ho := (Amount.add_eq_error.mp hg).1
            have hadd : (s.note route e).gasFreeFees.add fee.amount = .error _ := hg
            simp only [hadd,reduceCtorEq,false_iff]
            intro had
            have hsu := had.gasFreeFees
            have := t.gasFreeFees.fits
            simp [feeAmount,hp] at hsu
            omega
          | ok gasFreeFees =>
            have hadd : (s.note route e).gasFreeFees.add fee.amount = .ok _ := hg
            rw [Amount.add_eq_ok] at hg
            simp only [hadd]
            refine Adds.ok_iff ?_
            constructor <;>
              simp [Tally.note,feeAmount,eventAllocations,hp,isLate,isLateOutside,hr,ht,hg]
      · have hp : pairedFee route policy canonical e = none := if_neg hk
        simp only [hk,false_imp_iff,true_and]
        refine Adds.ok_iff ?_
        constructor <;>
          simp [Tally.note,feeAmount,eventAllocations,hp,isLate,isLateOutside,hr,ht]

/-- The events the loop may add up: their sender agrees with the sender so far where the
policy asks for it, and a gas-free payment has its fee. -/
def Admissible (route : PaymentRoute) (policy : AutomatedMatchingPolicy)
    (canonical : List TransferEvent) (s : Tally) (e : TransferEvent) : Prop :=
  ¬(policy.requireSameSender = true ∧ s.sender ≠ "" ∧ s.sender ≠ e.fromAddress) ∧
    (e.kind = "gasfree_permit_transfer" → (pairedFee route policy canonical e).isSome)

lemma collectEvent_eq_ok (hc : counted route e = true)
    (hu : e.id ∉ s.used) : collectEvent route policy canonical s e = .ok t ↔
      Admissible route policy canonical s e ∧ Adds route policy canonical s t [e] := by
  obtain ⟨hk,hel⟩ : e.kind ≠ "gasfree_fee" ∧ eligible route e = true := by
    simpa [counted] using hc
  unfold collectEvent Admissible
  rw [if_neg (by tauto)]
  split_ifs with hs
  · simp [hs]
  · rw [add_note_eq_ok,and_iff_right hs]

lemma pairedFee_eq_some : pairedFee route policy canonical e = some fee ↔
      e.kind = "gasfree_permit_transfer" ∧ gasFreePayable route policy e = true ∧
        canonical.filter (fun f => f.identity.transactionID = e.identity.transactionID ∧
          trustedFee route policy e f) = [fee] := by
  unfold pairedFee correlateGasFreeFee
  rw [filter_filter]
  have hco : (canonical.filter fun f => trustedFee route policy e f &&
      decide (f.identity.transactionID = e.identity.transactionID)) =
      canonical.filter fun f => decide (f.identity.transactionID = e.identity.transactionID ∧
        trustedFee route policy e f) := by
    refine filter_congr fun f _ => ?_
    rw [Bool.decide_and,Bool.decide_coe,Bool.and_comm]
  rw [hco]
  split_ifs with hk hp
  · generalize canonical.filter _ = fees
    simp only [hk,hp]
    rcases fees with _ | ⟨a,_ | ⟨b,l⟩⟩ <;> simp
  · simp [hp]
  · simp [hk]

lemma pairedFee_mem (h : pairedFee route policy canonical e = some fee) :
    fee ∈ canonical ∧ fee.identity.transactionID = e.identity.transactionID ∧
      trustedFee route policy e fee = true := by
  obtain ⟨-,-,hf⟩ := pairedFee_eq_some.mp h
  have hm := hf ▸ mem_singleton_self fee
  simpa using mem_filter.mp hm

lemma trustedFee_kind (h : trustedFee route policy e fee = true) : fee.kind = "gasfree_fee" := by
  simp only [trustedFee,decide_eq_true_eq] at h
  exact h.1

/-- Senders agree as the loop checks them: each with the first non-empty one before it. -/
def SendersAgree (policy : AutomatedMatchingPolicy) : String → List TransferEvent → Prop
  | _, [] => True
  | sender, e::es =>
    ¬(policy.requireSameSender = true ∧ sender ≠ "" ∧ sender ≠ e.fromAddress) ∧
      SendersAgree policy (if sender = "" then e.fromAddress else sender) es

lemma sendersAgree_iff {sender : String}
    (hf : ∀ e ∈ es, e.fromAddress ≠ "") : SendersAgree policy sender es ↔
      (policy.requireSameSender = true → (sender ≠ "" → ∀ e ∈ es, e.fromAddress = sender) ∧
          ∀ a ∈ es, ∀ b ∈ es, a.fromAddress = b.fromAddress) := by
  induction es generalizing sender with
  | nil => simp [SendersAgree]
  | cons e es ih =>
    obtain ⟨he,hes⟩ := forall_mem_cons.mp hf
    rw [SendersAgree,ih hes]
    by_cases hre : policy.requireSameSender = true
    · simp only [hre,forall_mem_cons]
      by_cases hs : sender = ""
      · subst hs
        simp only [if_true,he,ne_eq,not_true_eq_false,false_and,not_false_eq_true,true_and,
          forall_const,false_imp_iff]
        constructor
        · rintro ⟨hal,hp⟩
          exact ⟨fun b hb => (hal b hb).symm,fun a ha => ⟨hal a ha,hp a ha⟩⟩
        · rintro ⟨hal,hr⟩
          exact ⟨fun a ha => (hr a ha).1,fun a ha => (hr a ha).2⟩
      · simp only [hs,if_false,ne_eq,not_false_eq_true,true_and,forall_const,not_not]
        constructor
        · rintro ⟨rfl,hal,hp⟩
          exact ⟨⟨rfl,hal⟩,fun b hb => (hal b hb).symm,fun a ha => ⟨hal a ha,hp a ha⟩⟩
        · rintro ⟨⟨rfl,hal⟩,-,hr⟩
          exact ⟨rfl,hal,fun a ha => (hr a ha).2⟩
    · simp [hre]

/-- The identifiers of fees that were consumed belong to fee events of the list. -/
def UsedAreFees (canonical : List TransferEvent) (s : Tally) : Prop :=
  ∀ i ∈ s.used, ∃ f ∈ canonical, f.kind = "gasfree_fee" ∧ f.id = i

def FeesApart (route : PaymentRoute) (canonical : List TransferEvent) : Prop :=
  ∀ e ∈ canonical, counted route e = true → ∀ f ∈ canonical, f.kind = "gasfree_fee" → e.id ≠ f.id

lemma UsedAreFees.adds (hs : UsedAreFees canonical s) (h : Adds route policy canonical s t es) :
    UsedAreFees canonical t := by
  intro i hi
  rw [h.used,mem_append] at hi
  rcases hi with hi | hi
  · simp only [mem_reverse,mem_map,mem_filterMap] at hi
    obtain ⟨fee,⟨e,-,hp⟩,rfl⟩ := hi
    obtain ⟨hm,-,htr⟩ := pairedFee_mem hp
    exact ⟨fee,hm,trustedFee_kind htr,rfl⟩
  · exact hs i hi

lemma UsedAreFees.unused (hu : UsedAreFees canonical s) (hap : FeesApart route canonical)
    (he : e ∈ canonical) (hc : counted route e = true) : e.id ∉ s.used := by
  intro hme
  obtain ⟨f,hf,hk,hid⟩ := hu _ hme
  exact hap e he hc f hf hk hid.symm

/-- The whole loop: it completes exactly when the senders agree, every gas-free payment has
its fee and the totals fit, and then it has added up the events that count. -/
theorem traverse_collectEvent_eq_ok (hap : FeesApart route canonical) (hes : ∀ e ∈ es, e ∈ canonical)
    (hu : UsedAreFees canonical s) : traverse (collectEvent route policy canonical) es s = .ok t ↔
      SendersAgree policy s.sender (es.filter (counted route)) ∧
        (∀ e ∈ es.filter (counted route), e.kind = "gasfree_permit_transfer" →
          (pairedFee route policy canonical e).isSome) ∧
        Adds route policy canonical s t (es.filter (counted route)) := by
  induction es generalizing s with
  | nil =>
    simp only [filter_nil,SendersAgree,true_and]
    exact ⟨fun h => ⟨fun e he => absurd he not_mem_nil,Except.ok.inj h ▸ Adds.refl s⟩,
      fun h => congrArg _ ((Adds.refl s).unique h.2)⟩
  | cons e es ih =>
    obtain ⟨he,hes⟩ := forall_mem_cons.mp hes
    rw [traverse_cons_eq_ok]
    by_cases hc : counted route e = true
    · have hn := hu.unused hap he hc
      rw [filter_cons_of_pos hc,forall_mem_cons]
      constructor
      · rintro ⟨m,hm,hr⟩
        obtain ⟨⟨hsd,hfee⟩,had⟩ := (collectEvent_eq_ok hc hn).mp hm
        obtain ⟨hsn,hfe,has⟩ := (ih hes (hu.adds had)).mp hr
        have hse := had.sender
        rw [hse] at hsn
        exact ⟨⟨hsd,hsn⟩,⟨hfee,hfe⟩,had.trans has⟩
      · rintro ⟨⟨hsd,hsn⟩,⟨hfee,hfe⟩,had⟩
        obtain ⟨m,hm,hr⟩ := had.split
        have hse := hm.sender
        simp only [foldl_cons,foldl_nil] at hse
        rw [← hse] at hsn
        exact ⟨m,(collectEvent_eq_ok hc hn).mpr ⟨⟨hsd,hfee⟩,hm⟩,
          (ih hes (hu.adds hm)).mpr ⟨hsn,hfe,hr⟩⟩
    · have hsk : collectEvent route policy canonical s e = .ok s :=
        collectEvent_skip (Bool.eq_false_iff.mpr hc)
      rw [filter_cons_of_neg hc,hsk]
      simpa using ih hes hu

lemma collectEvent_not_review
    (had : counted route e = true → Admissible route policy canonical s e) :
    collectEvent route policy canonical s e ≠ .error (.review reason t) := by
  intro hr
  by_cases hc : counted route e = true
  · obtain ⟨hse,hf⟩ := had hc
    obtain ⟨hk,hel⟩ : e.kind ≠ "gasfree_fee" ∧ eligible route e = true := by
      simpa [counted] using hc
    unfold collectEvent at hr
    split at hr
    · cases hr
    unfold Tally.add at hr
    split at hr
    · cases hr
    · cases hr
    dsimp only at hr
    split at hr
    · rename_i hg
      obtain ⟨fee,hp⟩ := Option.isSome_iff_exists.mp (hf hg)
      rw [pairedFee,if_pos hg] at hp
      rw [hp] at hr
      dsimp only at hr
      split at hr <;> cases hr
    · cases hr
  · rw [collectEvent_skip (Bool.eq_false_iff.mpr hc)] at hr
    cases hr

/-- Agreeing senders and paired fees leave nothing to review. -/
theorem traverse_collectEvent_not_review (hap : FeesApart route canonical) (hes : ∀ e ∈ es, e ∈ canonical)
    (hu : UsedAreFees canonical s) (hse : SendersAgree policy s.sender (es.filter (counted route)))
    (hfe : ∀ e ∈ es.filter (counted route), e.kind = "gasfree_permit_transfer" →
      (pairedFee route policy canonical e).isSome) :
    traverse (collectEvent route policy canonical) es s ≠ .error (.review reason t) := by
  induction es generalizing s with
  | nil => simp
  | cons e es ih =>
    obtain ⟨he,hes⟩ := forall_mem_cons.mp hes
    by_cases hc : counted route e = true
    · rw [filter_cons_of_pos hc] at hse hfe
      obtain ⟨hsd,hse⟩ := hse
      obtain ⟨hfee,hfe⟩ := forall_mem_cons.mp hfe
      have hn := hu.unused hap he hc
      unfold Fallible.traverse
      cases hst : collectEvent route policy canonical s e with
      | error exit =>
        intro hr
        cases hr
        exact collectEvent_not_review (fun _ => ⟨hsd,hfee⟩) hst
      | ok m =>
        obtain ⟨-,had⟩ := (collectEvent_eq_ok hc hn).mp hst
        have hsn := had.sender
        simp only [foldl_cons,foldl_nil] at hsn
        rw [← hsn] at hse
        exact ih hes (hu.adds had) hse hfe
    · rw [filter_cons_of_neg hc] at hse hfe
      unfold Fallible.traverse
      rw [collectEvent_skip (Bool.eq_false_iff.mpr hc)]
      exact ih hes hu hse hfe

end

end Ocrypt.MatchingTotals
