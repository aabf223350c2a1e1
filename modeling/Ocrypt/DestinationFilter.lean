import Ocrypt.MatchingConservation
import Ocrypt.Scanner

/-! The scanner's destination filter against the reducer: which decisions about a route change
when the transfers to unwatched addresses never reach the store. -/
namespace Ocrypt.DestinationFilter
open Money Domain Fallible Table Matching MatchingTotals MatchingConservation Scanner List
open Requests (trimSpace)

structure DestinationFilterSource where
  watched : List String
  deriving DecidableEq, Repr

def newDestinationFilterSource (addresses : List String) :
    Except String DestinationFilterSource := do
  require (∀ address ∈ addresses, trimSpace address ≠ "")
    "destination filter contains an empty address"
  pure ⟨addresses.map trimSpace⟩

variable (f : DestinationFilterSource)

def DestinationFilterSource.keeps (event : TransferEvent) : Bool :=
  event.identity.toAddress ∈ f.watched

/-- The events of a transaction lookup, or of a range, that survive the filter. -/
def DestinationFilterSource.filter (events : List TransferEvent) : List TransferEvent :=
  events.filter f.keeps

/-- Blocks pass through unchanged, so that the continuity of the chain stays visible. -/
def DestinationFilterSource.scanRange (batch : RangeBatch) : RangeBatch :=
  { batch with events := f.filter batch.events }

section

variable {α : Type} {r : α → α → Prop} [DecidableRel r] {p : α → Bool}

lemma filter_orderedInsert [IsTrans α r] {a : α} {l : List α} (hl : l.Pairwise r) :
    (l.orderedInsert r a).filter p =
      if p a then (l.filter p).orderedInsert r a else l.filter p := by
  induction l with
  | nil => by_cases ha : p a <;> simp [ha]
  | cons b l ih =>
    obtain ⟨hb,hl⟩ := pairwise_cons.mp hl
    by_cases hab : r a b
    · -- `a` goes first, and stays first among the survivors
      have hf : ((b::l).filter p).orderedInsert r a = a::(b::l).filter p := by
        cases hre : (b::l).filter p with
        | nil => rfl
        | cons c rest =>
          have hc : c ∈ b::l := mem_of_mem_filter (hre ▸ mem_cons_self)
          have hac : r a c := by
            rcases mem_cons.mp hc with rfl | hc
            · exact hab
            · exact IsTrans.trans _ _ _ hab (hb c hc)
          simp [hac]
      rw [orderedInsert_cons,if_pos hab,hf]
      by_cases ha : p a <;> simp [filter_cons]
    · rw [orderedInsert_cons,if_neg hab,filter_cons,ih hl]
      by_cases ha : p a <;> by_cases hpb : p b <;> simp [ha,hpb,hab]

lemma filter_insertionSort [IsTrans α r] [Std.Total r] (l : List α) :
    (l.insertionSort r).filter p = (l.filter p).insertionSort r := by
  induction l with
  | nil => rfl
  | cons a l ih =>
    rw [insertionSort_cons,filter_orderedInsert (pairwise_insertionSort r l),ih]
    by_cases ha : p a <;> simp [ha]

end

lemma eventLE_iff {a b : TransferEvent} :
    eventLE a b ↔ toLex (a.onChainTime,a.id) ≤ toLex (b.onChainTime,b.id) := by
  rw [Prod.Lex.toLex_le_toLex]
  rfl

instance : IsTrans TransferEvent eventLE := ⟨fun _ _ _ hab hbc =>
  eventLE_iff.mpr ((eventLE_iff.mp hab).trans (eventLE_iff.mp hbc))⟩

instance : Std.Total eventLE := ⟨fun a b => by
  simp only [eventLE_iff]
  exact le_total _ _⟩

variable {events : List TransferEvent}

section

variable {sha256Hex : String → String} {p : TransferEvent → Bool}

lemma lookup_filter {ids : List (String × TransferEvent)} {key : String}
    (hke : ∀ q ∈ ids, q.1 = key → p q.2 = true) :
    (ids.filter fun q => p q.2).lookup key = ids.lookup key := by
  induction ids with
  | nil => rfl
  | cons q ids ih =>
    obtain ⟨k,c⟩ := q
    obtain ⟨hc,hi⟩ := forall_mem_cons.mp hke
    have hr := ih hi
    by_cases hky : key = k
    · simp [hc hky.symm,hky]
    · have hne : (key == k) = false := beq_eq_false_iff_ne.mpr hky
      by_cases hp : p c = true <;> simp [hp,lookup_cons,hne,hr]

lemma traverse_admitIdentity_filter {xs : List TransferEvent}
    {ids ids' : List (String × TransferEvent)}
    (hi : ∀ q ∈ ids, ∀ e ∈ xs, q.1 = keyOf sha256Hex e → p q.2 = p e)
    (hxs : ∀ a ∈ xs, ∀ b ∈ xs, keyOf sha256Hex a = keyOf sha256Hex b → p a = p b)
    (h : traverse (admitIdentity sha256Hex) xs ids = .ok ids') :
    traverse (admitIdentity sha256Hex) (xs.filter p) (ids.filter fun q => p q.2) =
      .ok (ids'.filter fun q => p q.2) := by
  induction xs generalizing ids with
  | nil =>
    cases h
    rfl
  | cons x xs ih =>
    obtain ⟨mid,hmi,hr⟩ := traverse_cons_eq_ok.mp h
    obtain ⟨hv,hca⟩ := admitIdentity_eq_ok.mp hmi
    have hx := fun b hb => hxs x mem_cons_self b (mem_cons_of_mem x hb)
    have hm : ∀ q ∈ mid, ∀ e ∈ xs, q.1 = keyOf sha256Hex e → p q.2 = p e := by
      have hi' := fun q hq e he => hi q hq e (mem_cons_of_mem x he)
      rcases hca with ⟨-,-,-,rfl⟩ | ⟨-,rfl⟩
      · exact hi'
      · exact forall_snoc hi' hx
    have hru := ih hm
      (fun a ha b hb => hxs a (mem_cons_of_mem x ha) b (mem_cons_of_mem x hb)) hr
    by_cases hp : p x = true
    · have hl := lookup_filter fun q hq hk => (hi q hq x mem_cons_self hk).trans hp
      rw [filter_cons_of_pos hp,traverse_cons_eq_ok]
      refine ⟨mid.filter fun q => p q.2,admitIdentity_eq_ok.mpr ⟨hv,?_⟩,hru⟩
      rw [hl]
      rcases hca with ⟨c,hc,hsame,rfl⟩ | ⟨hn,rfl⟩
      · exact .inl ⟨c,hc,hsame,rfl⟩
      · exact .inr ⟨hn,by simp [hp]⟩
    · have hmi' : (mid.filter fun q => p q.2) = ids.filter fun q => p q.2 := by
        rcases hca with ⟨-,-,-,rfl⟩ | ⟨-,rfl⟩
        · rfl
        · simp [hp]
      rw [filter_cons_of_neg hp,← hmi']
      exact hru

/-- A filter that treats the copies of a transfer alike commutes with their removal. -/
theorem canonicalEvents_filter {canonical : List TransferEvent}
    (hsi : ∀ a ∈ events, ∀ b ∈ events, keyOf sha256Hex a = keyOf sha256Hex b → p a = p b)
    (h : canonicalEvents sha256Hex events = .ok canonical) :
    canonicalEvents sha256Hex (events.filter p) = .ok (canonical.filter p) := by
  unfold canonicalEvents at h ⊢
  obtain ⟨ids,hi,rfl⟩ := map_eq_ok.mp h
  have hso : sortEvents (events.filter p) = (sortEvents events).filter p :=
    (filter_insertionSort events).symm
  have hr := traverse_admitIdentity_filter (p := p) (fun q hq => absurd hq not_mem_nil)
    (fun a ha b hb => hsi a (mem_sortEvents.mp ha) b (mem_sortEvents.mp hb)) hi
  rw [filter_nil] at hr
  rw [hso,hr,filter_map]
  rfl

end

variable {route : PaymentRoute} {policy : AutomatedMatchingPolicy} {e fee : TransferEvent}
  {t t' : Tally} {h : Hashing} {now : ℤ} {after : List TransferEvent} {f : DestinationFilterSource}

section

variable {canonical siblings : List TransferEvent} {p : TransferEvent → Bool}
  {es : List TransferEvent} {before : List TransferEvent}

/-- Whether the loop gets as far as looking for the fee of `e`: the payments before it passed
every check, and neither its sender nor its amount ends the loop. -/
structure Reaches (route : PaymentRoute) (policy : AutomatedMatchingPolicy)
    (canonical before : List TransferEvent) (e : TransferEvent) : Prop where
  counts : counted route e = true
  senders : SendersAgree policy "" (before.filter (counted route) ++ [e])
  paired : ∀ b ∈ before.filter (counted route), b.kind = "gasfree_permit_transfer" →
    (pairedFee route policy canonical b).isSome
  received_fits : ((before.filter (counted route) ++ [e]).map (·.amount.n)).sum < 2^256
  fees_fit : ((before.filter (counted route)).map (feeAmount route policy canonical)).sum < 2^256

lemma sendersAgree_concat {sender : String} :
    SendersAgree policy sender (es ++ [e]) ↔ SendersAgree policy sender es ∧
      ¬(policy.requireSameSender = true ∧
        es.foldl (fun from_ e => if from_ = "" then e.fromAddress else from_) sender ≠ "" ∧
        es.foldl (fun from_ e => if from_ = "" then e.fromAddress else from_) sender ≠
          e.fromAddress) := by
  induction es generalizing sender with
  | nil => simp [SendersAgree]
  | cons a es ih =>
    rw [cons_append,SendersAgree,ih,SendersAgree,and_assoc]
    rfl

/-- What ends the loop at a counted event before its fee is looked for. -/
structure Open (policy : AutomatedMatchingPolicy) (t : Tally) (e : TransferEvent) : Prop where
  sender : ¬(policy.requireSameSender = true ∧ t.sender ≠ "" ∧ t.sender ≠ e.fromAddress)
  received : t.received.n+e.amount.n < 2^256
  treasury : t.treasuryReceived.n+e.amount.n < 2^256

lemma reaches_iff (hap : FeesApart route canonical) (hbe : ∀ b ∈ before, b ∈ canonical) :
    Reaches route policy canonical before e ↔ counted route e = true ∧
      ∃ t, traverse (collectEvent route policy canonical) before {} = .ok t ∧ Open policy t e := by
  have hl : ∀ t, traverse (collectEvent route policy canonical) before {} = .ok t ↔ _ :=
    fun t => traverse_collectEvent_eq_ok hap hbe (fun _ hi => absurd hi not_mem_nil)
  constructor
  · intro h
    have hsu := h.received_fits
    simp only [map_append,sum_append,map_singleton,sum_singleton] at hsu
    obtain ⟨hag,hse⟩ := sendersAgree_concat.mp h.senders
    have hz : ({} : Tally).received.n = 0 ∧ ({} : Tally).treasuryReceived.n = 0 ∧
        ({} : Tally).gasFreeFees.n = 0 := ⟨rfl,rfl,rfl⟩
    have hf := h.fees_fit
    obtain ⟨t,had⟩ : ∃ t, Adds route policy canonical {} t (before.filter (counted route)) :=
      exists_adds (by omega) (by omega) (by omega)
    refine ⟨h.counts,t,(hl t).mpr ⟨hag,h.paired,had⟩,?_,?_,?_⟩
    · rw [had.sender]
      exact hse
    · have := had.received
      omega
    · have := had.treasuryReceived
      omega
  · rintro ⟨hco,t,hru,ho⟩
    obtain ⟨hag,hp,had⟩ := (hl t).mp hru
    refine ⟨hco,sendersAgree_concat.mpr ⟨hag,?_⟩,hp,?_,?_⟩
    · have hse := ho.sender
      rw [had.sender] at hse
      exact hse
    · have hr := had.received
      have := ho.received
      simp only [map_append,sum_append,map_singleton,sum_singleton]
      omega
    · have hf := had.gasFreeFees
      have := t.gasFreeFees.fits
      omega

def lastTally : Except LoopExit Tally → Option Tally
  | .ok t => some t
  | .error (.review _ t) => some t
  | .error (.failed _) => none

lemma collectEvent_congr (h : counted route e = true → Open policy t e →
      pairedFee route policy canonical e = pairedFee route policy siblings e) :
    collectEvent route policy canonical t e = collectEvent route policy siblings t e := by
  by_cases hc : counted route e = true
  · obtain ⟨hk,hel⟩ : e.kind ≠ "gasfree_fee" ∧ eligible route e = true := by
      simpa [counted] using hc
    unfold collectEvent
    split_ifs with hsk hse
    · rfl
    · rfl
    have hre : (t.note route e).received = t.received := rfl
    have htr : (t.note route e).treasuryReceived = t.treasuryReceived := rfl
    unfold Tally.add
    rw [hre,htr]
    cases hr : t.received.add e.amount with
    | error _ => rfl
    | ok received =>
      cases ht : t.treasuryReceived.add e.amount with
      | error _ => rfl
      | ok treasuryReceived =>
        have hp := h hc ⟨hse,Amount.add_eq_ok.mp hr ▸ received.fits,
          Amount.add_eq_ok.mp ht ▸ treasuryReceived.fits⟩
        simp only [pairedFee] at hp
        by_cases hg : e.kind = "gasfree_permit_transfer"
        · simp only [hg,if_true] at hp ⊢
          rw [hp]
        · simp only [hg,if_false]
  · rw [collectEvent_skip (Bool.eq_false_iff.mpr hc),collectEvent_skip (Bool.eq_false_iff.mpr hc)]

lemma collectEvent_unpaired (hc : counted route e = true)
    (hu : e.id ∉ t.used) (ho : Open policy t e) (hk : e.kind = "gasfree_permit_transfer")
    (hn : pairedFee route policy canonical e = none) :
    ∃ t', collectEvent route policy canonical t e =
        .error (.review "gasfree_sibling_missing_or_untrusted" t') ∧
      t'.allocations = t.allocations := by
  have hel : eligible route e = true := by
    simp only [counted,decide_eq_true_eq] at hc
    exact hc.2
  have hf : e.kind ≠ "gasfree_fee" := by
    rw [hk]
    decide
  have hr : t.received.add e.amount = .ok ⟨_,ho.received⟩ := Amount.add_eq_ok.mpr rfl
  have ht : t.treasuryReceived.add e.amount = .ok ⟨_,ho.treasury⟩ := Amount.add_eq_ok.mpr rfl
  have hre : (t.note route e).received = t.received := rfl
  have htr : (t.note route e).treasuryReceived = t.treasuryReceived := rfl
  rw [pairedFee,if_pos hk] at hn
  unfold collectEvent Tally.add
  rw [if_neg (not_or.mpr ⟨hf,hu⟩),if_neg (not_not.mpr hel),if_neg ho.sender,hre,htr,hr,ht]
  simp only [if_pos hk,hn]
  exact ⟨_,rfl,rfl⟩

lemma collectEvent_allocations (h : t' ∈ lastTally (collectEvent route policy canonical t e)) :
    t.allocations.length ≤ t'.allocations.length := by
  unfold collectEvent at h
  split_ifs at h with hsk hel hse
  · cases h
    exact le_rfl
  · cases h
    exact le_rfl
  rotate_left
  · cases h
    exact le_rfl
  unfold Tally.add at h
  split at h
  · cases h
  · cases h
  dsimp only at h
  split_ifs at h
  · split at h
    · cases h
      exact le_rfl
    · split at h
      · cases h
      · cases h
        simp [Tally.note]
  · cases h
    simp [Tally.note]

lemma traverse_allocations
    (h : t' ∈ lastTally (traverse (collectEvent route policy canonical) es t)) :
    t.allocations.length ≤ t'.allocations.length := by
  induction es generalizing t with
  | nil =>
    cases h
    exact le_rfl
  | cons e es ih =>
    unfold Fallible.traverse at h
    cases hst : collectEvent route policy canonical t e with
    | error exit =>
      rw [hst] at h
      have hei : t' ∈ lastTally (collectEvent route policy canonical t e) := by
        rw [hst]
        cases exit <;> exact h
      exact collectEvent_allocations hei
    | ok m =>
      rw [hst] at h
      have hm : m ∈ lastTally (collectEvent route policy canonical t e) := by
        rw [hst]
        rfl
      exact (collectEvent_allocations hm).trans (ih h)

def conclude (h : Hashing) (route : PaymentRoute) (now : ℤ) (policy : AutomatedMatchingPolicy) :
    Except LoopExit Tally → Except Failure AutomatedMatchDecision
  | .error (.failed failure) => .error failure
  | .error (.review reason t) =>
    .ok (sealAutomatedDecision h { openDecision route policy t with reasonCodes := [reason] })
  | .ok t => .ok (judgeTotals h route now policy t)

lemma conclude_allocations {x : Except LoopExit Tally}
    {d : AutomatedMatchDecision} (hd : conclude h route now policy x = .ok d) :
    ∃ t ∈ lastTally x, d.allocations.length = t.allocations.length := by
  match x, hd with
  | .error (.review _ t), hd =>
    cases hd
    exact ⟨t,rfl,rfl⟩
  | .ok t, hd =>
    cases hd
    refine ⟨t,rfl,?_⟩
    rcases judgeTotals_allocations with heq | ⟨credit,heq⟩
    · rw [heq]
    · have hmap := congrArg List.length
        (allocateCredit_map (fun a => a.eventID) (fun _ _ => rfl) credit t.allocations)
      simpa [heq] using hmap

lemma conclude_ne {reviewed paired : List TransferEvent} (hc : counted route e = true)
    (hu : e.id ∉ t.used) (ho : Open policy t e) (hn : pairedFee route policy reviewed e = none)
    (hso : pairedFee route policy paired e = some fee) :
    conclude h route now policy (traverse (collectEvent route policy reviewed) (e::after) t) ≠
      conclude h route now policy (traverse (collectEvent route policy paired) (e::after) t) := by
  have hk := (pairedFee_eq_some.mp hso).1
  obtain ⟨t₀,hr,hsh⟩ := collectEvent_unpaired hc hu ho hk hn
  intro heq
  have hle : traverse (collectEvent route policy reviewed) (e::after) t =
      .error (.review "gasfree_sibling_missing_or_untrusted" t₀) := by
    unfold Fallible.traverse
    rw [hr]
    rfl
  rw [hle] at heq
  obtain ⟨t',ht',hl⟩ := conclude_allocations heq.symm
  have hsame : t'.allocations.length = t.allocations.length := by
    rw [← hl]
    exact congrArg List.length hsh
  -- the round that pairs the payment adds two allocations or fails
  unfold Fallible.traverse at ht'
  cases hst : collectEvent route policy paired t e with
  | error exit =>
    rw [hst] at ht'
    cases exit with
    | failed failure => cases ht'
    | review reason m =>
      refine collectEvent_not_review (fun _ => ⟨ho.sender,fun _ => ?_⟩) hst
      rw [hso]
      rfl
  | ok m =>
    rw [hst] at ht'
    have hg := ((collectEvent_eq_ok hc hu).mp hst).2.allocations
    have hre := traverse_allocations ht'
    simp only [hg,flatMap_singleton,length_append,eventAllocations,hso,length_cons] at hre
    omega

lemma pairedFee_filter_unique {fee' : TransferEvent}
    (h : pairedFee route policy canonical e = some fee)
    (h' : pairedFee route policy (canonical.filter p) e = some fee') : fee' = fee := by
  obtain ⟨-,-,hfe⟩ := pairedFee_eq_some.mp h
  obtain ⟨hm,htx,htr⟩ := pairedFee_mem h'
  have hfee : fee' ∈ canonical.filter fun f => f.identity.transactionID =
      e.identity.transactionID ∧ trustedFee route policy e f :=
    mem_filter.mpr ⟨mem_of_mem_filter hm,by simp [htx,htr]⟩
  rw [hfe] at hfee
  exact mem_singleton.mp hfee

lemma used_of_traverse (hap : FeesApart route canonical) (hbe : ∀ b ∈ before, b ∈ canonical)
    (hr : traverse (collectEvent route policy canonical) before {} = .ok t) :
    UsedAreFees canonical t := by
  have hst : UsedAreFees canonical {} := fun _ hi => absurd hi not_mem_nil
  have had := ((traverse_collectEvent_eq_ok hap hbe hst).mp hr).2.2
  exact hst.adds had

/-- From the same totals, the loop over the whole list and the loop over the survivors lead to
the same decision exactly when every payment reached has the same fee in both. -/
theorem conclude_eq_iff (hap : FeesApart route canonical)
    {before : List TransferEvent} (hsp : canonical = before ++ after)
    (hru : traverse (collectEvent route policy canonical) before {} = .ok t) :
    conclude h route now policy
        (traverse (collectEvent route policy (canonical.filter p)) after t) =
      conclude h route now policy (traverse (collectEvent route policy canonical) after t) ↔
      ∀ b e a, after = b ++ e::a → Reaches route policy canonical (before ++ b) e →
        pairedFee route policy (canonical.filter p) e = pairedFee route policy canonical e := by
  induction after generalizing before t with
  | nil => simp
  | cons e after ih =>
    have hbe : ∀ b ∈ before, b ∈ canonical := fun b hb =>
      hsp ▸ mem_append_left _ hb
    by_cases hl : Reaches route policy canonical before e ∧
        pairedFee route policy (canonical.filter p) e ≠ pairedFee route policy canonical e
    · obtain ⟨hr,hne⟩ := hl
      refine iff_of_false ?_ fun hal => hne (hal [] e after rfl (by simpa using hr))
      obtain ⟨hc,t',hru',ho⟩ := (reaches_iff hap hbe).mp hr
      obtain rfl : t = t' := Except.ok.inj (hru.symm.trans hru')
      have he : e ∈ canonical := hsp ▸ mem_append_right _ mem_cons_self
      have hu : e.id ∉ t.used := by
        intro hme
        obtain ⟨f,hf,hki,hid⟩ := used_of_traverse hap hbe hru _ hme
        exact hap e he hc f hf hki hid.symm
      cases hal : pairedFee route policy canonical e with
      | none =>
        cases hk : pairedFee route policy (canonical.filter p) e with
        | none => exact absurd (hk.trans hal.symm) hne
        | some fee => exact (conclude_ne hc hu ho hal hk).symm
      | some fee =>
        cases hk : pairedFee route policy (canonical.filter p) e with
        | none => exact conclude_ne hc hu ho hk hal
        | some fee' =>
          rw [hal,hk,pairedFee_filter_unique hal hk] at hne
          exact absurd rfl hne
    · have hfe := fun hr => not_not.mp fun hne => hl ⟨hr,hne⟩
      have hst := collectEvent_congr fun hc ho =>
          hfe ((reaches_iff hap hbe).mpr ⟨hc,t,hru,ho⟩)
      unfold Fallible.traverse
      rw [hst]
      cases hn : collectEvent route policy canonical t e with
      | error exit =>
        refine iff_of_true rfl fun b e' a hsu hr => ?_
        cases b with
        | nil =>
          obtain ⟨rfl,-⟩ := List.cons.inj hsu
          exact hfe (by simpa using hr)
        | cons b bs =>
          -- the loop stopped at `e`, so it reaches nothing behind it
          obtain ⟨rfl,-⟩ := List.cons.inj hsu
          have hme : ∀ x ∈ before ++ e::bs, x ∈ canonical := by
            intro x hx
            rw [hsp,hsu,← append_assoc]
            exact mem_append_left _ hx
          obtain ⟨-,t',hru',-⟩ := (reaches_iff hap hme).mp hr
          obtain ⟨m,hm,hre⟩ := traverse_append_eq_ok.mp hru'
          obtain rfl : t = m := Except.ok.inj (hru.symm.trans hm)
          obtain ⟨m,hm,-⟩ := traverse_cons_eq_ok.mp hre
          rw [hn] at hm
          cases hm
      | ok m =>
        have hru' : traverse (collectEvent route policy canonical) (before ++ [e]) {} = .ok m :=
          traverse_append_eq_ok.mpr ⟨t,hru,traverse_cons_eq_ok.mpr ⟨m,hn,rfl⟩⟩
        have hsp' : canonical = (before ++ [e]) ++ after := by
          rw [hsp]
          simp
        have hre := ih hsp' hru'
        refine hre.trans ⟨fun hal b e' a hsu hr => ?_,fun hal b e' a hsu hr => ?_⟩
        · cases b with
          | nil =>
            obtain ⟨rfl,-⟩ := List.cons.inj hsu
            exact hfe (by simpa using hr)
          | cons b bs =>
            obtain ⟨rfl,haf⟩ := List.cons.inj hsu
            exact hal bs e' a haf (by simpa using hr)
        · exact hal (e::b) e' a (by rw [hsu]; rfl) (by simpa using hr)

lemma traverse_survivors (hw : route.address ∈ f.watched) (es : List TransferEvent) (t : Tally) :
    traverse (collectEvent route policy siblings) (es.filter f.keeps) t =
      traverse (collectEvent route policy siblings) es t := by
  induction es generalizing t with
  | nil => rfl
  | cons e es ih =>
    by_cases hk : f.keeps e = true
    · rw [filter_cons_of_pos hk]
      unfold Fallible.traverse
      cases collectEvent route policy siblings t e with
      | error _ => rfl
      | ok m => exact ih m
    · have hsk : counted route e = false := by
        by_contra hc
        simp only [Bool.not_eq_false,counted,eligible,decide_eq_true_eq] at hc
        refine hk (decide_eq_true ?_)
        rw [hc.2.2.2.2.2.1]
        exact hw
      rw [filter_cons_of_neg hk,ih t]
      conv_rhs => unfold Fallible.traverse
      rw [collectEvent_skip hsk]
      rfl

end

/-- Every gas-free payment that the reducer gets to has the same trusted fee among the survivors
as among all events. -/
def FeesSurvive (f : DestinationFilterSource) (route : PaymentRoute)
    (policy : AutomatedMatchingPolicy) (canonical : List TransferEvent) : Prop :=
  policy.validate = .ok () → validMatchingRoute route = true →
    ∀ before e after, canonical = before ++ e::after →
      Reaches route policy canonical before e →
        pairedFee route policy (f.filter canonical) e = pairedFee route policy canonical e

lemma feesSurvive_of_watched {canonical : List TransferEvent}
    (h : ∀ e ∈ canonical, e.kind = "gasfree_fee" →
      e.identity.toAddress ∈ policy.gasFreeFeeCollectors → e.identity.toAddress ∈ f.watched) :
    FeesSurvive f route policy canonical := by
  intro _ _ _ e _ _ _
  refine Option.ext fun fee => ?_
  rw [pairedFee_eq_some,pairedFee_eq_some,DestinationFilterSource.filter,filter_filter]
  -- A trusted fee went to a collector, whose address is watched.
  refine and_congr_right fun _ => and_congr_right fun _ => Eq.congr_left (filter_congr fun g hg => ?_)
  refine Bool.and_eq_left_iff_imp.mpr fun hgo => ?_
  have htr := (of_decide_eq_true hgo).2
  have hk := trustedFee_kind htr
  simp only [trustedFee,decide_eq_true_eq] at htr
  exact decide_eq_true (h g hg hk htr.2.2.2.2.2.2.2.2.2.2.1)

lemma evaluate_eq_conclude {canonical : List TransferEvent} (hv : policy.validate = .ok ())
    (hr : validMatchingRoute route = true)
    (hca : canonicalEvents h.sha256Hex events = .ok canonical) :
    evaluateAutomatedMatch h route events now policy =
      conclude h route now policy (traverse (collectEvent route policy canonical) canonical {}) := by
  unfold evaluateAutomatedMatch
  rw [hv,require_pos hr,hca]
  simp only [ok_bind]
  cases hru : traverse (collectEvent route policy canonical) canonical {} with
  | ok t => rfl
  | error exit => cases exit <;> rfl

/-- The destination filter changes no decision about a watched route exactly when no gas-free
payment that the reducer gets to loses its fee to the filter, or becomes unambiguous by it. -/
theorem destinationFilter_preserves_iff {h : Hashing} {f : DestinationFilterSource}
    {route : PaymentRoute} {events canonical : List TransferEvent}
    {policy : AutomatedMatchingPolicy} {now : ℤ} (hkeys : ∀ a ∈ events, ∀ b ∈ events,
      keyOf h.sha256Hex a = keyOf h.sha256Hex b → a.identity = b.identity)
    (hids : DistinctIDs events) (hcanon : canonicalEvents h.sha256Hex events = .ok canonical)
    (hwatched : route.address ∈ f.watched) :
    evaluateAutomatedMatch h route (f.filter events) now policy =
      evaluateAutomatedMatch h route events now policy ↔ FeesSurvive f route policy canonical := by
  have hcanon' : canonicalEvents h.sha256Hex (f.filter events) = .ok (f.filter canonical) := by
    refine canonicalEvents_filter (fun a ha b hb hk => ?_) hcanon
    rw [DestinationFilterSource.keeps,DestinationFilterSource.keeps,hkeys a ha b hb hk]
  cases hv : policy.validate with
  | error failure =>
    refine iff_of_true ?_ fun hok => ?_
    · unfold evaluateAutomatedMatch
      rw [hv]
      rfl
    · rw [hv] at hok
      cases hok
  | ok u =>
    by_cases hr : validMatchingRoute route = true
    · rw [evaluate_eq_conclude hv hr hcanon,evaluate_eq_conclude hv hr hcanon',
        DestinationFilterSource.filter,traverse_survivors hwatched,
        conclude_eq_iff (canonical_feesApart hids hcanon) (nil_append canonical).symm
          (traverse_nil _ _)]
      exact ⟨fun hal _ _ => hal,fun hal => hal hv hr⟩
    · refine iff_of_true ?_ fun _ hok => absurd hok hr
      unfold evaluateAutomatedMatch
      rw [require,if_neg hr]
      rfl

def sampleBatch : List TransferEvent :=
  [sampleTransfer "p1" "tx1" "transfer:0" "TMerchant" "gasfree_permit_transfer" 100,
    sampleTransfer "f1" "tx1" "gasfree-fee:0" "TCollector" "gasfree_fee" 1,
    sampleTransfer "s1" "tx2" "transfer:0" "TStranger" "transfer" 40]

theorem destinationFilter_preserves_sample :
    DestinationFilterSource.filter ⟨["TMerchant", "TCollector"]⟩ sampleBatch ≠ sampleBatch ∧
      evaluateAutomatedMatch sampleHashing sampleRoute
          (DestinationFilterSource.filter ⟨["TMerchant", "TCollector"]⟩ sampleBatch) 60 samplePolicy =
        evaluateAutomatedMatch sampleHashing sampleRoute sampleBatch 60 samplePolicy := by
  have hca : canonicalEvents sampleHashing.sha256Hex sampleBatch =
      .ok [sampleTransfer "f1" "tx1" "gasfree-fee:0" "TCollector" "gasfree_fee" ⟨1,by decide⟩,
        sampleTransfer "p1" "tx1" "transfer:0" "TMerchant" "gasfree_permit_transfer"
          ⟨100,by decide⟩,
        sampleTransfer "s1" "tx2" "transfer:0" "TStranger" "transfer" ⟨40,by decide⟩] := by
    decide +kernel
  refine ⟨by decide +kernel,(destinationFilter_preserves_iff (by decide +kernel) ?_ hca
    (by decide)).mpr (feesSurvive_of_watched (by decide +kernel))⟩
  unfold DistinctIDs
  decide +kernel

/-- With only the merchant's address watched the fee is dropped, and a payment that settles its
route is left for an operator. -/
theorem destinationFilter_drops_fee :
    newDestinationFilterSource ["TMerchant"] = .ok ⟨["TMerchant"]⟩ ∧
      sampleRoute.address ∈ ["TMerchant"] ∧
      (∃ d, evaluateAutomatedMatch sampleHashing sampleRoute sampleBatch 60 samplePolicy = .ok d ∧
        d.outcome = .settle ∧ d.credited.n = 100) ∧
      ∃ d, evaluateAutomatedMatch sampleHashing sampleRoute
          (DestinationFilterSource.filter ⟨["TMerchant"]⟩ sampleBatch) 60 samplePolicy = .ok d ∧
        d.outcome = .review ∧ d.reasonCodes = ["gasfree_sibling_missing_or_untrusted"] := by
  decide +kernel

def canonicalEVMAddress (value : String) : Except String String := do
  let value := (trimSpace value).toLower
  require (value.utf8ByteSize = 42 ∧ hasPrefix value "0x" = true ∧
    (Requests.hexDecode (trimPrefix value "0x")).isSome) "invalid EVM address"
  pure value

structure EVMSource where
  watched : List String
  deriving DecidableEq

def newEVMSource (watchedAddresses : List String) : Except String EVMSource := do
  require (∀ address ∈ watchedAddresses, (canonicalEVMAddress address).isOk)
    "invalid EVM watched address"
  pure ⟨watchedAddresses.filterMap fun address => (canonicalEVMAddress address).toOption⟩

/-- Of the transfers in a range, whose addresses are canonical, those to a watched address. -/
def EVMSource.scanWatchedRange (s : EVMSource) (batch : RangeBatch) : RangeBatch :=
  { batch with events := batch.events.filter (·.identity.toAddress ∈ s.watched) }

variable {address : String}

lemma canonicalEVMAddress_eq {value : String} (h : canonicalEVMAddress value = .ok address) :
    address = (trimSpace value).toLower := by
  simp only [canonicalEVMAddress,do_ok] at h
  exact h.2.symm

lemma mem_watched {addresses : List String} {s : EVMSource} (h : newEVMSource addresses = .ok s) :
    address ∈ s.watched ↔ ∃ a ∈ addresses, (trimSpace a).toLower = address := by
  simp only [newEVMSource,do_ok] at h
  obtain ⟨hv,rfl⟩ := h
  simp only [mem_filterMap]
  refine exists_congr fun a => and_congr_right fun ha => ?_
  cases hca : canonicalEVMAddress a with
  | error e =>
    have := hv a ha
    rw [hca] at this
    cases this
  | ok value =>
    rw [← canonicalEVMAddress_eq hca]
    simp [Except.toOption]

/-- The source and the filter of one configuration agree exactly when the configured spellings
include the lower-case one of each address. -/
theorem watched_transfers_survive_iff {addresses : List String} {s : EVMSource}
    {f : DestinationFilterSource} (hs : newEVMSource addresses = .ok s)
    (hf : newDestinationFilterSource addresses = .ok f) :
    (∀ batch, ∀ e ∈ (s.scanWatchedRange batch).events,
      e ∈ (f.scanRange (s.scanWatchedRange batch)).events) ↔
    ∀ a ∈ addresses, (trimSpace a).toLower ∈ addresses.map trimSpace := by
  simp only [newDestinationFilterSource,do_eq_ok,exists_require,pure_eq_ok] at hf
  obtain ⟨-,rfl⟩ := hf
  constructor
  · intro hal a ha
    let e := sampleTransfer "" "" "" (trimSpace a).toLower "transfer" ⟨1,by decide⟩
    have hw := (mem_watched hs).mpr ⟨a,ha,rfl⟩
    have hk := hal ⟨0,0,[],[e]⟩ e (mem_filter.mpr ⟨mem_singleton_self e,by simpa⟩)
    exact of_decide_eq_true (mem_filter.mp hk).2
  · intro hl batch e he
    refine mem_filter.mpr ⟨he,decide_eq_true ?_⟩
    obtain ⟨a,ha,heq⟩ := (mem_watched hs).mp (of_decide_eq_true (mem_filter.mp he).2)
    exact heq ▸ hl a ha

def sampleAddress (digit : Char) : String := "0x" ++ String.ofList (List.replicate 40 digit)

theorem watched_transfers_survive_sample :
    let e := sampleTransfer "" "" "" (sampleAddress 'a') "transfer" ⟨1,by decide⟩
    ∃ s f, newEVMSource [sampleAddress 'a'] = .ok s ∧
      newDestinationFilterSource [sampleAddress 'a'] = .ok f ∧
      e ∈ (f.scanRange (s.scanWatchedRange ⟨0,0,[],[e]⟩)).events := by
  intro e
  have hs : newEVMSource [sampleAddress 'a'] = .ok ⟨[sampleAddress 'a']⟩ := by decide +kernel
  have hf : newDestinationFilterSource [sampleAddress 'a'] = .ok ⟨[sampleAddress 'a']⟩ := by
    decide +kernel
  exact ⟨_,_,hs,hf,(watched_transfers_survive_iff hs hf).mpr (by decide +kernel) _ e
    (by decide +kernel)⟩

/-- A transfer to an address that was configured with capital digits is found and dropped. -/
theorem checksummed_address_dropped :
    let e := sampleTransfer "" "" "" (sampleAddress 'a') "transfer" ⟨1,by decide⟩
    ∃ s f, newEVMSource [sampleAddress 'A'] = .ok s ∧
      newDestinationFilterSource [sampleAddress 'A'] = .ok f ∧
      (s.scanWatchedRange ⟨0,0,[],[e]⟩).events = [e] ∧
      (f.scanRange (s.scanWatchedRange ⟨0,0,[],[e]⟩)).events = [] :=
  ⟨⟨[sampleAddress 'a']⟩,⟨[sampleAddress 'A']⟩,by decide +kernel⟩

end Ocrypt.DestinationFilter
