import Ocrypt.Candidates

/-! The choice among the candidates of a transfer: the unique best one or, when several have the
full score, the closest of equivalent invoices. -/
namespace Ocrypt.CandidateSelection
open Money Domain Store Candidates List

/-- What the best candidate needs to be settled automatically, ties apart. -/
structure Automatic (c : Candidate) : Prop where
  score : automaticCandidateScoreThreshold ≤ c.score
  clear : c.exceptionClass ≠ .ambiguous
  window : candidateHasReason c "within_payment_window" = true ∨
    (c.exceptionClass = .late ∧ candidateHasReason c automaticLateGraceReason = true)
  enough : c.exceptionClass = .partialPayment ∨ c.exceptionClass = .underpaid →
    candidateHasReason c "underpayment_within_five_percent" = true

variable {w : Candidate}

lemma uniqueAutomaticCandidate_cons {top : Candidate} {rest : List Candidate} :
    uniqueAutomaticCandidate (top::rest) = some w ↔
      top = w ∧ Automatic top ∧ ∀ c ∈ rest.head?, c.score ≠ top.score := by
  unfold uniqueAutomaticCandidate
  dsimp only
  split_ifs with hl hwi hen hti
  · refine iff_of_false (by simp) fun h => ?_
    rcases hl with hl | hl
    · exact absurd h.2.1.score (not_le.mpr hl)
    · exact h.2.1.clear hl
  · refine iff_of_false (by simp) fun h => ?_
    have hw := h.2.1.window
    rcases hw with hw | ⟨hcl,hw⟩
    · simp [hw] at hwi
    · simp [hcl,hw] at hwi
  · refine iff_of_false (by simp) fun h => ?_
    have he := h.2.1.enough hen.1
    simp [he] at hen
  · refine iff_of_false (by simp) fun h => ?_
    obtain ⟨c,hc,hsc⟩ := (Option.any_eq_true _ _).mp hti
    exact h.2.2 c hc (of_decide_eq_true hsc)
  · have hau : Automatic top := by
      refine ⟨not_lt.mp fun h => hl (.inl h),fun h => hl (.inr h),?_,fun h => ?_⟩
      · simp only [Bool.and_eq_true,Bool.not_eq_true',Bool.and_eq_false_iff,
          decide_eq_false_iff_not,not_and,not_or,Bool.not_eq_false,not_not] at hwi
        cases hr : candidateHasReason top "within_payment_window" with
        | true => exact .inl rfl
        | false => exact .inr (hwi hr)
      · by_contra hno
        exact hen ⟨h,by simpa using hno⟩
    have hhe : ∀ c ∈ rest.head?, c.score ≠ top.score := by
      intro c hc heq
      exact hti ((Option.any_eq_true _ _).mpr ⟨c,hc,decide_eq_true heq⟩)
    rw [Option.some.injEq,and_iff_left ⟨hau,hhe⟩]

abbrev Descending (cs : List Candidate) : Prop := cs.Pairwise fun a b => b.score ≤ a.score

variable {cs : List Candidate} {expected : Amount} {c : Candidate} {received : Amount}
  {t t' : TieBreak}

lemma unique_iff (hd : Descending cs) :
    uniqueAutomaticCandidate cs = some w ↔ Automatic w ∧ cs.filter (w.score ≤ ·.score) = [w] := by
  cases cs with
  | nil => simp [uniqueAutomaticCandidate]
  | cons top rest =>
    obtain ⟨hto,hr⟩ := pairwise_cons.mp hd
    rw [uniqueAutomaticCandidate_cons]
    constructor
    · rintro ⟨rfl,hau,hh⟩
      refine ⟨hau,?_⟩
      rw [filter_cons_of_pos (by simp),filter_eq_nil_iff.mpr]
      intro c hc
      cases rest with
      | nil => cases hc
      | cons second rest =>
        have hlt := lt_of_le_of_ne (hto second mem_cons_self) (hh second rfl)
        rcases mem_cons.mp hc with rfl | hc
        · simpa using hlt
        · simpa using ((pairwise_cons.mp hr).1 c hc).trans_lt hlt
    · rintro ⟨hau,hf⟩
      have hw : w ∈ top::rest := (mem_filter.mp (hf ▸ mem_singleton_self w)).1
      have hle : w.score ≤ top.score := by
        rcases mem_cons.mp hw with rfl | hw
        · exact le_rfl
        · exact hto w hw
      rw [filter_cons_of_pos (by simpa using hle),List.cons.injEq,
        filter_eq_nil_iff] at hf
      obtain ⟨rfl,hl⟩ := hf
      refine ⟨rfl,hau,fun c hc heq => hl c (mem_of_mem_head? hc) ?_⟩
      simp [heq]

variable {ext : Externals} {event : TransferEvent} {contexts : List AutomaticCandidateContext}

structure Supported (ext : Externals) (event : TransferEvent)
    (contexts : List AutomaticCandidateContext) (c : Candidate) (ctx : AutomaticCandidateContext)
    (metadata : String) : Prop where
  found : contexts.find? (·.route.id = c.routeID) = some ctx
  supports : contextSupports event c ctx = true
  readable : ext.canonicalCandidateMetadata ctx.intent.metadata = some metadata

abbrev excess (event : TransferEvent) (route : PaymentRoute) : ℕ :=
  event.amount.n - route.expectedAmount.n

lemma tolerance_eq {maximum : Amount}
    (h : toleranceOf expected candidateCloseAmountToleranceBPS = .ok maximum) :
    maximum.n = expected.n*500 / 10000 := by
  obtain ⟨m,hm,hma⟩ := Amount.mulDivFloor_eq_ok (a := expected)
    (show 0 < (⟨10000,Amount.basis_fits⟩ : Amount).n by decide)
    (show (⟨candidateCloseAmountToleranceBPS.toNat,by decide⟩ : Amount).n ≤ 10000 by decide)
  cases h.symm.trans hm
  exact hma

lemma overpaid_of_tolerance {bps : UInt32}
    (h : overpaymentWithinTolerance received expected bps = true) : expected.n < received.n := by
  unfold overpaymentWithinTolerance at h
  split_ifs at h with hno
  have hgt := not_not.mp fun hne => hno (.inr hne)
  exact Amount.cmp_eq_gt.mp hgt

lemma within_of_tolerance {difference : Except String Amount}
    (h : withinTolerance difference expected candidateCloseAmountToleranceBPS = true) :
    ∃ d, difference = .ok d ∧ d.n ≤ expected.n*500 / 10000 := by
  unfold withinTolerance at h
  cases difference with
  | error e => simp at h
  | ok d =>
    cases hto : toleranceOf expected candidateCloseAmountToleranceBPS with
    | error e => simp [hto] at h
    | ok maximum =>
      simp only [hto,decide_eq_true_eq] at h
      refine ⟨d,rfl,?_⟩
      rw [← tolerance_eq hto]
      exact Nat.le_of_not_lt fun hlt => h (Amount.cmp_eq_gt.mpr hlt)

lemma excess_of_tolerance
    (h : overpaymentWithinTolerance received expected candidateCloseAmountToleranceBPS = true) :
    received.n - expected.n ≤ expected.n*500 / 10000 := by
  unfold overpaymentWithinTolerance at h
  split_ifs at h
  obtain ⟨d,hsu,hle⟩ := within_of_tolerance h
  rwa [(Amount.sub_eq_ok.mp hsu).2]

variable {ctx : AutomaticCandidateContext}

lemma overpaid_of_supports
    (h : contextSupports event c ctx = true) : ctx.route.expectedAmount.n < event.amount.n := by
  simp only [contextSupports,Bool.and_eq_true] at h
  exact overpaid_of_tolerance h.2

def nearest (best : Option (Candidate × Amount × Bool)) (c : Candidate) (d : Amount) :
    Option (Candidate × Amount × Bool) :=
  match best with
  | none => some (c,d,true)
  | some (w,closest,only) =>
    match d.cmp closest with
    | .lt => some (c,d,true)
    | .eq => some (w,closest,false)
    | .gt => some (w,closest,only)

lemma guard_eq_some {p : Prop} [Decidable p] {u : Unit} : (guard p : Option Unit) = some u ↔ p := by
  by_cases hp : p <;> simp [guard]

lemma toOption_eq_some {α ε : Type} {x : Except ε α} {a : α} : x.toOption = some a ↔ x = .ok a := by
  cases x <;> simp [Except.toOption]

lemma tieBreakStep_eq_some : tieBreakStep ext event contexts t c = some t' ↔
      ∃ ctx m, Supported ext event contexts c ctx m ∧ c.routeID ∉ t.seen ∧
        (∀ r ∈ t.reference, sameInvoice ctx r.1 m r.2 = true) ∧
        ∃ d, event.amount.sub ctx.route.expectedAmount = .ok d ∧
          t' = ⟨c.routeID::t.seen,t.reference.or (some (ctx,m)),nearest t.best c d⟩ := by
  unfold tieBreakStep
  constructor
  · intro h
    simp only [Option.bind_eq_bind,Option.bind_eq_some_iff,guard_eq_some,exists_const,
      toOption_eq_some] at h
    obtain ⟨ctx,hf,⟨hn,hsu⟩,m,hm,hsame,d,hd,ht⟩ := h
    refine ⟨ctx,m,⟨hf,hsu,hm⟩,hn,?_,d,?_,?_⟩
    · intro r hr
      rw [hr] at hsame
      exact hsame
    · exact hd
    · exact (Option.some.inj ht).symm
  · rintro ⟨ctx,m,hsp,hn,hsame,d,hd,rfl⟩
    simp only [hsp.found,Option.bind_eq_bind,Option.bind_some,hsp.readable,hd,hn,hsp.supports]
    cases hre : t.reference with
    | none => rfl
    | some r =>
      simp only [Option.all_some,hsame r hre]
      rfl

/-- The facts of an invoice that all candidates of a tie have in common. -/
def invoice (ctx : AutomaticCandidateContext) (metadata : String) :=
  (ctx.intent.tenantID,ctx.intent.merchantID,ctx.intent.customerReference,
    ctx.intent.amountMinor,ctx.intent.currency,ctx.intent.currencyScale,metadata, ctx.route.memo)

variable {m : String}

lemma sameInvoice_iff {a b : AutomaticCandidateContext} {m' : String} :
    sameInvoice a b m m' = true ↔ invoice a m = invoice b m' := by
  simp [sameInvoice,invoice,and_assoc]

/-- What the best of the candidates seen so far is: the closest, with a mark that stands while
no other is as close. -/
def Nearest (d : Candidate → ℕ) (cs : List Candidate) : Option (Candidate × Amount × Bool) → Prop
  | none => cs = []
  | some (w,closest,only) => w ∈ cs ∧ closest.n = d w ∧ (∀ c ∈ cs, d w ≤ d c) ∧
    (only = true ↔ ∀ c ∈ cs, c.routeID ≠ w.routeID → d w < d c)

lemma Nearest.step {d : Candidate → ℕ} {best : Option (Candidate × Amount × Bool)} {x : Amount}
    (h : Nearest d cs best) (hn : c.routeID ∉ cs.map (·.routeID)) (hx : x.n = d c) :
    Nearest d (c::cs) (nearest best c x) := by
  match best, h with
  | none, h =>
    cases h
    simp [nearest,Nearest,hx]
  | some (w,closest,only), ⟨hw,hcl,hm,ho⟩ =>
    have hne : c.routeID ≠ w.routeID := fun heq => hn (heq ▸ mem_map_of_mem hw)
    unfold nearest
    dsimp only
    cases hcm : x.cmp closest with
    | lt =>
      rw [Amount.cmp_eq_lt,hx,hcl] at hcm
      have hlt := fun c' hc' => hcm.trans_le (hm c' hc')
      refine ⟨mem_cons_self,hx,?_,?_⟩
      · exact forall_mem_cons.mpr ⟨le_rfl,fun c' hc' => (hlt c' hc').le⟩
      · simp only [true_iff,forall_mem_cons]
        exact ⟨absurd rfl,fun c' hc' _ => hlt c' hc'⟩
    | eq =>
      rw [Amount.cmp_eq_eq] at hcm
      subst hcm
      refine ⟨mem_cons_of_mem c hw,hcl,?_,?_⟩
      · exact forall_mem_cons.mpr ⟨by omega,hm⟩
      · refine iff_of_false (by simp) fun hal => ?_
        have := hal c mem_cons_self hne
        omega
    | gt =>
      rw [Amount.cmp_eq_gt] at hcm
      refine ⟨mem_cons_of_mem c hw,hcl,?_,?_⟩
      · exact forall_mem_cons.mpr ⟨by omega,hm⟩
      · rw [ho,forall_mem_cons]
        exact ⟨fun hal => ⟨fun _ => by omega,hal⟩,fun hal => hal.2⟩

/-- How far the payment is above what the route of a candidate expects. -/
def far (event : TransferEvent) (contexts : List AutomaticCandidateContext) (c : Candidate) : ℕ :=
  ((contexts.find? (·.route.id = c.routeID)).map (excess event ·.route)).getD 0

lemma Supported.far
    (h : Supported ext event contexts c ctx m) : far event contexts c = excess event ctx.route := by
  simp [CandidateSelection.far,h.found]

lemma foldlM_nearest {before : List Candidate}
    (h : Nearest (far event contexts) before t.best) (hse : t.seen = before.map (·.routeID))
    (hl : cs.foldlM (tieBreakStep ext event contexts) t = some t') :
    Nearest (far event contexts) (cs.reverse ++ before) t'.best := by
  induction cs generalizing before t with
  | nil =>
    cases hl
    exact h
  | cons c cs ih =>
    simp only [foldlM_cons,Option.bind_eq_bind,Option.bind_eq_some_iff] at hl
    obtain ⟨t₁,hst,hr⟩ := hl
    obtain ⟨ctx,m,hsu,hne,-,d,hd,rfl⟩ := tieBreakStep_eq_some.mp hst
    have hx := (Amount.sub_eq_ok.mp hd).2.symm.trans hsu.far.symm
    have hn := ih (h.step (hse ▸ hne) hx) (by rw [hse]; rfl) hr
    rw [reverse_cons,append_assoc]
    exact hn

lemma exists_foldlM_iff {cs : List Candidate} {t : TieBreak} :
    (∃ t', cs.foldlM (tieBreakStep ext event contexts) t = some t') ↔
      (cs.map (·.routeID)).Nodup ∧ (∀ c ∈ cs, c.routeID ∉ t.seen) ∧
        ∃ facts, (∀ r ∈ t.reference, invoice r.1 r.2 = facts) ∧
          ∀ c ∈ cs, ∃ ctx m, Supported ext event contexts c ctx m ∧ invoice ctx m = facts := by
  induction cs generalizing t with
  | nil =>
    refine iff_of_true ⟨t,rfl⟩ ⟨nodup_nil,by simp,?_⟩
    cases t.reference with
    | none => exact ⟨("","","",.zero,"",0,"",""),by simp⟩
    | some r => exact ⟨invoice r.1 r.2,by simp⟩
  | cons c cs ih =>
    simp only [foldlM_cons,Option.bind_eq_bind,Option.bind_eq_some_iff,map_cons,
      nodup_cons,forall_mem_cons]
    constructor
    · rintro ⟨t',t₁,hst,hre⟩
      obtain ⟨ctx,m,hsu,hne,hsame,d,-,rfl⟩ := tieBreakStep_eq_some.mp hst
      obtain ⟨hn,hse,facts,hrf,hal⟩ := ih.mp ⟨t',hre⟩
      refine ⟨⟨fun hme => ?_,hn⟩,⟨hne,fun c' hc' hme => ?_⟩,facts,?_⟩
      · obtain ⟨c',hc',hid⟩ := mem_map.mp hme
        exact hse c' hc' (hid ▸ mem_cons_self)
      · exact hse c' hc' (mem_cons_of_mem _ hme)
      · cases hold : t.reference with
        | none =>
          rw [hold] at hrf
          exact ⟨by simp,⟨ctx,m,hsu,hrf (ctx,m) rfl⟩,hal⟩
        | some r =>
          rw [hold] at hrf hsame
          have hr := hrf r rfl
          exact ⟨by simpa using hr,⟨ctx,m,hsu,(sameInvoice_iff.mp (hsame r rfl)).trans hr⟩,hal⟩
    · rintro ⟨⟨hfr,hn⟩,⟨hne,hse⟩,facts,hrf,⟨ctx,m,hsu,hf⟩,hal⟩
      have ho := overpaid_of_supports hsu.supports
      have hfi := event.amount.fits
      obtain ⟨d,hd⟩ : ∃ d, event.amount.sub ctx.route.expectedAmount = .ok d :=
        ⟨⟨excess event ctx.route,by unfold excess; omega⟩,Amount.sub_eq_ok.mpr ⟨ho.le,rfl⟩⟩
      have hst := tieBreakStep_eq_some.mpr ⟨ctx,m,hsu,hne,
        fun r hr => sameInvoice_iff.mpr (hf.trans (hrf r hr).symm),d,hd,rfl⟩
      have hse' : ∀ c' ∈ cs, c'.routeID ∉ c.routeID::t.seen := by
        intro c' hc' hme
        rcases mem_cons.mp hme with hid | hme
        · exact hfr (mem_map.mpr ⟨c',hc',hid⟩)
        · exact hse c' hc' hme
      have hrf' : ∀ r ∈ t.reference.or (some (ctx,m)), invoice r.1 r.2 = facts := by
        cases hold : t.reference with
        | none => simpa using hf
        | some r => simpa using hrf r hold
      obtain ⟨t',hre⟩ := (ih (t := ⟨c.routeID::t.seen,t.reference.or (some (ctx,m)),
        nearest t.best c d⟩)).mpr ⟨hn,hse',facts,hrf',hal⟩
      exact ⟨t',_,hst,hre⟩

/-- A tie is decided for the candidate that is closer than all others, in whatever order the
loop meets them. -/
lemma loop_iff :
    (∃ t d, cs.foldlM (tieBreakStep ext event contexts) {} = some t ∧ t.best = some (w,d,true)) ↔
      w ∈ cs ∧ (cs.map (·.routeID)).Nodup ∧
        (∃ facts, ∀ c ∈ cs, ∃ ctx m, Supported ext event contexts c ctx m ∧ invoice ctx m = facts) ∧
        ∀ c ∈ cs, c ≠ w → far event contexts w < far event contexts c := by
  have hgo := @exists_foldlM_iff ext event contexts cs {}
  simp only [not_mem_nil,not_false_eq_true,implies_true,true_and,Option.not_mem_none,
    false_implies] at hgo
  have hbe : ∀ t, cs.foldlM (tieBreakStep ext event contexts) {} = some t →
      Nearest (far event contexts) cs.reverse t.best := by
    intro t ht
    have hst : Nearest (far event contexts) [] ({} : TieBreak).best := rfl
    have h := foldlM_nearest hst rfl ht
    rwa [append_nil] at h
  constructor
  · rintro ⟨t,d,ht,hw⟩
    obtain ⟨hn,hf⟩ := hgo.mp ⟨t,ht⟩
    have h := hbe t ht
    rw [hw] at h
    obtain ⟨hme,-,-,ho⟩ := h
    rw [mem_reverse] at hme
    refine ⟨hme,hn,hf,fun c hc hne => ho.mp rfl c (mem_reverse.mpr hc) ?_⟩
    exact fun hid => hne (inj_on_of_nodup_map hn hc hme hid)
  · rintro ⟨hme,hn,hf,hfa⟩
    obtain ⟨t,ht⟩ := hgo.mpr ⟨hn,hf⟩
    have h := hbe t ht
    match hb : t.best with
    | none =>
      rw [hb] at h
      rw [reverse_eq_nil_iff.mp h] at hme
      cases hme
    | some (v,d,only) =>
      rw [hb] at h
      obtain ⟨hv,-,hmi,ho⟩ := h
      rw [mem_reverse] at hv
      have hvw : v = w := by
        by_contra hne
        exact absurd (hfa v hv hne) (hmi w (mem_reverse.mpr hme)).not_gt
      subst hvw
      have htr : only = true := by
        refine ho.mpr fun c hc hid => hfa c (mem_reverse.mp hc) ?_
        exact fun heq => hid (congrArg _ heq)
      exact ⟨t,d,ht,by rw [hb,htr]⟩

lemma score_le_first {a c : Candidate} (hd : Descending (a::cs)) (hc : c ∈ a::cs) :
    c.score ≤ a.score := by
  rcases mem_cons.mp hc with rfl | hc
  · exact le_rfl
  · exact (pairwise_cons.mp hd).1 c hc

lemma takeWhile_eq_filter {s : ℤ} (hd : Descending cs)
    (hm : ∀ c ∈ cs, c.score ≤ s) : cs.takeWhile (·.score = s) = cs.filter (·.score = s) := by
  induction cs with
  | nil => rfl
  | cons a cs ih =>
    obtain ⟨ha,hcs⟩ := forall_mem_cons.mp hm
    by_cases hs : a.score = s
    · rw [takeWhile_cons_of_pos (by simpa using hs),filter_cons_of_pos (by simpa using hs),
        ih (pairwise_cons.mp hd).2 hcs]
    · rw [takeWhile_cons_of_neg (by simpa using hs),eq_comm,filter_eq_nil_iff]
      intro c hc
      have hle := score_le_first hd hc
      simp only [decide_eq_true_eq]
      omega

/-- `w` has the full score, as has another candidate; all with that score are equivalent
invoices, and `w` is the closest. -/
structure Closest (ext : Externals) (event : TransferEvent)
    (contexts : List AutomaticCandidateContext) (cs : List Candidate) (w : Candidate) : Prop where
  mem : w ∈ cs
  full : w.score = 100
  top : ∀ c ∈ cs, c.score ≤ 100
  rival : ∃ c ∈ cs, c ≠ w ∧ c.score = 100
  equivalent : ∃ ctx m, Supported ext event contexts w ctx m ∧ ∀ c ∈ cs, c ≠ w → c.score = 100 →
    ∃ ctx' m', Supported ext event contexts c ctx' m' ∧ sameInvoice ctx' ctx m' m = true ∧
      excess event ctx.route < excess event ctx'.route

/-- The routes of the candidates with the full score. -/
def fullRoutes (cs : List Candidate) : List String :=
  (cs.filter (·.score = 100)).map (·.routeID)

lemma decided_iff {loop : Option TieBreak} :
    (do let t ← loop
        let (winner,_,only) ← t.best
        if only then some winner else none) = some w ↔
      ∃ t d, loop = some t ∧ t.best = some (w,d,true) := by
  simp only [Option.bind_eq_bind,Option.bind_eq_some_iff,Option.ite_none_right_eq_some,
    Option.some.injEq]
  constructor
  · rintro ⟨t,ht,⟨v,d,only⟩,hbe,rfl,rfl⟩
    exact ⟨t,d,ht,hbe⟩
  · rintro ⟨t,d,ht,hbe⟩
    exact ⟨t,ht,_,hbe,rfl,rfl⟩

lemma tieBreak_eq_some_iff (hd : Descending cs) : tieBreak ext event cs contexts = some w ↔
      Closest ext event contexts cs w ∧ (fullRoutes cs).Nodup := by
  match cs, hd with
  | [], _ => exact iff_of_false (by simp [tieBreak]) fun h => by simpa using h.1.mem
  | [a], _ =>
    refine iff_of_false (by simp [tieBreak]) fun ⟨h,_⟩ => ?_
    obtain ⟨c,hc,hne,-⟩ := h.rival
    exact hne ((mem_singleton.mp hc).trans (mem_singleton.mp h.mem).symm)
  | first::second::rest, hd =>
    obtain ⟨hf,hr⟩ := pairwise_cons.mp hd
    have hse := (pairwise_cons.mp hr).1
    unfold tieBreak
    dsimp only
    split_ifs with hsc
    · refine iff_of_false (by simp) fun ⟨h,_⟩ => ?_
      -- one of the two that have the full score is not the first, so it is at most the second
      obtain ⟨c,hc,hne,hso⟩ := h.rival
      have hto : ∀ v ∈ first::second::rest, v.score = 100 → v ≠ first →
          first.score = 100 ∧ second.score = 100 := by
        intro v hv hfu ho
        have hv := (mem_cons.mp hv).resolve_left ho
        have h₁ := hf v hv
        have h₂ := h.top first mem_cons_self
        have h₃ := h.top second (by simp)
        rcases mem_cons.mp hv with rfl | hv
        · exact ⟨by omega,hfu⟩
        · have := hse v hv
          exact ⟨by omega,by omega⟩
      have hbo : first.score = 100 ∧ second.score = 100 := by
        by_cases hw : w = first
        · exact hto c hc hso (hw ▸ hne)
        · exact hto w h.mem h.full hw
      exact hsc.elim (fun hno => hno hbo.1) fun hno => hno hbo.2
    · simp only [not_or,not_not] at hsc
      have hma : ∀ c ∈ first::second::rest, c.score ≤ 100 :=
        forall_mem_cons.mpr ⟨hsc.1.le,hsc.1 ▸ hf⟩
      have hme : ∀ c, c ∈ (first::second::rest).filter (·.score = 100) ↔
          c ∈ first::second::rest ∧ c.score = 100 := fun c => by simp [mem_filter]
      rw [hsc.1,takeWhile_eq_filter hd hma,decided_iff,loop_iff]
      constructor
      · rintro ⟨hw,hn,⟨facts,hfa⟩,hfr⟩
        obtain ⟨ctx,m,hsu,rfl⟩ := hfa w hw
        refine ⟨⟨((hme w).mp hw).1,((hme w).mp hw).2,hma,?_,ctx,m,hsu,?_⟩,hn⟩
        · by_cases heq : first = w
          · refine ⟨second,by simp,fun hsame => ?_,hsc.2⟩
            rw [filter_cons_of_pos (by simpa using hsc.1)] at hn
            refine (nodup_cons.mp hn).1 (mem_map.mpr ⟨second,?_,?_⟩)
            · simp [hsc.2]
            · rw [hsame,heq]
          · exact ⟨first,by simp,heq,hsc.1⟩
        · intro c hc hne hso
          have hc := (hme c).mpr ⟨hc,hso⟩
          obtain ⟨ctx',m',hsu',hsame⟩ := hfa c hc
          have hlt := hfr c hc hne
          rw [hsu.far,hsu'.far] at hlt
          exact ⟨ctx',m',hsu',sameInvoice_iff.mpr hsame,hlt⟩
      · rintro ⟨h,hn⟩
        obtain ⟨ctx,m,hsu,hal⟩ := h.equivalent
        refine ⟨(hme w).mpr ⟨h.mem,h.full⟩,hn,⟨invoice ctx m,fun c hc => ?_⟩,fun c hc hne => ?_⟩
        · by_cases hcw : c = w
          · exact ⟨ctx,m,hcw ▸ hsu,rfl⟩
          · obtain ⟨ctx',m',hsu',hsame,-⟩ := hal c ((hme c).mp hc).1 hcw ((hme c).mp hc).2
            exact ⟨ctx',m',hsu',sameInvoice_iff.mp hsame⟩
        · obtain ⟨ctx',m',hsu',-,hlt⟩ := hal c ((hme c).mp hc).1 hne ((hme c).mp hc).2
          rwa [hsu.far,hsu'.far]

variable {cs' : List Candidate}

lemma Closest.perm (hp : cs.Perm cs')
    (h : Closest ext event contexts cs w) : Closest ext event contexts cs' w := by
  obtain ⟨c,hc,hr⟩ := h.rival
  obtain ⟨ctx,m,hsu,hal⟩ := h.equivalent
  exact ⟨hp.mem_iff.mp h.mem,h.full,fun c hc => h.top c (hp.mem_iff.mpr hc),
    ⟨c,hp.mem_iff.mp hc,hr⟩,ctx,m,hsu,fun c hc => hal c (hp.mem_iff.mpr hc)⟩

/-- What decides: the candidate alone has the best score, or it is the closest of a tie. -/
structure Alone (cs : List Candidate) (w : Candidate) : Prop where
  automatic : Automatic w
  best : cs.filter (w.score ≤ ·.score) = [w]

lemma selectAutomaticCandidate_eq : selectAutomaticCandidate ext event cs contexts =
      (uniqueAutomaticCandidate (cs.insertionSort fun a b => b.score ≤ a.score)).or
        (tieBreak ext event (cs.insertionSort fun a b => b.score ≤ a.score) contexts) := by
  unfold selectAutomaticCandidate
  dsimp only
  cases uniqueAutomaticCandidate (cs.insertionSort fun a b => b.score ≤ a.score) with
  | some w | none => rfl

lemma alone_iff (hd : Descending cs) : Alone cs w ↔ uniqueAutomaticCandidate cs = some w := by
  rw [unique_iff hd]
  exact ⟨fun h => ⟨h.1,h.2⟩,fun h => ⟨h.1,h.2⟩⟩

lemma Alone.perm (hp : cs.Perm cs') (h : Alone cs w) : Alone cs' w := by
  refine ⟨h.automatic,perm_singleton.mp ?_⟩
  rw [← h.best]
  exact (hp.filter _).symm

lemma select_iff : selectAutomaticCandidate ext event cs contexts = some w ↔
      Alone cs w ∨ Closest ext event contexts cs w ∧ (fullRoutes cs).Nodup := by
  have hp := perm_insertionSort (fun a b : Candidate => b.score ≤ a.score) cs
  have hd : Descending (cs.insertionSort fun a b => b.score ≤ a.score) :=
    pairwise_insertionSort _ cs
  rw [selectAutomaticCandidate_eq]
  generalize (cs.insertionSort fun a b => b.score ≤ a.score) = ranked at hp hd
  have hal : Alone cs w ↔ uniqueAutomaticCandidate ranked = some w :=
    (Iff.intro (Alone.perm hp.symm) (Alone.perm hp)).trans (alone_iff hd)
  have hcl : Closest ext event contexts cs w ∧ (fullRoutes cs).Nodup ↔
      tieBreak ext event ranked contexts = some w := by
    rw [tieBreak_eq_some_iff hd,fullRoutes,fullRoutes,((hp.filter _).map _).nodup_iff]
    exact and_congr_left fun _ => ⟨Closest.perm hp.symm,Closest.perm hp⟩
  rw [Option.or_eq_some_iff,hal,hcl]
  refine or_congr_right ⟨fun h => h.2,fun h => ⟨?_,h⟩⟩
  -- two candidates with the full score leave no unique one
  obtain ⟨hw,-⟩ := hcl.mpr h
  obtain ⟨c,hc,hne,hsc⟩ := hw.rival
  refine Option.eq_none_iff_forall_ne_some.mpr fun v hv => hne ?_
  obtain ⟨-,hf⟩ := (unique_iff hd).mp hv
  have hv := (mem_filter.mp (hf ▸ mem_singleton_self v)).1
  have hto := hw.top v (hp.mem_iff.mp hv)
  have ho : ∀ x ∈ cs, x.score = 100 → x = v := by
    intro x hx hfu
    refine mem_singleton.mp (hf ▸ mem_filter.mpr ⟨hp.mem_iff.mpr hx,?_⟩)
    simpa [hfu] using hto
  rw [ho c hc hsc,ho w hw.mem hw.full]

lemma select_perm (hp : cs'.Perm cs) : selectAutomaticCandidate ext event cs' contexts =
      selectAutomaticCandidate ext event cs contexts := by
  apply Option.ext
  intro w
  rw [select_iff,select_iff,fullRoutes,((hp.filter _).map _).nodup_iff]
  constructor
  · exact Or.imp (Alone.perm hp) (And.imp_left (Closest.perm hp))
  · exact Or.imp (Alone.perm hp.symm) (And.imp_left (Closest.perm hp.symm))

/-- The candidates with the highest score. -/
def topScored (cs : List Candidate) : List Candidate :=
  cs.filter fun c => ∀ d ∈ cs, d.score ≤ c.score

lemma mem_topScored : c ∈ topScored cs ↔ c ∈ cs ∧ ∀ d ∈ cs, d.score ≤ c.score := by
  simp [topScored]

lemma closest_of_tied (hti : 2 ≤ (topScored cs).length)
    (h : selectAutomaticCandidate ext event cs contexts = some w) :
    Closest ext event contexts cs w ∧ (fullRoutes cs).Nodup := by
  refine (select_iff.mp h).resolve_left fun hal => ?_
  have hw := (mem_filter.mp (hal.best ▸ mem_singleton_self w)).1
  have hsu : (topScored cs).Sublist (cs.filter (w.score ≤ ·.score)) := by
    refine monotone_filter_right cs fun c hc => ?_
    simp only [decide_eq_true_eq] at hc ⊢
    exact hc w hw
  have hl := hsu.length_le
  rw [hal.best,length_singleton] at hl
  omega

lemma Closest.topScored
    (h : Closest ext event contexts cs w) : topScored cs = cs.filter (·.score = 100) := by
  refine filter_congr fun c hc => decide_eq_decide.mpr ⟨fun hal => ?_,fun hf d hd => ?_⟩
  · exact le_antisymm (h.top c hc) (h.full ▸ hal w h.mem)
  · exact hf ▸ h.top d hd

end Ocrypt.CandidateSelection
