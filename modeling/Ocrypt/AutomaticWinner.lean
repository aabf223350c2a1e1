import Ocrypt.CandidateTruncation

/-! The winner among the candidate routes of a transfer: it does not depend on the order of the
routes, and the scores let a route win only with a payment that belongs to it. -/
namespace Ocrypt.AutomaticWinner
open Money Domain Matching Store Candidates CandidateSelection CandidateTruncation List

variable (event : TransferEvent) (r : PaymentRoute)

abbrev InWindow : Prop :=
  r.startsAt ≤ event.onChainTime ∧ event.onChainTime ≤ r.expiresAt

abbrev Late : Prop := r.expiresAt < event.onChainTime

structure Addressed : Prop where
  chain : r.chainID = event.identity.chainID
  recipient : r.address = event.identity.toAddress
  asset : r.assetID = event.identity.assetID

/-- A payment for exactly this route: its chain, recipient, asset and amount, inside its window. -/
structure Exact : Prop extends Addressed event r where
  amount : event.amount = r.expectedAmount
  window : InWindow event r

structure Deserving : Prop extends Addressed event r where
  time : InWindow event r ∨ (r.expiresAt < event.onChainTime ∧
    event.onChainTime ≤ min (r.expiresAt+30*minute) r.graceEndsAt)
  enough : r.expectedAmount.n - r.expectedAmount.n*500 / 10000 ≤ event.amount.n
  late : Late event r → event.amount.n ≤ r.expectedAmount.n

section

variable (event : TransferEvent) (r : PaymentRoute) (now : ℤ)

lemma timeEvidence_cases :
    (InWindow event r ∧ timeEvidence event r = (40,["within_payment_window"])) ∨
      (Late event r ∧ event.onChainTime ≤ automaticLatePaymentDeadline r ∧
        timeEvidence event r = (10,[automaticLateGraceReason])) ∨
      (¬InWindow event r ∧ (timeEvidence event r = (5,["within_manual_late_grace"]) ∨
        timeEvidence event r = (-10,["before_route_start"]) ∨
        timeEvidence event r = (-10,["after_late_grace"]))) := by
  unfold timeEvidence
  dsimp only
  split_ifs with hw hg hm hbe
  · exact .inl ⟨hw,rfl⟩
  · exact .inr (.inl ⟨hg.1,hg.2,rfl⟩)
  · exact .inr (.inr ⟨hw,.inl rfl⟩)
  · exact .inr (.inr ⟨hw,.inr (.inl rfl)⟩)
  · exact .inr (.inr ⟨hw,.inr (.inr rfl)⟩)

lemma enough_of_tolerance {received expected : Amount}
    (h : underpaymentWithinTolerance received expected candidateCloseAmountToleranceBPS = true) :
    expected.n - expected.n*500 / 10000 ≤ received.n := by
  unfold underpaymentWithinTolerance at h
  split_ifs at h
  obtain ⟨d,hsu,hle⟩ := within_of_tolerance h
  have hsh := Amount.sub_eq_ok.mp hsu
  omega

lemma amountEvidence_cases : (event.amount = r.expectedAmount ∧
        amountEvidence event r now = (.exact,55,["exact_amount"])) ∨
      (underpaymentWithinTolerance event.amount r.expectedAmount
          candidateCloseAmountToleranceBPS = true ∧ event.amount.n < r.expectedAmount.n ∧
        (amountEvidence event r now =
            (.partialPayment,50,["underpayment_within_five_percent", "route_still_open"]) ∨
          amountEvidence event r now = (.underpaid,45,["underpayment_within_five_percent"]))) ∨
      (amountEvidence event r now = (.partialPayment,10,["below_expected_before_expiry"]) ∨
        amountEvidence event r now = (.underpaid,5,["below_expected"])) ∨
      (r.expectedAmount.n < event.amount.n ∧
        (amountEvidence event r now = (.overpaid,30,["overpayment_within_five_percent"]) ∨
          amountEvidence event r now = (.overpaid,5,["above_expected"]))) := by
  unfold amountEvidence
  cases hcm : event.amount.cmp r.expectedAmount with
  | eq => exact .inl ⟨Amount.cmp_eq_eq.mp hcm,rfl⟩
  | lt =>
    dsimp only
    split_ifs with hto ho ho
    · exact .inr (.inl ⟨hto,Amount.cmp_eq_lt.mp hcm,.inl rfl⟩)
    · exact .inr (.inl ⟨hto,Amount.cmp_eq_lt.mp hcm,.inr rfl⟩)
    · exact .inr (.inr (.inl (.inl rfl)))
    · exact .inr (.inr (.inl (.inr rfl)))
  | gt =>
    dsimp only
    split_ifs with hto
    · exact .inr (.inr (.inr ⟨Amount.cmp_eq_gt.mp hcm,.inl rfl⟩))
    · exact .inr (.inr (.inr ⟨Amount.cmp_eq_gt.mp hcm,.inr rfl⟩))

lemma not_mem_amountReasons : "within_payment_window" ∉ (amountEvidence event r now).2.2 ∧
    automaticLateGraceReason ∉ (amountEvidence event r now).2.2 := by
  rcases amountEvidence_cases event r now with ⟨-,h⟩ | ⟨-,-,h | h⟩ | (h | h) | ⟨-,h | h⟩ <;>
    simp [h,automaticLateGraceReason]

lemma timePoints_le : (timeEvidence event r).1 ≤ 40 ∧
    ((timeEvidence event r).1 = 40 → InWindow event r) := by
  rcases timeEvidence_cases event r with ⟨hin,h⟩ | ⟨-,-,h⟩ | ⟨-,h | h | h⟩ <;> rw [h]
  · exact ⟨le_rfl,fun _ => hin⟩
  all_goals exact ⟨by decide,fun h => absurd h (by decide)⟩

lemma amountPoints_le : (amountEvidence event r now).2.1 ≤ 55 ∧
    ((amountEvidence event r now).2.1 = 55 → event.amount = r.expectedAmount) ∧
    ((amountEvidence event r now).1 = .overpaid → (amountEvidence event r now).2.1 ≤ 30) := by
  rcases amountEvidence_cases event r now with
    ⟨heq,h⟩ | ⟨-,-,h | h⟩ | (h | h) | ⟨-,h | h⟩ <;> rw [h]
  · exact ⟨le_rfl,fun _ => heq,by decide⟩
  all_goals exact ⟨by decide,fun h => absurd h (by decide),by decide⟩

end

/-- What the candidate of a route of the right asset consists of. -/
structure Scored (now : ℤ) (r : PaymentRoute) (c : Candidate) : Prop where
  score : c.score = 30+(timeEvidence event r).1+(amountEvidence event r now).2.1
  classified : c.exceptionClass =
    if Late event r then .late else (amountEvidence event r now).1
  reasons : c.reasons = ["same_chain", "same_recipient"] ++ (timeEvidence event r).2 ++
    (if Late event r then ["after_expiry"] else []) ++ (amountEvidence event r now).2.2

variable {c w : Candidate}

section

variable {event : TransferEvent} {r : PaymentRoute} {now : ℤ}

lemma routeCandidate_scored (h : routeCandidate event now r = some c) :
    (r.assetID ≠ event.identity.assetID ∧ c.exceptionClass = .wrongAsset ∧ c.score = 35) ∨
      (Addressed event r ∧ Scored event now r c) := by
  unfold routeCandidate at h
  dsimp only at h
  split_ifs at h with ho has hl
  · cases h
    exact .inl ⟨has,rfl,rfl⟩
  all_goals
    have hsame := not_or.mp ho
    cases h
    refine .inr ⟨⟨not_not.mp hsame.1,not_not.mp hsame.2,not_not.mp has⟩,rfl,?_,?_⟩
  · rw [if_pos hl]
  · rw [if_pos hl]
  · rw [if_neg hl]
  · rw [if_neg hl]

/-- The list that is ranked holds the candidates of the routes; the one of a lone large
overpayment is rewarded. -/
inductive Ranked (event : TransferEvent) (now : ℤ) (r : PaymentRoute) : Candidate → Prop
  | plain {c : Candidate} (h : routeCandidate event now r = some c) : Ranked event now r c
  | rewarded {c : Candidate} (h : routeCandidate event now r = some c)
      (hover : c.exceptionClass = .overpaid) : Ranked event now r
        { c with score := c.score+10, reasons := c.reasons ++ ["unique_route_candidate"] }

lemma Scored.deserving (hsc : Scored event now r c) (had : Addressed event r)
    (hcl : w.exceptionClass = c.exceptionClass)
    (hre : ∀ reason ≠ "unique_route_candidate",
      candidateHasReason w reason = candidateHasReason c reason)
    (hso : w.exceptionClass = .late → w.score = c.score) (hau : Automatic w) :
    Deserving event r := by
  have hwn := hau.window
  rw [hre _ (by decide),hre _ (by decide)] at hwn
  have he := hau.enough
  rw [hre _ (by decide)] at he
  rcases timeEvidence_cases event r with ⟨hin,hti⟩ | ⟨hl,hd,hti⟩ | ⟨-,hti⟩
  · have hn : ¬Late event r := not_lt.mpr hin.2
    refine ⟨had,.inl hin,?_,fun h => absurd h hn⟩
    rw [hcl,hsc.classified,if_neg hn] at he
    rcases amountEvidence_cases event r now with ⟨heq,-⟩ | ⟨htl,-,-⟩ | hlo | ⟨hgt,-⟩
    · rw [heq]
      omega
    · exact enough_of_tolerance htl
    · have hno : candidateHasReason c "underpayment_within_five_percent" = false := by
        rcases hlo with hlo | hlo <;>
          simp [candidateHasReason,hsc.reasons,hti,hlo]
      rcases hlo with hlo | hlo <;> simp [hlo,hno] at he
    · omega
  · have hla : w.exceptionClass = .late := by rw [hcl,hsc.classified,if_pos hl]
    have hp : 75 ≤ w.score := hau.score
    rw [hso hla,hsc.score,hti] at hp
    have htm : event.onChainTime ≤ min (r.expiresAt+30*minute) r.graceEndsAt := by
      rw [automaticLatePaymentDeadline_eq_min] at hd
      exact hd
    rcases amountEvidence_cases event r now with ⟨heq,-⟩ | ⟨htl,hlt,-⟩ | hlo | ⟨-,hlo⟩
    · refine ⟨had,.inr ⟨hl,htm⟩,?_,fun _ => heq ▸ le_rfl⟩
      rw [heq]
      omega
    · exact ⟨had,.inr ⟨hl,htm⟩,enough_of_tolerance htl,fun _ => hlt.le⟩
    · rcases hlo with hlo | hlo <;> simp [hlo] at hp
    · rcases hlo with hlo | hlo <;> simp [hlo] at hp
  · have hno : candidateHasReason c "within_payment_window" = false ∧
        candidateHasReason c automaticLateGraceReason = false := by
      obtain ⟨hwi,hg⟩ := not_mem_amountReasons event r now
      unfold candidateHasReason
      rw [hsc.reasons]
      rcases hti with hti | hti | hti <;> by_cases hl : Late event r <;>
        simp [hti,hl,hwi,hg] <;> decide
    simp [hno.1,hno.2] at hwn

lemma Ranked.score_le (h : Ranked event now r w) :
    w.score ≤ 125 ∧ (w.score = 125 → Exact event r) := by
  obtain ⟨hti,hwi⟩ := timePoints_le event r
  obtain ⟨ham,he,ho⟩ := amountPoints_le event r now
  cases h with
  | plain hc =>
    obtain ⟨-,-,hso⟩ | ⟨had,hsc⟩ := routeCandidate_scored hc
    · omega
    · have hso := hsc.score
      exact ⟨by omega,fun h125 =>
        ⟨had,he (by omega),hwi (by omega)⟩⟩
  | @rewarded c hc hcl =>
    obtain ⟨-,hwr,-⟩ | ⟨-,hsc⟩ := routeCandidate_scored hc
    · cases hwr.symm.trans hcl
    · rw [hsc.classified] at hcl
      split at hcl
      · cases hcl
      · have hso := hsc.score
        have hp := ho hcl
        dsimp only
        omega

lemma Ranked.routeID (h : Ranked event now r w) : w.routeID = r.id := by
  cases h with
  | plain hc | rewarded hc _ => exact (routeCandidate_eq_some hc).1

lemma Ranked.deserving (h : Ranked event now r w) (hau : Automatic w) : Deserving event r := by
  have hso75 : 75 ≤ w.score := hau.score
  cases h with
  | plain hc =>
    obtain ⟨-,-,hso⟩ | ⟨had,hsc⟩ := routeCandidate_scored hc
    · omega
    · exact hsc.deserving had rfl (fun _ _ => rfl) (fun _ => rfl) hau
  | @rewarded c hc hcl =>
    obtain ⟨-,hwr,-⟩ | ⟨had,hsc⟩ := routeCandidate_scored hc
    · cases hwr.symm.trans hcl
    · refine hsc.deserving (w := { c with
          score := c.score+10
          reasons := c.reasons ++ ["unique_route_candidate"] })
        had rfl (fun reason hre => ?_) (fun hl => ?_) hau
      · simp [candidateHasReason,hre]
      · cases hcl.symm.trans hl

lemma Exact.candidate (h : Exact event r) (now : ℤ) :
    ∃ c, routeCandidate event now r = some c ∧ c.score = 125 ∧ c.exceptionClass = .exact ∧
      Automatic c := by
  have hti : timeEvidence event r = (40,["within_payment_window"]) := by
    unfold timeEvidence
    rw [if_pos h.window]
  have ham : amountEvidence event r now = (.exact,55,["exact_amount"]) := by
    unfold amountEvidence
    rw [Amount.cmp_eq_eq.mpr h.amount]
  cases hc : routeCandidate event now r with
  | none =>
    unfold routeCandidate at hc
    rw [if_neg (by simp [h.chain,h.recipient]),if_neg (by simp [h.asset])] at hc
    cases hc
  | some c =>
    obtain ⟨hw,-⟩ | ⟨-,hsc⟩ := routeCandidate_scored hc
    · exact absurd h.asset hw
    have hn : ¬Late event r := not_lt.mpr h.window.2
    have hso := hsc.score
    have hcl := hsc.classified
    rw [hti,ham] at hso
    rw [ham,if_neg hn] at hcl
    refine ⟨c,rfl,hso,hcl,?_,?_,.inl ?_,?_⟩
    · rw [hso]
      decide
    · rw [hcl]
      decide
    · simp [candidateHasReason,hsc.reasons,hti]
    · rw [hcl]
      rintro (h | h) <;> cases h

end

variable {routes : List PaymentRoute}

section

variable {cs ds : List Candidate}

lemma rewardUnique_of_length_ne (h : cs.length ≠ 1) : rewardUnique cs = cs := by
  match cs, h with
  | [], _ => rfl
  | _::_::_, _ => rfl

lemma rewardUnique_ids : (rewardUnique cs).map (·.routeID) = cs.map (·.routeID) := by
  by_cases h : cs.length = 1
  · obtain ⟨c,rfl⟩ := length_eq_one_iff.mp h
    unfold rewardUnique
    dsimp only
    split
    · rfl
    · rfl
  · rw [rewardUnique_of_length_ne h]

lemma rewardUnique_perm (h : cs.Perm ds) : (rewardUnique cs).Perm (rewardUnique ds) := by
  by_cases hl : cs.length = 1
  · obtain ⟨c,rfl⟩ := length_eq_one_iff.mp hl
    rw [singleton_perm.mp h]
  · rw [rewardUnique_of_length_ne hl,rewardUnique_of_length_ne (h.length_eq ▸ hl)]
    exact h

lemma mem_ranked {event : TransferEvent} {now : ℤ}
    (h : w ∈ rewardUnique (candidatesOf event now routes)) : ∃ r ∈ routes, Ranked event now r w := by
  by_cases hl : (candidatesOf event now routes).length = 1
  · obtain ⟨c,hc⟩ := length_eq_one_iff.mp hl
    obtain ⟨r,hr,hca⟩ := mem_filterMap.mp
      (show c ∈ candidatesOf event now routes by rw [hc]; exact mem_singleton_self c)
    rw [hc] at h
    unfold rewardUnique at h
    dsimp only at h
    split_ifs at h with ho
    · rw [mem_singleton.mp h]
      exact ⟨r,hr,.rewarded hca ho.1⟩
    · rw [mem_singleton.mp h]
      exact ⟨r,hr,.plain hca⟩
  · rw [rewardUnique_of_length_ne hl] at h
    obtain ⟨r,hr,hca⟩ := mem_filterMap.mp h
    exact ⟨r,hr,.plain hca⟩

lemma mem_rewardUnique (h : c ∈ cs) (hcl : c.exceptionClass ≠ .overpaid) : c ∈ rewardUnique cs := by
  by_cases hl : cs.length = 1
  · obtain ⟨d,rfl⟩ := length_eq_one_iff.mp hl
    cases mem_singleton.mp h
    unfold rewardUnique
    dsimp only
    rw [if_neg fun ho => hcl ho.1]
    exact h
  · rw [rewardUnique_of_length_ne hl]
    exact h

end

section

variable {event : TransferEvent} {now : ℤ}

section
variable (hi : (routes.map (·.id)).Nodup)
include hi

lemma nodup_ranked : (rewardUnique (candidatesOf event now routes)).Nodup := by
  apply List.Nodup.of_map (·.routeID)
  rw [rewardUnique_ids]
  exact nodup_candidatesOf hi

lemma winner_iff : uniqueAutomaticCandidate (buildCandidates event routes now) = some w ↔
      w ∈ rewardUnique (candidatesOf event now routes) ∧ Automatic w ∧
        ∀ c ∈ rewardUnique (candidatesOf event now routes), c ≠ w → c.score < w.score :=
  unique_built_iff (nodup_ranked hi)

lemma winner_perm {routes' : List PaymentRoute} (hp : routes'.Perm routes) :
    uniqueAutomaticCandidate (buildCandidates event routes' now) =
      uniqueAutomaticCandidate (buildCandidates event routes now) := by
  have hr := rewardUnique_perm (hp.filterMap (routeCandidate event now))
  apply Option.ext
  intro w
  rw [winner_iff hi,winner_iff ((hp.map (·.id)).nodup_iff.mpr hi)]
  simp [hr.mem_iff]

end

lemma exists_ranked_of_mem (h : c ∈ buildCandidates event routes now) :
    ∃ d ∈ rewardUnique (candidatesOf event now routes), d.routeID = c.routeID ∧ d.score = c.score := by
  have hk := map_markAmbiguous (fun c : Candidate => (c.routeID,c.score)) (fun _ => rfl)
    ((rewardUnique (candidatesOf event now routes)).insertionSort Ranks)
  have hm := mem_map_of_mem (f := fun c : Candidate => (c.routeID,c.score)) h
  rw [buildCandidates,hk] at hm
  obtain ⟨d,hd,heq⟩ := mem_map.mp hm
  have hfi := Prod.mk.inj heq
  exact ⟨d,(perm_insertionSort Ranks _).mem_iff.mp hd,hfi.1,hfi.2⟩

/-- The winner among the candidates of a transfer is the same for every order of the routes. It
belongs to a deserving route with the strictly highest score. Two exact payments leave no winner,
and a single exact one always wins. -/
theorem automatic_winner (event : TransferEvent) (now : ℤ) (routes : List PaymentRoute)
    (hids : (routes.map (·.id)).Nodup) :
    let winner := uniqueAutomaticCandidate (buildCandidates event routes now)
    (∀ routes', routes'.Perm routes →
        uniqueAutomaticCandidate (buildCandidates event routes' now) = winner) ∧
      (∀ w ∈ winner, ∃ r ∈ routes, w.routeID = r.id ∧ Deserving event r ∧
        ∀ c ∈ buildCandidates event routes now, c.routeID ≠ w.routeID → c.score < w.score) ∧
      ((∃ r ∈ routes, ∃ r' ∈ routes, r.id ≠ r'.id ∧ Exact event r ∧ Exact event r') →
        winner = none) ∧
      ∀ r ∈ routes, Exact event r → (∀ r' ∈ routes, Exact event r' → r' = r) →
        ∃ w, winner = some w ∧ w.routeID = r.id := by
  refine ⟨fun routes' hp => winner_perm hids hp,fun w hw => ?_,?_,fun r hr he hon => ?_⟩
  · obtain ⟨hm,hau,hma⟩ := (winner_iff hids).mp hw
    obtain ⟨r,hr,hra⟩ := mem_ranked hm
    refine ⟨r,hr,hra.routeID,hra.deserving hau,fun c hc hne => ?_⟩
    obtain ⟨d,hd,hid,hsc⟩ := exists_ranked_of_mem hc
    rw [← hsc]
    exact hma d hd fun heq => hne (by rw [← hid,heq])
  · rintro ⟨r,hr,r',hr',hne,he,he'⟩
    rw [Option.eq_none_iff_forall_ne_some]
    intro w hw
    obtain ⟨hm,-,hma⟩ := (winner_iff hids).mp hw
    obtain ⟨s,-,hra⟩ := mem_ranked hm
    -- Both exact candidates have the highest score, and one of them is not the winner.
    have hbe : ∀ x ∈ routes, Exact event x → w.routeID = x.id := by
      intro x hx hxe
      obtain ⟨c,hc,hsc,hcl,-⟩ := hxe.candidate now
      have hcm := mem_rewardUnique (mem_filterMap.mpr ⟨x,hx,hc⟩) (by rw [hcl]; decide)
      by_contra ho
      have hlt := hma c hcm fun heq => ho (by rw [← heq,(routeCandidate_eq_some hc).1])
      have hle := hra.score_le.1
      omega
    exact hne ((hbe r hr he).symm.trans (hbe r' hr' he'))
  · obtain ⟨c,hc,hsc,hcl,hau⟩ := he.candidate now
    have hcm := mem_rewardUnique (mem_filterMap.mpr ⟨r,hr,hc⟩) (by rw [hcl]; decide)
    refine ⟨c,(winner_iff hids).mpr ⟨hcm,hau,fun d hd hne => ?_⟩,(routeCandidate_eq_some hc).1⟩
    obtain ⟨s,hs,hra⟩ := mem_ranked hd
    obtain ⟨hle,hto⟩ := hra.score_le
    refine lt_of_le_of_ne (by omega) fun hsame => hne ?_
    have hsr : s = r := hon s hs (hto (by omega))
    apply inj_on_of_nodup_map (f := (·.routeID)) _ hd hcm
    · rw [hra.routeID,hsr,(routeCandidate_eq_some hc).1]
    · rw [rewardUnique_ids]
      exact nodup_candidatesOf hids

theorem automatic_winner_sample : let routes := [Workers.sampleRouteTo "route" "TMerchant",
      { Workers.sampleRouteTo "other" "TMerchant" with expectedAmount := ⟨101,by decide⟩ }]
    (routes.map (·.id)).Nodup ∧ ∃ w, uniqueAutomaticCandidate (buildCandidates
      (Workers.samplePayment "pay" ⟨100,by decide⟩ "block-7") routes 60) = some w ∧
      w.routeID = "route" := by
  refine ⟨by decide,(automatic_winner _ 60 _ (by decide)).2.2.2 _ mem_cons_self
    ⟨⟨rfl,rfl,rfl⟩,rfl,by decide⟩ fun r' hr' he => ?_⟩
  rcases mem_cons.mp hr' with rfl | hr'
  · rfl
  · rw [mem_singleton.mp hr'] at he
    exact absurd he.amount (by decide)

end

section

/-- The route of a tied candidate: the payment lies in its window and is slightly above it. -/
structure Competes (event : TransferEvent) (r : PaymentRoute) : Prop
    extends Addressed event r where
  decimals : r.assetDecimals = event.assetDecimals
  window : InWindow event r
  above : r.expectedAmount.n < event.amount.n
  close : event.amount.n - r.expectedAmount.n ≤ r.expectedAmount.n*500 / 10000

variable {ext : Externals} {event : TransferEvent} {contexts : List AutomaticCandidateContext}

lemma competes_of_supported {ctx : AutomaticCandidateContext} {m : String}
    (h : Supported ext event contexts c ctx m) : Competes event ctx.route := by
  have ho := overpaid_of_supports h.supports
  have hsu := h.supports
  simp only [contextSupports,Bool.and_eq_true,decide_eq_true_eq] at hsu
  obtain ⟨⟨⟨⟨⟨⟨⟨⟨-,hch⟩,has⟩,hr⟩,hd⟩,hst⟩,he⟩,-⟩,hcl⟩ := hsu
  exact ⟨⟨hch,hr,has⟩,hd,⟨hst,he⟩,ho,excess_of_tolerance hcl⟩

/-- The selection does not depend on the order of the candidates. A winner of a tie is strictly
closer than every other candidate with the top score, and all of them compete for one invoice. -/
theorem tied_winner_is_closest (ext : Externals) (event : TransferEvent)
    (contexts : List AutomaticCandidateContext) (cs : List Candidate) :
    (∀ cs', cs'.Perm cs → selectAutomaticCandidate ext event cs' contexts =
        selectAutomaticCandidate ext event cs contexts) ∧
      ∀ w, selectAutomaticCandidate ext event cs contexts = some w → 2 ≤ (topScored cs).length →
        w ∈ topScored cs ∧ ((topScored cs).map (·.routeID)).Nodup ∧
        (∃ facts, ∀ c ∈ topScored cs, ∃ ctx ∈ contexts, ∃ m, ctx.route.id = c.routeID ∧
          Competes event ctx.route ∧
          ext.canonicalCandidateMetadata ctx.intent.metadata = some m ∧ invoice ctx m = facts) ∧
        ∀ c ∈ topScored cs, c ≠ w → far event contexts w < far event contexts c := by
  refine ⟨fun cs' hp => select_perm hp,fun w hw hti => ?_⟩
  obtain ⟨hcl,hn⟩ := closest_of_tied hti hw
  obtain ⟨ctx,m,hsu,hal⟩ := hcl.equivalent
  have hf : ∀ c ∈ topScored cs, c ∈ cs ∧ c.score = 100 := by
    intro c hc
    rw [hcl.topScored] at hc
    simpa [mem_filter] using hc
  have hfa : ∀ c ∈ topScored cs, ∃ ctx' m', Supported ext event contexts c ctx' m' ∧
      invoice ctx' m' = invoice ctx m := by
    intro c hc
    by_cases hcw : c = w
    · exact ⟨ctx,m,hcw ▸ hsu,rfl⟩
    · obtain ⟨ctx',m',hsu',hsame,-⟩ := hal c (hf c hc).1 hcw (hf c hc).2
      exact ⟨ctx',m',hsu',sameInvoice_iff.mp hsame⟩
  refine ⟨?_,?_,⟨invoice ctx m,fun c hc => ?_⟩,fun c hc hne => ?_⟩
  · exact mem_topScored.mpr ⟨hcl.mem,hcl.full ▸ hcl.top⟩
  · rw [hcl.topScored]
    exact hn
  · obtain ⟨ctx',m',hsu',hsame⟩ := hfa c hc
    obtain ⟨hm,hid⟩ := Table.mem_of_find? hsu'.found
    exact ⟨ctx',hm,m',hid,competes_of_supported hsu',hsu'.readable,hsame⟩
  · obtain ⟨ctx',m',hsu',-,hlt⟩ := hal c (hf c hc).1 hne (hf c hc).2
    rwa [hsu.far,hsu'.far]

theorem tied_winner_sample : let tied (id : String) : Candidate :=
      ⟨id,"intent",.overpaid,100,none,["within_payment_window", "overpayment_within_five_percent"]⟩
    let route (id : String) (expected : Amount) : AutomaticCandidateContext :=
      ⟨{ Workers.sampleRouteTo id "TMerchant" with expectedAmount := expected },Workers.sampleIntent⟩
    let contexts := [route "near" ⟨102,by decide⟩,route "far" ⟨101,by decide⟩]
    let event := Workers.samplePayment "pay" ⟨104,by decide⟩ "block-7"
    selectAutomaticCandidate Workers.sampleExternals event [tied "near",tied "far"] contexts =
        some (tied "near") ∧
      CandidateSelection.far event contexts (tied "near") <
        CandidateSelection.far event contexts (tied "far") := by
  intro tied route contexts event
  have hw : selectAutomaticCandidate Workers.sampleExternals event [tied "near",tied "far"]
      contexts = some (tied "near") := by decide +kernel
  exact ⟨hw,((tied_winner_is_closest _ event contexts [tied "near",tied "far"]).2 _ hw
    (by decide)).2.2.2 (tied "far") (by decide) (by decide)⟩

end

end Ocrypt.AutomaticWinner
