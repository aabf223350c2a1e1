import Ocrypt.CandidateSelection
import Ocrypt.Workers

/-! The bound on the candidate list: when the winner among the hundred newest routes of an
address is also the winner among all of them. -/
namespace Ocrypt.CandidateTruncation
open Money Domain Fallible Store Candidates CandidateSelection Settlement Workers List

variable (ext : Externals) (db : Database)

/-- What the candidates would be without the bound: no route is hidden and none is marked. -/
def completeCandidates (event : TransferEvent) (now : ℤ) : Potential :=
  match matchingRoutes db event with
  | [] => { classification := "no_candidate_route" }
  | first::rest =>
    if (first::rest).any (·.tenantID ≠ first.tenantID) then
      { classification := "cross_tenant_ambiguous" }
    else
      let candidates := buildCandidates event (first::rest) now
      { candidates
        tenantID := first.tenantID
        classification := match candidates with
          | [] => "no_candidate_route"
          | c::_ => c.exceptionClass.text }

/-- The candidate that is settled without an operator, as an ingest chooses it. -/
def automaticWinner (event : TransferEvent) (p : Potential) : Option Candidate :=
  if p.tenantID = "" then none
  else selectAutomaticCandidate ext event p.candidates
    (loadAutomaticCandidateContexts db p.candidates p.tenantID)

variable {a b : Candidate}

/-- The distance of a candidate to its expected amount; unknown ones come last. -/
def distance (c : Candidate) : WithTop ℕ :=
  match c.amountDelta with
  | some d => d.natAbs
  | none => ⊤

lemma compareCandidateAmountDistance_lt {a b : Candidate} :
    compareCandidateAmountDistance a b = .lt ↔ distance a < distance b := by
  unfold compareCandidateAmountDistance distance
  cases a.amountDelta <;> cases b.amountDelta <;> simp [compare_lt_iff_lt]

lemma compareCandidateAmountDistance_eq {a b : Candidate} :
    compareCandidateAmountDistance a b = .eq ↔ distance a = distance b := by
  unfold compareCandidateAmountDistance distance
  cases a.amountDelta <;> cases b.amountDelta <;> simp

abbrev Ranks (a b : Candidate) : Prop := candidateBefore b a = false

lemma ranks_iff : Ranks a b ↔ b.score < a.score ∨ (a.score = b.score ∧ (distance a < distance b ∨
      (distance a = distance b ∧ a.routeID ≤ b.routeID))) := by
  unfold Ranks candidateBefore
  by_cases hsc : b.score = a.score
  · rw [if_pos hsc]
    have hlt := @compareCandidateAmountDistance_lt b a
    have heq := @compareCandidateAmountDistance_eq b a
    cases hcm : compareCandidateAmountDistance b a with
    | lt =>
      have hba := hlt.mp hcm
      simp [hsc,hba.not_gt,hba.ne']
    | eq =>
      have hba := heq.mp hcm
      rw [decide_eq_false_iff_not,not_lt]
      simp [hsc,hba]
    | gt =>
      have hn : ¬distance b < distance a := fun h => by simp [hlt.mpr h] at hcm
      have hne : distance b ≠ distance a := fun h => by simp [heq.mpr h] at hcm
      have hab := lt_of_le_of_ne (not_lt.mp hn) hne.symm
      simp [hsc,hab]
  · rw [if_neg hsc]
    have hne : a.score ≠ b.score := fun h => hsc h.symm
    simp only [hne,false_and,or_false,decide_eq_false_iff_not]
    omega

lemma ranks_iff_lex : Ranks a b ↔
    toLex (-a.score,toLex (distance a,a.routeID)) ≤ toLex (-b.score,toLex (distance b,b.routeID)) := by
  rw [ranks_iff,Prod.Lex.toLex_le_toLex,Prod.Lex.toLex_le_toLex]
  simp

instance : IsTrans Candidate Ranks := ⟨fun _ _ _ hab hbc =>
  ranks_iff_lex.mpr ((ranks_iff_lex.mp hab).trans (ranks_iff_lex.mp hbc))⟩

instance : Std.Total Ranks := ⟨fun a b => by
  rw [ranks_iff_lex,ranks_iff_lex]
  exact le_total _ _⟩

lemma score_le_of_ranks (h : Ranks a b) : b.score ≤ a.score := by
  rcases ranks_iff.mp h with h | ⟨h,-⟩
  · exact h.le
  · exact h.ge

variable {cs : List Candidate} {w : Candidate}

lemma descending_of_scores {ds : List Candidate} (h : cs.map (·.score) = ds.map (·.score))
    (hcs : Descending cs) : Descending ds := by
  have hsc : (cs.map (·.score)).Pairwise fun a b => b ≤ a := pairwise_map.mpr hcs
  rw [h] at hsc
  exact pairwise_map.mp hsc

lemma descending_sorted (cs : List Candidate) : Descending (cs.insertionSort Ranks) :=
  (pairwise_insertionSort Ranks cs).imp score_le_of_ranks

abbrev ties (top c : Candidate) : Bool :=
  c.score = top.score ∧ compareCandidateAmountDistance c top = .eq

abbrev ambiguous (c : Candidate) : Candidate :=
  { c with exceptionClass := .ambiguous, reasons := c.reasons ++ ["equal_top_score"] }

lemma markAmbiguous_cons {top second : Candidate} {rest : List Candidate} :
    markAmbiguous (top::second::rest) = if ties top second then
        ambiguous top::ambiguous second::((rest.takeWhile (ties top)).map ambiguous ++
          rest.dropWhile (ties top)) else top::second::rest := by
  have hsl : ties top top = true := by simp [compareCandidateAmountDistance_eq]
  unfold markAmbiguous
  dsimp only
  split_ifs with h
  · have hse : ties top second = true := h
    simp only [takeWhile_cons_of_pos hsl,takeWhile_cons_of_pos hse,
      dropWhile_cons_of_pos hsl,dropWhile_cons_of_pos hse,map_cons, cons_append]
  · rfl

abbrev ranked (cs : List Candidate) : List Candidate :=
  markAmbiguous (cs.insertionSort Ranks)

/-- The strictly highest score, which may be settled automatically. -/
abbrev Leads (cs : List Candidate) (w : Candidate) : Prop :=
  w ∈ cs ∧ Automatic w ∧ ∀ c ∈ cs, c ≠ w → c.score < w.score

lemma map_markAmbiguous {β : Type} (f : Candidate → β) (hf : ∀ c, f (ambiguous c) = f c)
    (cs : List Candidate) : (markAmbiguous cs).map f = cs.map f := by
  match cs with
  | [] => rfl
  | [_] => rfl
  | top::second::rest =>
    rw [markAmbiguous_cons]
    split_ifs
    · have hr : ((rest.takeWhile (ties top)).map ambiguous).map f =
          (rest.takeWhile (ties top)).map f := by
        rw [map_map]
        exact map_congr_left fun c _ => hf c
      simp only [map_cons,map_append,hr,hf]
      rw [← map_append,takeWhile_append_dropWhile]
    · rfl

lemma descending_built (cs : List Candidate) :
    Descending (ranked cs) :=
  descending_of_scores (map_markAmbiguous _ (fun _ => rfl) _).symm (descending_sorted cs)

lemma unmarked_or_tied (cs : List Candidate) :
    ranked cs = cs.insertionSort Ranks ∨
      ∃ a b rest more, cs.insertionSort Ranks = a::b::rest ∧ a.score = b.score ∧
        distance a = distance b ∧
        ranked cs = ambiguous a::ambiguous b::more := by
  unfold ranked
  match cs.insertionSort Ranks with
  | [] => exact .inl rfl
  | [_] => exact .inl rfl
  | a::b::rest =>
    rw [markAmbiguous_cons]
    split_ifs with hti
    · simp only [decide_eq_true_eq,compareCandidateAmountDistance_eq] at hti
      exact .inr ⟨a,b,rest,_,rfl,hti.1.symm,hti.2.symm,rfl⟩
    · exact .inl rfl

lemma filter_eq_singleton_iff (hn : cs.Nodup) :
    cs.filter (w.score ≤ ·.score) = [w] ↔ w ∈ cs ∧ ∀ c ∈ cs, c ≠ w → c.score < w.score := by
  have hm : ∀ c, c ∈ cs.filter (w.score ≤ ·.score) ↔ c ∈ cs ∧ w.score ≤ c.score := by
    simp [mem_filter]
  constructor
  · intro h
    rw [h] at hm
    refine ⟨((hm w).mp (by simp)).1,fun c hc hne => lt_of_not_ge fun hle => hne ?_⟩
    exact mem_singleton.mp ((hm c).mpr ⟨hc,hle⟩)
  · rintro ⟨hw,hmax⟩
    rw [← perm_singleton,perm_ext_iff_of_nodup (hn.filter _) (nodup_singleton w)]
    intro c
    rw [hm,mem_singleton]
    constructor
    · exact fun ⟨hc,hle⟩ => by_contra fun hne => absurd (hmax c hc hne) hle.not_gt
    · rintro rfl
      exact ⟨hw,le_rfl⟩

/-- The unique winner of a candidate list is the one with the strictly highest score, when it
may be settled automatically. -/
theorem unique_built_iff (hn : cs.Nodup) :
    uniqueAutomaticCandidate (ranked cs) = some w ↔ Leads cs w := by
  have hp := perm_insertionSort Ranks cs
  rw [Leads,unique_iff (descending_built cs),and_left_comm]
  refine and_congr_right fun _ => ?_
  have hd := descending_built cs
  rcases unmarked_or_tied cs with hpl | ⟨a,b,rest,more,hl,hsc,-,hm⟩
  · rw [hpl,← perm_singleton,(hp.filter _).congr_left,perm_singleton]
    exact filter_eq_singleton_iff hn
  · -- two candidates share the highest score
    rw [hl] at hp
    rw [hm] at hd ⊢
    constructor
    · intro h
      have hw := (mem_filter.mp (h ▸ mem_singleton_self w)).1
      have hle := score_le_first hd hw
      rw [filter_cons_of_pos (by simpa using hle),
        filter_cons_of_pos (by simpa [← hsc] using hle)] at h
      cases h
    · rintro ⟨hw,hmax⟩
      have hab : a ≠ b := by
        have hn := hp.nodup_iff.mpr hn
        exact fun heq => (nodup_cons.mp hn).1 (by simp [heq])
      have hso := descending_sorted cs
      rw [hl] at hso
      have hle : ∀ c ∈ [a,b], c.score < w.score → False := by
        intro c hc hlt
        have hca : c.score = a.score := by
          rcases mem_pair.mp hc with rfl | rfl
          · rfl
          · exact hsc.symm
        have := score_le_first hso (hp.mem_iff.mpr hw)
        omega
      by_cases ha : a = w
      · exact (hle b (by simp) (hmax b (hp.mem_iff.mp (by simp)) fun hb => hab (ha.trans hb.symm))).elim
      · exact (hle a (by simp) (hmax a (hp.mem_iff.mp (by simp)) ha)).elim

variable {c : Candidate} {ext : Externals} {event : TransferEvent}
  {contexts : List AutomaticCandidateContext}

abbrev truncated (c : Candidate) : Candidate :=
  { c with reasons := c.reasons ++ ["candidate_context_truncated"] }

lemma candidateHasReason_truncated {reason : String} (h : reason ≠ "candidate_context_truncated") :
    candidateHasReason (truncated c) reason = candidateHasReason c reason := by
  simp [candidateHasReason,h]

lemma automatic_truncated : Automatic (truncated c) ↔ Automatic c := by
  have hwi : candidateHasReason (truncated c) "within_payment_window" =
      candidateHasReason c "within_payment_window" := candidateHasReason_truncated (by decide)
  have hg : candidateHasReason (truncated c) automaticLateGraceReason =
      candidateHasReason c automaticLateGraceReason := candidateHasReason_truncated (by decide)
  have he : candidateHasReason (truncated c) "underpayment_within_five_percent" =
      candidateHasReason c "underpayment_within_five_percent" :=
    candidateHasReason_truncated (by decide)
  constructor
  · exact fun h => ⟨h.score,h.clear,hwi ▸ hg ▸ h.window,he ▸ h.enough⟩
  · exact fun h => ⟨h.score,h.clear,hwi.symm ▸ hg.symm ▸ h.window,he.symm ▸ h.enough⟩

lemma winner_truncated (hd : Descending cs)
    (h : selectAutomaticCandidate ext event (cs.map truncated) contexts = some w) :
    ∃ v, truncated v = w ∧ uniqueAutomaticCandidate cs = some v := by
  rcases select_iff.mp h with ⟨hau,hbe⟩ | ⟨hcl,-⟩
  · rw [filter_map,map_eq_singleton_iff] at hbe
    obtain ⟨v,hv,rfl⟩ := hbe
    exact ⟨v,rfl,(unique_iff hd).mpr ⟨automatic_truncated.mp hau,hv⟩⟩
  · obtain ⟨ctx,m,hsp,-⟩ := hcl.equivalent
    obtain ⟨v,-,rfl⟩ := mem_map.mp hcl.mem
    have hsu := hsp.supports
    simp [contextSupports,candidateHasReason] at hsu

section

variable (hids : (cs.map (·.routeID)).Nodup)
  (hdist : ∀ c ∈ cs, ∀ ctx m, Supported ext event contexts c ctx m → distance c = excess event ctx.route)

include hids hdist

lemma closest_built_iff : Closest ext event contexts (ranked cs) w ↔
      Closest ext event contexts cs w := by
  have hp := perm_insertionSort Ranks cs
  rcases unmarked_or_tied cs with hpl | ⟨a,b,rest,more,hl,hsc,hsame,hma⟩
  · rw [hpl]
    exact ⟨Closest.perm hp,Closest.perm hp.symm⟩
  · -- a tie at the full score is not decided
    have hso := pairwise_insertionSort Ranks cs
    have hids' := (hp.map (·.routeID)).nodup_iff.mpr hids
    rw [hl] at hp hso hids'
    rw [hma]
    refine iff_of_false (fun h => ?_) fun h => ?_
    · have hno : ∀ ctx m, ¬Supported ext event contexts (ambiguous a) ctx m := by
        intro ctx m hsp
        have hsu := hsp.supports
        simp [contextSupports] at hsu
      obtain ⟨ctx,m,hsp,hal⟩ := h.equivalent
      have hf : a.score = 100 := by
        have hde := descending_built cs
        have hto := h.top _ mem_cons_self
        rw [hma] at hde
        have := score_le_first hde h.mem
        have := h.full
        simp only at *
        omega
      by_cases hw : ambiguous a = w
      · exact hno ctx m (hw ▸ hsp)
      · obtain ⟨ctx',m',hsp',-⟩ := hal _ mem_cons_self hw hf
        exact hno ctx' m' hsp'
    · obtain ⟨ctx,m,hsp,hal⟩ := h.equivalent
      have hcl : ∀ c ∈ cs, c ≠ w → c.score = 100 → distance w < distance c := by
        intro c hc hne hf
        obtain ⟨ctx',m',hsp',-,hlt⟩ := hal c hc hne hf
        rw [hdist w h.mem ctx m hsp,hdist c hc ctx' m' hsp']
        exact_mod_cast hlt
      have hfi : a.score = 100 ∧ distance a ≤ distance w := by
        have hto := h.top a (hp.mem_iff.mp mem_cons_self)
        have hf := h.full
        rcases mem_cons.mp (hp.mem_iff.mpr h.mem) with rfl | hw
        · exact ⟨hf,le_rfl⟩
        · rcases ranks_iff.mp ((pairwise_cons.mp hso).1 w hw) with hlt | ⟨heq,hd | ⟨hd,-⟩⟩
          · omega
          · exact ⟨by omega,hd.le⟩
          · exact ⟨by omega,hd.le⟩
      by_cases ha : a = w
      · have hb : b ≠ w := fun hb => (nodup_cons.mp hids').1 (by simp [ha,hb])
        have hlt := hcl b (hp.mem_iff.mp (by simp)) hb (hsc ▸ hfi.1)
        exact absurd (hsame ▸ hfi.2) hlt.not_ge
      · have hlt := hcl a (hp.mem_iff.mp (by simp)) ha hfi.1
        exact absurd hfi.2 hlt.not_ge

lemma select_built_iff :
    selectAutomaticCandidate ext event (ranked cs) contexts = some w ↔
      Leads cs w ∨ Closest ext event contexts cs w := by
  have hids' : (fullRoutes (ranked cs)).Nodup := by
    refine List.Nodup.sublist (filter_sublist.map _) ?_
    rw [map_markAmbiguous (·.routeID) fun _ => rfl]
    exact ((perm_insertionSort Ranks cs).map _).nodup_iff.mpr hids
  rw [select_iff,closest_built_iff hids hdist,and_iff_left hids',alone_iff (descending_built cs),
    unique_built_iff (List.Nodup.of_map _ hids)]

end

variable {db : Database} {now : ℤ} {r : PaymentRoute} {ctx : AutomaticCandidateContext}
  {tenantID m : String}

section

variable {rs : List PaymentRoute}

lemma mem_matchingRoutes (h : r ∈ matchingRoutes db event) :
    r ∈ db.routes ∧ r.chainID = event.identity.chainID ∧ r.address = event.identity.toAddress := by
  have hm := (perm_insertionSort _ _).mem_iff.mp h
  obtain ⟨hr,hco⟩ := mem_filter.mp hm
  simp only [decide_eq_true_eq] at hco
  exact ⟨hr,hco.1,hco.2.1⟩

lemma nodup_matchingRoutes (hroutes : (db.routes.map (·.id)).Nodup) :
    ((matchingRoutes db event).map (·.id)).Nodup := by
  unfold matchingRoutes
  exact ((perm_insertionSort _ _).map _).nodup_iff.mpr ((filter_sublist.map _).nodup hroutes)

lemma exists_routeCandidate (now : ℤ) (h : r ∈ matchingRoutes db event) :
    ∃ c, routeCandidate event now r = some c := by
  obtain ⟨-,hch,had⟩ := mem_matchingRoutes h
  unfold routeCandidate
  rw [if_neg (by simp [hch,had])]
  split
  · exact ⟨_,rfl⟩
  · exact ⟨_,rfl⟩

lemma routeCandidate_eq_some (h : routeCandidate event now r = some c) :
    c.routeID = r.id ∧ (r.assetID = event.identity.assetID →
      c.amountDelta = some ((event.amount.n : ℤ) - r.expectedAmount.n)) := by
  unfold routeCandidate at h
  split at h
  · cases h
  split at h
  · next has =>
    cases h
    exact ⟨rfl,fun heq => absurd heq has⟩
  · cases h
    exact ⟨rfl,fun _ => rfl⟩

abbrev candidatesOf (event : TransferEvent) (now : ℤ) (rs : List PaymentRoute) : List Candidate :=
  rs.filterMap (routeCandidate event now)

lemma nodup_candidatesOf (h : (rs.map (·.id)).Nodup) :
    ((candidatesOf event now rs).map (·.routeID)).Nodup := by
  have hsu : ((candidatesOf event now rs).map (·.routeID)).Sublist (rs.map (·.id)) := by
    clear h
    induction rs with
    | nil => simp
    | cons r rs ih =>
      cases hc : routeCandidate event now r with
      | none =>
        rw [candidatesOf,filterMap_cons_none hc]
        exact ih.cons _
      | some c =>
        rw [candidatesOf,filterMap_cons_some hc,map_cons,(routeCandidate_eq_some hc).1]
        exact ih.cons_cons _
  exact hsu.nodup h

lemma buildCandidates_eq (hl : 2 ≤ rs.length)
    (hrs : ∀ r ∈ rs, r ∈ matchingRoutes db event) : buildCandidates event rs now =
      ranked (candidatesOf event now rs) := by
  have hre : rewardUnique (candidatesOf event now rs) = candidatesOf event now rs := by
    match rs, hl with
    | a::b::rest, _ =>
      obtain ⟨ca,ha⟩ := exists_routeCandidate now (hrs a (by simp))
      obtain ⟨cb,hb⟩ := exists_routeCandidate now (hrs b (by simp))
      rw [candidatesOf,filterMap_cons_some ha,filterMap_cons_some hb]
      rfl
  unfold buildCandidates
  rw [hre]

def contextOf (db : Database) (r : PaymentRoute) : Option AutomaticCandidateContext :=
  (db.intents.find? fun i => i.id = r.intentID ∧ i.tenantID = r.tenantID ∧
    i.merchantID = r.merchantID).map fun i => ⟨r,i⟩

lemma contextOf_route (h : contextOf db r = some ctx) : ctx.route = r := by
  obtain ⟨i,-,rfl⟩ := Option.map_eq_some_iff.mp h
  rfl

lemma route_eq_of_id (hroutes : (db.routes.map (·.id)).Nodup) {a b : PaymentRoute}
    (ha : a ∈ db.routes) (hb : b ∈ db.routes) (h : a.id = b.id) : a = b :=
  inj_on_of_nodup_map hroutes ha hb h

lemma mem_loaded (h : ctx ∈ loadAutomaticCandidateContexts db cs tenantID) :
    ctx.route ∈ db.routes ∧ contextOf db ctx.route = some ctx := by
  unfold loadAutomaticCandidateContexts at h
  split at h
  · split_ifs at h
    · cases h
    · obtain ⟨r,hr,hct⟩ := mem_filterMap.mp h
      have hro := contextOf_route hct
      rw [hro]
      exact ⟨mem_of_mem_filter hr,hct⟩
  · cases h

lemma context_of_supported
    (hroutes : (db.routes.map (·.id)).Nodup) (hr : r ∈ db.routes) (hid : c.routeID = r.id)
    (h : Supported ext event (loadAutomaticCandidateContexts db cs tenantID) c ctx m) :
    contextOf db r = some ctx := by
  obtain ⟨hme,hid'⟩ := Table.mem_of_find? h.found
  obtain ⟨hme,hct⟩ := mem_loaded hme
  rw [← route_eq_of_id hroutes hme hr (hid'.trans hid)]
  exact hct

lemma distance_eq_excess (hc : routeCandidate event now r = some c) (hro : ctx.route = r)
    (hsu : contextSupports event c ctx = true) : distance c = excess event ctx.route := by
  have ho := overpaid_of_supports hsu
  have has : r.assetID = event.identity.assetID := by
    rw [← hro]
    simp only [contextSupports,Bool.and_eq_true,decide_eq_true_eq] at hsu
    exact hsu.1.1.1.1.1.1.2
  unfold distance excess
  rw [(routeCandidate_eq_some hc).2 has,hro]
  rw [hro] at ho
  have habs : ((event.amount.n : ℤ) - r.expectedAmount.n).natAbs =
      event.amount.n - r.expectedAmount.n := by omega
  dsimp only
  rw [habs]

abbrev FullPair (cs : List Candidate) : Prop :=
  ∃ first second rest, cs = first::second::rest ∧ first.score = 100 ∧ second.score = 100

lemma find_loaded (hroutes : (db.routes.map (·.id)).Nodup) (hr : r ∈ db.routes)
    (hte : r.tenantID = tenantID) (hct : contextOf db r = some ctx) (hti : FullPair cs)
    (hl : ∃ c ∈ cs, c.routeID = r.id ∧ c.score = 100) :
    (loadAutomaticCandidateContexts db cs tenantID).find? (·.route.id = r.id) = some ctx := by
  obtain ⟨first,second,rest,rfl,hfi,hse⟩ := hti
  have hm : ctx ∈ loadAutomaticCandidateContexts db (first::second::rest) tenantID := by
    unfold loadAutomaticCandidateContexts
    dsimp only
    rw [if_neg (by simp [hfi,hse])]
    refine mem_filterMap.mpr ⟨r,mem_filter.mpr ⟨hr,?_⟩,hct⟩
    obtain ⟨c,hc,hid,hsc⟩ := hl
    refine decide_eq_true ⟨mem_map.mpr ⟨c,mem_filter.mpr ⟨hc,?_⟩,hid⟩,hte⟩
    simp [hsc,hfi]
  have hro := contextOf_route hct
  refine Table.find?_unique hm (congrArg PaymentRoute.id hro) fun k hk hid => ?_
  obtain ⟨hk,hkc⟩ := mem_loaded hk
  rw [route_eq_of_id hroutes hk hr hid,hct] at hkc
  exact (Option.some.inj hkc).symm

lemma exists_full_pair (ha : a ∈ cs) (hb : b ∈ cs)
    (hne : a ≠ b) (haf : a.score = 100) (hbf : b.score = 100) (hto : ∀ c ∈ cs, c.score ≤ 100) :
    FullPair (ranked cs) := by
  unfold ranked
  have hm : ∀ c, c ∈ cs.insertionSort Ranks ↔ c ∈ cs := fun c =>
    (perm_insertionSort Ranks cs).mem_iff
  have hd := descending_sorted cs
  have hsc := map_markAmbiguous (·.score) (fun _ => rfl) (cs.insertionSort Ranks)
  have ha' := (hm a).mpr ha
  have hb' := (hm b).mpr hb
  match hl : cs.insertionSort Ranks with
  | [] => simp [hl] at ha'
  | [x] =>
    rw [hl,mem_singleton] at ha' hb'
    exact absurd (ha'.trans hb'.symm) hne
  | x::y::rest =>
    rw [hl] at ha' hb' hd hsc
    obtain ⟨hx,hr⟩ := pairwise_cons.mp hd
    have hyf : y.score = 100 := by
      have hle := hto y ((hm y).mp (by simp [hl]))
      by_cases hxa : a = x
      · have := score_le_first hr ((mem_cons.mp hb').resolve_left fun h => hne (hxa.trans h.symm))
        omega
      · have := score_le_first hr ((mem_cons.mp ha').resolve_left hxa)
        omega
    have hxf : x.score = 100 := by
      have hle := hto x ((hm x).mp (by simp [hl]))
      have := hx y mem_cons_self
      omega
    obtain ⟨first,tail,hbu,hf,hta⟩ := map_eq_cons_iff.mp hsc
    obtain ⟨second,tail',rfl,hse,-⟩ := map_eq_cons_iff.mp hta
    exact ⟨first,second,tail',hbu,hf.trans hxf,hse.trans hyf⟩

end

abbrev contextsOf (db : Database) (event : TransferEvent) (now : ℤ) (tenantID : String)
    (rs : List PaymentRoute) : List AutomaticCandidateContext :=
  loadAutomaticCandidateContexts db (ranked (candidatesOf event now rs)) tenantID

structure Invoice (ext : Externals) (db : Database) (event : TransferEvent) (c : Candidate)
    (r : PaymentRoute) (ctx : AutomaticCandidateContext) (metadata : String) : Prop where
  records : contextOf db r = some ctx
  supports : contextSupports event c ctx = true
  readable : ext.canonicalCandidateMetadata ctx.intent.metadata = some metadata

/-- `v` prevails over `h`: by its score, or at the full score as the closer one of two equivalent
invoices. -/
def Outranks (ext : Externals) (db : Database) (event : TransferEvent) (now : ℤ)
    (v h : PaymentRoute) : Prop :=
  ∃ cv ch, routeCandidate event now v = some cv ∧ routeCandidate event now h = some ch ∧
    (ch.score < cv.score ∨
      (cv.score = 100 ∧ ch.score = 100 ∧ h.expectedAmount.n < v.expectedAmount.n ∧
        ∃ kv mv kh mh, Invoice ext db event cv v kv mv ∧ Invoice ext db event ch h kh mh ∧
          sameInvoice kh kv mh mv = true))

section

variable {visible hidden : List PaymentRoute} (hroutes : (db.routes.map (·.id)).Nodup)
  (hids : ((visible ++ hidden).map (·.id)).Nodup)
  (hmatching : ∀ r ∈ visible ++ hidden, r ∈ matchingRoutes db event)
  (hw : w ∈ candidatesOf event now visible)
  (hmax : ∀ c ∈ candidatesOf event now visible, c ≠ w → c.score < w.score)

include hids in
lemma mem_candidatesOf_hidden {h : PaymentRoute}
    (hw : w ∈ candidatesOf event now visible) (hh : h ∈ hidden)
    (hc : routeCandidate event now h = some c) : c ≠ w := by
  rintro rfl
  obtain ⟨v,hv,hcv⟩ := mem_filterMap.mp hw
  have hid : v.id = h.id := (routeCandidate_eq_some hcv).1.symm.trans (routeCandidate_eq_some hc).1
  rw [map_append,nodup_append] at hids
  exact hids.2.2 v.id (mem_map_of_mem hv) h.id (mem_map_of_mem hh) hid

omit hw hmax hids in
include hroutes hmatching in
lemma Invoice.supported (hte : ∀ r ∈ visible ++ hidden, r.tenantID = tenantID)
    (hr : r ∈ visible ++ hidden) (hc : routeCandidate event now r = some c) (hf : c.score = 100)
    (hp : FullPair (ranked (candidatesOf event now (visible ++ hidden))))
    (h : Invoice ext db event c r ctx m) :
    Supported ext event (contextsOf db event now tenantID (visible ++ hidden)) c ctx m := by
  refine ⟨?_,h.supports,h.readable⟩
  have hid := (routeCandidate_eq_some hc).1
  rw [hid]
  refine find_loaded hroutes (mem_matchingRoutes (hmatching r hr)).1 (hte r hr) h.records
    hp ?_
  have hk := map_markAmbiguous (fun c => (c.routeID,c.score)) (fun _ => rfl)
    ((candidatesOf event now (visible ++ hidden)).insertionSort Ranks)
  have hme : (r.id,(100 : ℤ)) ∈ ((candidatesOf event now (visible ++ hidden)).insertionSort
      Ranks).map fun c => (c.routeID,c.score) := by
    refine mem_map.mpr ⟨c,(perm_insertionSort Ranks _).mem_iff.mpr ?_,?_⟩
    · exact mem_filterMap.mpr ⟨r,hr,hc⟩
    · rw [hid,hf]
  rw [← hk] at hme
  obtain ⟨c',hc',heq⟩ := mem_map.mp hme
  obtain ⟨hid',hsc'⟩ := Prod.mk.inj heq
  exact ⟨c',hc',hid',hsc'⟩

include hroutes hids hmatching hw hmax

lemma complete_of_outranks (hau : Automatic w) (hte : ∀ r ∈ visible ++ hidden,
    r.tenantID = tenantID) {v : PaymentRoute} (hv : v ∈ visible)
    (hou : ∀ h ∈ hidden, Outranks ext db event now v h) :
    Leads (candidatesOf event now (visible ++ hidden)) w ∨
      Closest ext event (contextsOf db event now tenantID (visible ++ hidden))
        (candidatesOf event now (visible ++ hidden)) w := by
  have hsp : ∀ c, c ∈ candidatesOf event now (visible ++ hidden) ↔
      c ∈ candidatesOf event now visible ∨ ∃ h ∈ hidden, routeCandidate event now h = some c := by
    intro c
    rw [candidatesOf,filterMap_append,mem_append,mem_filterMap (l := hidden)]
  have hwa := (hsp w).mpr (.inl hw)
  by_cases hlo : ∀ h ∈ hidden, ∀ c, routeCandidate event now h = some c → c.score < w.score
  · refine .inl ⟨hwa,hau,fun c hc hne => ?_⟩
    rcases (hsp c).mp hc with hc | ⟨h,hh,hc⟩
    · exact hmax c hc hne
    · exact hlo h hh c hc
  · push Not at hlo
    obtain ⟨h,hh,ch,hch,hle⟩ := hlo
    obtain ⟨cv,ch',hcv,hch',hca⟩ := hou h hh
    obtain rfl : ch = ch' := Option.some.inj (hch.symm.trans hch')
    have hce : cv ≠ w → cv.score < w.score :=
      hmax cv (mem_filterMap.mpr ⟨v,hv,hcv⟩)
    have hcw : cv.score ≤ w.score := by
      by_cases heq : cv = w
      · rw [heq]
      · exact (hce heq).le
    rcases hca with hlt | ⟨hvf,hhf,-,kv,mv,-,-,hkv,-,-⟩
    · omega
    -- the tie is at the full score, and the defending route is the winner's
    have hwf : w.score = 100 := by omega
    have hcv' : cv = w := by
      by_contra hne
      have := hce hne
      omega
    subst hcv'
    have hto : ∀ c ∈ candidatesOf event now (visible ++ hidden), c.score ≤ 100 := by
      intro c hc
      rcases (hsp c).mp hc with hc | ⟨g,hg,hc⟩
      · by_cases hne : c = cv
        · rw [hne,hwf]
        · have := hmax c hc hne
          omega
      · obtain ⟨cv₁,cg,hcv₁,hcg,hca⟩ := hou g hg
        obtain rfl : cv = cv₁ := Option.some.inj (hcv.symm.trans hcv₁)
        obtain rfl : c = cg := Option.some.inj (hc.symm.trans hcg)
        rcases hca with hlt | ⟨-,hf,-⟩
        · omega
        · exact hf.le
    have hcl := (hsp ch).mpr (.inr ⟨h,hh,hch⟩)
    have hri := mem_candidatesOf_hidden hids hw hh hch
    have hp := exists_full_pair hcl hwa hri hhf hwf hto
    refine .inr ⟨hwa,hwf,hto,⟨ch,hcl,hri,hhf⟩,kv,mv,
      hkv.supported hroutes hmatching hte (mem_append_left _ hv) hcv hwf hp, fun c hc hne hf => ?_⟩
    rcases (hsp c).mp hc with hc | ⟨g,hg,hc⟩
    · have := hmax c hc hne
      omega
    obtain ⟨cv₁,cg,hcv₁,hcg,hca⟩ := hou g hg
    obtain rfl : cv = cv₁ := Option.some.inj (hcv.symm.trans hcv₁)
    obtain rfl : c = cg := Option.some.inj (hc.symm.trans hcg)
    rcases hca with hlt | ⟨-,-,hls,kv₁,mv₁,kg,mg,hkv₁,hkg,hsame⟩
    · omega
    obtain rfl : kv = kv₁ := Option.some.inj (hkv.records.symm.trans hkv₁.records)
    obtain rfl : mv = mv₁ := Option.some.inj (hkv.readable.symm.trans hkv₁.readable)
    refine ⟨kg,mg,hkg.supported hroutes hmatching hte (mem_append_right _ hg) hc hf hp,hsame,?_⟩
    have ho := overpaid_of_supports hkv.supports
    rw [contextOf_route hkv.records] at ho ⊢
    rw [contextOf_route hkg.records]
    unfold excess
    omega

lemma outranks_of_complete {w' : Candidate} (hid : w'.routeID = w.routeID)
    (hwi : Leads (candidatesOf event now (visible ++ hidden)) w' ∨
      Closest ext event (contextsOf db event now tenantID (visible ++ hidden))
        (candidatesOf event now (visible ++ hidden)) w') :
    ∃ v ∈ visible, ∀ h ∈ hidden, Outranks ext db event now v h := by
  have hme : ∀ h ∈ hidden, ∀ c, routeCandidate event now h = some c →
      c ∈ candidatesOf event now (visible ++ hidden) := fun h hh c hc =>
    mem_filterMap.mpr ⟨h,mem_append_right _ hh,hc⟩
  obtain ⟨v,hv,hcv⟩ := mem_filterMap.mp hw
  have hwa : w ∈ candidatesOf event now (visible ++ hidden) :=
    mem_filterMap.mpr ⟨v,mem_append_left _ hv,hcv⟩
  have hw'all : w' ∈ candidatesOf event now (visible ++ hidden) := by
    rcases hwi with hwi | hwi
    · exact hwi.1
    · exact hwi.mem
  obtain rfl : w' = w := inj_on_of_nodup_map (nodup_candidatesOf hids) hw'all hwa hid
  refine ⟨v,hv,fun h hh => ?_⟩
  obtain ⟨ch,hch⟩ := exists_routeCandidate now (hmatching h (mem_append_right _ hh))
  have hne := mem_candidatesOf_hidden hids hw hh hch
  refine ⟨w',ch,hcv,hch,?_⟩
  rcases hwi with ⟨-,-,hst⟩ | hwi
  · exact .inl (hst ch (hme h hh ch hch) hne)
  · have hto := hwi.top ch (hme h hh ch hch)
    by_cases hf : ch.score = 100
    · obtain ⟨ctx,m,hsu,hal⟩ := hwi.equivalent
      obtain ⟨ctx',m',hsu',hsame,hlt⟩ := hal ch (hme h hh ch hch) hne hf
      have hvd := (mem_matchingRoutes (hmatching v (mem_append_left _ hv))).1
      have hhd := (mem_matchingRoutes (hmatching h (mem_append_right _ hh))).1
      have hct := context_of_supported hroutes hvd (routeCandidate_eq_some hcv).1 hsu
      have hct' := context_of_supported hroutes hhd (routeCandidate_eq_some hch).1 hsu'
      refine .inr ⟨hwi.full,hf,?_,ctx,m,ctx',m',⟨hct,hsu.supports,hsu.readable⟩,
        ⟨hct',hsu'.supports,hsu'.readable⟩,hsame⟩
      rw [contextOf_route hct,contextOf_route hct'] at hlt
      unfold excess at hlt
      omega
    · have hwf := hwi.full
      exact .inl (by omega)

end

section

variable {rest : List PaymentRoute} {first : PaymentRoute}

lemma bounded_winner (hmo : 100 < (matchingRoutes db event).length)
    (hv : (matchingRoutes db event).take 100 = first::rest)
    (hw : automaticWinner ext db event (findPotentialCandidates db event now) = some w) :
    first.tenantID ≠ "" ∧ (∀ r ∈ first::rest, r.tenantID = first.tenantID) ∧
      ∃ w₀, truncated w₀ = w ∧
        uniqueAutomaticCandidate (buildCandidates event (first::rest) now) = some w₀ := by
  have hbo : (potentialRoutes db event).take 100 = first::rest := by
    rw [potentialRoutes,take_take]
    exact hv
  have hl : 100 < (potentialRoutes db event).length := by
    rw [potentialRoutes,length_take]
    omega
  unfold automaticWinner findPotentialCandidates at hw
  simp only [hbo] at hw
  by_cases han : (first::rest).any (·.tenantID ≠ first.tenantID) = true
  · rw [if_pos han] at hw
    exact absurd hw (by simp)
  · split_ifs at hw with he
    have hbu : Descending (buildCandidates event (first::rest) now) := descending_built _
    obtain ⟨w₀,hm,hu⟩ := winner_truncated hbu hw
    refine ⟨he,fun r hr => ?_,w₀,hm,hu⟩
    simpa using any_eq_false.mp (Bool.eq_false_iff.mpr han) r hr

lemma complete_of_short (hsh : (matchingRoutes db event).length ≤ 100) :
    findPotentialCandidates db event now = completeCandidates db event now := by
  have hal : potentialRoutes db event = matchingRoutes db event := by
    rw [potentialRoutes]
    exact take_of_length_le (by omega)
  have hbo : (potentialRoutes db event).take 100 = matchingRoutes db event := by
    rw [hal]
    exact take_of_length_le hsh
  have hl : ¬100 < (potentialRoutes db event).length := by
    rw [hal]
    omega
  unfold findPotentialCandidates completeCandidates
  simp only [hbo,hl]
  cases matchingRoutes db event <;> rfl

lemma complete_winner (hroutes : matchingRoutes db event = first::rest) (hn : first.tenantID ≠ "")
    (ho : ∀ r ∈ first::rest, r.tenantID = first.tenantID) :
    automaticWinner ext db event (completeCandidates db event now) =
      selectAutomaticCandidate ext event (buildCandidates event (first::rest) now)
        (loadAutomaticCandidateContexts db (buildCandidates event (first::rest) now)
          first.tenantID) := by
  have han : ¬(first::rest).any (·.tenantID ≠ first.tenantID) = true := by
    rw [Bool.not_eq_true]
    exact any_eq_false.mpr (by simpa using ho)
  have hco : completeCandidates db event now =
      { candidates := buildCandidates event (first::rest) now
        tenantID := first.tenantID
        classification := match buildCandidates event (first::rest) now with
          | [] => "no_candidate_route"
          | c::_ => c.exceptionClass.text } := by
    unfold completeCandidates
    rw [hroutes]
    exact if_neg han
  rw [hco]
  exact if_neg hn

lemma one_tenant_of_complete
    (hw : automaticWinner ext db event (completeCandidates db event now) = some w) :
    ∃ first rest, matchingRoutes db event = first::rest ∧
      ∀ r ∈ first::rest, r.tenantID = first.tenantID := by
  have hu : ∀ p : Potential, p.tenantID = "" → automaticWinner ext db event p = none :=
    fun p hp => if_pos hp
  cases hl : matchingRoutes db event with
  | nil =>
    have hco : (completeCandidates db event now).tenantID = "" := by
      unfold completeCandidates
      rw [hl]
    simp [hu _ hco] at hw
  | cons first rest =>
    refine ⟨first,rest,rfl,?_⟩
    by_cases han : (first::rest).any (·.tenantID ≠ first.tenantID) = true
    · have hco : (completeCandidates db event now).tenantID = "" := by
        unfold completeCandidates
        rw [hl]
        dsimp only
        rw [if_pos han]
      simp [hu _ hco] at hw
    · exact by simpa using any_eq_false.mp (Bool.eq_false_iff.mpr han)

variable {ext : Externals} {db : Database} {event : TransferEvent} {now : ℤ} {w : Candidate}

/-- The automatic winner among the newest hundred routes is the winner among all routes on the
address, and these are of one tenant, exactly when one of the newest hundred prevails over every
hidden route and these are of its tenant. -/
theorem truncation_safe_iff (hroutes : (db.routes.map (·.id)).Nodup)
    (hw : automaticWinner ext db event (findPotentialCandidates db event now) = some w) :
    ((∃ w', automaticWinner ext db event (completeCandidates db event now) = some w' ∧
          w'.routeID = w.routeID) ∧
        ∀ a ∈ matchingRoutes db event, ∀ b ∈ matchingRoutes db event, a.tenantID = b.tenantID) ↔
      ∃ v ∈ (matchingRoutes db event).take 100, ∀ h ∈ (matchingRoutes db event).drop 100,
        h.tenantID = v.tenantID ∧ Outranks ext db event now v h := by
  have hsp : (matchingRoutes db event).take 100 ++ (matchingRoutes db event).drop 100 =
      matchingRoutes db event := take_append_drop 100 _
  rcases Nat.lt_or_ge 100 (matchingRoutes db event).length with hmo | hsh
  · obtain ⟨first,rest,hvi⟩ : ∃ first rest,
        (matchingRoutes db event).take 100 = first::rest := by
      refine exists_cons_of_ne_nil fun hni => ?_
      have hl := congrArg List.length hni
      rw [length_take,length_nil] at hl
      omega
    obtain ⟨hn,hte,w₀,rfl,hu⟩ := bounded_winner hmo hvi hw
    have hl : (first::rest).length = 100 := by
      rw [← hvi,length_take]
      omega
    generalize hhi : (matchingRoutes db event).drop 100 = hidden at hsp
    rw [hvi] at hsp
    rw [hvi]
    have hmatching : ∀ r ∈ first::rest ++ hidden, r ∈ matchingRoutes db event := fun r hr =>
      hsp ▸ hr
    have hids : ((first::rest ++ hidden).map (·.id)).Nodup := by
      rw [hsp]
      exact nodup_matchingRoutes hroutes
    rw [buildCandidates_eq (by omega) fun r hr => hmatching r (mem_append_left _ hr),
      unique_built_iff ((nodup_candidatesOf (by
        rw [map_append] at hids
        exact (nodup_append.mp hids).1)).of_map _)] at hu
    obtain ⟨hme,hau,hmax⟩ := hu
    by_cases ho : ∀ h ∈ hidden, h.tenantID = first.tenantID
    · have hal : ∀ r ∈ first::rest ++ hidden, r.tenantID = first.tenantID := by
        intro r hr
        rcases mem_append.mp hr with hr | hr
        · exact hte r hr
        · exact ho r hr
      have hdist : ∀ c ∈ candidatesOf event now (first::rest ++ hidden), ∀ ctx m,
          Supported ext event (contextsOf db event now first.tenantID (first::rest ++ hidden)) c ctx m →
          distance c = excess event ctx.route := by
        intro c hc ctx m hsu
        obtain ⟨r,hr,hrc⟩ := mem_filterMap.mp hc
        have hct := context_of_supported hroutes (mem_matchingRoutes (hmatching r hr)).1
          (routeCandidate_eq_some hrc).1 hsu
        exact distance_eq_excess hrc (contextOf_route hct) hsu.supports
      have hco : automaticWinner ext db event (completeCandidates db event now) =
          selectAutomaticCandidate ext event (buildCandidates event (first::rest ++ hidden) now)
            (loadAutomaticCandidateContexts db
              (buildCandidates event (first::rest ++ hidden) now) first.tenantID) :=
        complete_winner hsp.symm hn hal
      rw [buildCandidates_eq (by rw [length_append]; omega) hmatching] at hco
      simp only [hco,select_built_iff (nodup_candidatesOf hids) hdist]
      constructor
      · rintro ⟨⟨w',hw',hid⟩,-⟩
        obtain ⟨v,hv,hou⟩ := outranks_of_complete hroutes hids hmatching hme hmax hid
          hw'
        exact ⟨v,hv,fun h hh => ⟨(ho h hh).trans (hte v hv).symm,hou h hh⟩⟩
      · rintro ⟨v,hv,hou⟩
        refine ⟨⟨w₀,complete_of_outranks hroutes hids hmatching hme hmax hau hal hv
          fun h hh => (hou h hh).2,rfl⟩,fun a ha b hb => ?_⟩
        rw [hal a (hsp.symm ▸ ha),hal b (hsp.symm ▸ hb)]
    · refine iff_of_false (fun h => ho fun g hg => ?_) fun ⟨v,hv,hou⟩ => ho fun g hg => ?_
      · exact h.2 g (hmatching g (mem_append_right _ hg)) first (hmatching first (by simp))
      · exact (hou g hg).1.trans (hte v hv)
  · -- nothing is hidden
    rw [complete_of_short hsh] at hw
    have hd := drop_eq_nil_of_le hsh
    obtain ⟨first,rest,hli,ho⟩ := one_tenant_of_complete hw
    rw [hd]
    refine iff_of_true ⟨⟨w,hw,rfl⟩,?_⟩ ⟨first,hli ▸ mem_cons_self,by simp⟩
    rw [hli]
    exact fun a ha b hb => (ho a ha).trans (ho b hb).symm

end

def sampleAged (age : ℕ) (assetID : String) (expected : Amount) : PaymentRoute :=
  { sampleRouteTo (String.ofList [Nat.digitChar (age / 10),Nat.digitChar (age % 10)]) "TMerchant" with
    assetID := assetID
    expectedAmount := expected
    createdAt := -age }

def sampleCrowd (oldest : PaymentRoute) : Database where
  intents := [sampleIntent,{ sampleIntent with tenantID := "other" }]
  routes := sampleAged 0 "usdt" 10 ::
    ((List.range 99).map fun n => sampleAged (n+1) "other-asset" 100) ++ [oldest]

theorem truncation_safe_sample :
    let db := sampleCrowd (sampleAged 100 "other-asset" ⟨100,by decide⟩)
    let event := samplePayment "pay" ⟨96,by decide⟩ "block"
    ∃ w, automaticWinner sampleExternals db event (findPotentialCandidates db event 60) = some w ∧
      w.routeID = "00" ∧ ∃ w', automaticWinner sampleExternals db event
        (completeCandidates db event 60) = some w' ∧ w'.routeID = w.routeID := by
  intro db event
  have hhi : (matchingRoutes db event).drop 100 =
      [sampleAged 100 "other-asset" ⟨100,by decide⟩] := by decide +kernel
  have hn : sampleAged 0 "usdt" ⟨10,by decide⟩ ∈ (matchingRoutes db event).take 100 := by
    decide +kernel
  refine exists_and_and_of (by decide +kernel) fun w hw hid =>
    ((truncation_safe_iff (by decide +kernel) hw).mpr ⟨_,hn,fun h hh => ?_⟩).1
  rw [hhi,mem_singleton] at hh
  subst hh
  exact ⟨rfl,_,_,rfl,rfl,.inl (by decide +kernel)⟩

/-- A hidden route of another tenant expects the payment up to five percent, and the newest route
of the sample tenant, which expects a tenth of it, is settled automatically. -/
theorem truncation_hides_contender :
    let db := sampleCrowd { sampleAged 100 "usdt" ⟨100,by decide⟩ with tenantID := "other" }
    let event := samplePayment "pay" ⟨96,by decide⟩ "block"
    (∃ w, automaticWinner sampleExternals db event (findPotentialCandidates db event 60) = some w ∧
      w.routeID = "00") ∧
      automaticWinner sampleExternals db event (completeCandidates db event 60) = none := by
  decide +kernel

end Ocrypt.CandidateTruncation
