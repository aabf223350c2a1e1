import Ocrypt.AutomaticWinner
import Ocrypt.MatchingEffects
import Ocrypt.ReorgEffects
import Ocrypt.ResolutionEffects
import Ocrypt.HostedEffects

/-! The candidates recorded for an unmatched payment. They are written when the payment is
recorded and read when an owner is looked for; a payment that returns after a reorganisation keeps
its row, and what was recorded for it before stands in the way of what would be recorded now. -/
namespace Ocrypt.CandidateSets
open Domain Fallible Matching Table Transactions Store Observations Candidates MatchingJobs
  Settlement Scanner Reorg MatchingStore Resolutions Workers IngestEffects MatchingEffects
  ReorgEffects ResolutionEffects HostedEffects CandidateSelection CandidateTruncation List

def setOf (rows : List MatchCandidate) (unmatchedID : String) : List MatchCandidate :=
  rows.filter (·.unmatchedID = unmatchedID)

/-- The columns of an unmatched payment that decide which candidates are read for it. -/
def anchor (u : UnmatchedPayment) : String × String × Option String × ℤ :=
  (u.id,u.eventID,u.tenantID,u.workflowVersion)

variable {u : UnmatchedPayment}

lemma anchor_fields {v : UnmatchedPayment} (h : anchor v = anchor u) :
    v.id = u.id ∧ v.eventID = u.eventID ∧ v.tenantID = u.tenantID ∧
      v.workflowVersion = u.workflowVersion := by
  simpa [anchor] using h

/-- The unique columns of unmatched_payments, and the workflow version, which is never raised. -/
structure Keyed (rows : List UnmatchedPayment) : Prop where
  ids : (rows.map (·.id)).Nodup
  events : (rows.map (·.eventID)).Nodup
  version : ∀ u ∈ rows, u.workflowVersion = 1

variable {unmatchedID tenantID : String} {cs : List Candidate} {p : Potential}

section

variable {x : String} {rows : List MatchCandidate}

def candidateRow (unmatchedID tenantID : String) (ranked : Candidate × ℕ) : MatchCandidate :=
  ⟨tenantID,unmatchedID,ranked.1.routeID,ranked.2,ranked.1.score,ranked.1.exceptionClass,
    ranked.1.reasons,[],1⟩

def recorded (unmatchedID : String) (p : Potential) (rows : List MatchCandidate) :
    List MatchCandidate :=
  if p.tenantID = "" then rows
  else (p.candidates.zipIdx 1).foldl (insertCandidate unmatchedID p.tenantID) rows

lemma setOf_foldl (hx : x ≠ unmatchedID) (cs : List (Candidate × ℕ)) (rows : List MatchCandidate) :
    setOf (cs.foldl (insertCandidate unmatchedID tenantID) rows) x = setOf rows x := by
  induction cs generalizing rows with
  | nil => rfl
  | cons c cs ih =>
    rw [foldl_cons,ih]
    unfold insertCandidate
    split
    · rfl
    · simp [setOf,hx.symm]

lemma setOf_recorded (hx : x ≠ unmatchedID) (p : Potential)
    (rows : List MatchCandidate) : setOf (recorded unmatchedID p rows) x = setOf rows x := by
  unfold recorded
  split
  · rfl
  · exact setOf_foldl hx _ rows

lemma foldl_insertCandidate {k : ℕ} (hru : (cs.map (·.routeID)).Nodup)
    (hrw : ∀ c ∈ rows, c.unmatchedID = unmatchedID → c.routeID ∉ cs.map (·.routeID) ∧ c.rank < k) :
    (cs.zipIdx k).foldl (insertCandidate unmatchedID tenantID) rows =
      rows ++ (cs.zipIdx k).map (candidateRow unmatchedID tenantID) := by
  induction cs generalizing rows k with
  | nil => simp
  | cons c cs ih =>
    obtain ⟨hc,hcs⟩ := nodup_cons.mp hru
    have hf : ¬∃ r ∈ rows, r.unmatchedID = unmatchedID ∧ r.candidateSetVersion = 1 ∧
        (r.routeID = c.routeID ∨ r.rank = k) := by
      rintro ⟨r,hr,hid,-,hco⟩
      obtain ⟨hro,hra⟩ := hrw r hr hid
      rcases hco with heq | heq
      · exact hro (by simp [heq])
      · omega
    have hi : insertCandidate unmatchedID tenantID rows (c,k) =
        rows ++ [candidateRow unmatchedID tenantID (c,k)] := by
      unfold insertCandidate
      rw [if_neg hf]
      rfl
    rw [zipIdx_cons,foldl_cons,hi,ih hcs,map_cons,append_assoc, singleton_append]
    refine forall_snoc (fun r hr hid => ?_) fun _ => ⟨hc,Nat.lt_succ_self k⟩
    obtain ⟨hro,hra⟩ := hrw r hr hid
    exact ⟨fun hm => hro (mem_cons_of_mem _ hm),by omega⟩

lemma foldl_insertCandidate_self {ranked : List (Candidate × ℕ)}
    (h : ∀ c ∈ ranked, candidateRow unmatchedID tenantID c ∈ rows) :
    ranked.foldl (insertCandidate unmatchedID tenantID) rows = rows := by
  induction ranked with
  | nil => rfl
  | cons c ranked ih =>
    obtain ⟨hc,hra⟩ := forall_mem_cons.mp h
    have hi : insertCandidate unmatchedID tenantID rows c = rows :=
      if_pos ⟨_,hc,rfl,rfl,.inl rfl⟩
    rw [foldl_cons,hi,ih hra]

lemma setOf_recorded_self (hte : p.tenantID ≠ "")
    (hr : (p.candidates.map (·.routeID)).Nodup)
    (hn : setOf rows unmatchedID = [] ∨ setOf rows unmatchedID =
      (p.candidates.zipIdx 1).map (candidateRow unmatchedID p.tenantID)) :
    setOf (recorded unmatchedID p rows) unmatchedID =
      (p.candidates.zipIdx 1).map (candidateRow unmatchedID p.tenantID) := by
  rcases hn with hn | hn
  swap
  · have hsame : recorded unmatchedID p rows = rows := by
      rw [recorded,if_neg hte]
      refine foldl_insertCandidate_self fun c hc => ?_
      have hm : candidateRow unmatchedID p.tenantID c ∈ setOf rows unmatchedID :=
        hn ▸ mem_map_of_mem hc
      exact (mem_filter.mp hm).1
    rw [hsame,hn]
  have hro : ∀ c ∈ rows, c.unmatchedID ≠ unmatchedID := by
    intro c hc heq
    have hm : c ∈ setOf rows unmatchedID := mem_filter.mpr ⟨hc,decide_eq_true heq⟩
    rw [hn] at hm
    cases hm
  unfold recorded
  rw [if_neg hte,foldl_insertCandidate hr fun c hc hid => absurd hid (hro c hc)]
  unfold setOf at hn ⊢
  rw [filter_append,hn,nil_append,filter_eq_self]
  intro c hc
  obtain ⟨ranked,-,rfl⟩ := mem_map.mp hc
  exact decide_eq_true rfl

end

/-- The step leaves the anchors and the candidates of all unmatched payments alone. -/
structure Quiet (db db' : Database) : Prop where
  anchors : db'.unmatched.map anchor = db.unmatched.map anchor
  candidates : db'.candidates = db.candidates

inductive Marked (db : Database) (event : TransferEvent) (now : ℤ) : Database → Prop
  | noted {db' : Database} (hunmatched : db'.unmatched = db.unmatched)
      (hcandidates : db'.candidates = db.candidates) : Marked db event now db'
  | opened {db' : Database} (row : UnmatchedPayment) (hid : ∀ u ∈ db.unmatched, u.id ≠ row.id)
      (hrow : row.eventID = event.id) (hevent : ∀ u ∈ db.unmatched, u.eventID ≠ event.id)
      (hversion : row.workflowVersion = 1)
      (hunmatched : db'.unmatched = db.unmatched ++ [row])
      (hcandidates : ∀ x ≠ row.id, setOf db'.candidates x = setOf db.candidates x) :
      Marked db event now db'
  | again {db' : Database} (s : UnmatchedPayment) (hs : s ∈ db.unmatched)
      (hevent : s.eventID = event.id) (hreorged : s.status = .reorged)
      (row : UnmatchedPayment) (hrow : row.tenantID =
        if (findPotentialCandidates db event now).tenantID = "" then none
        else some (findPotentialCandidates db event now).tenantID)
      (hunmatched : db'.unmatched = update (·.eventID = event.id) (fun u => { u with
        tenantID := row.tenantID
        classification := row.classification
        status := row.status }) db.unmatched)
      (hcandidates : db'.candidates =
        recorded s.id (findPotentialCandidates db event now) db.candidates) :
      Marked db event now db'

variable {ext : Externals} {db db' : Database} {event : TransferEvent} {capability : String}
  {w w' : World} {a : Action}

section

variable {now : ℤ} {ids : IngestIDs} {result : SettlementResult}

lemma routeException_tables {webhookID : String}
    (h : routeException ext db event p unmatchedID now webhookID = .ok db') :
    db'.unmatched = db.unmatched ∧ db'.candidates = recorded unmatchedID p db.candidates := by
  unfold routeException at h
  unfold recorded
  split at h
  · rename_i hn
    cases h
    rw [if_pos hn]
    exact ⟨rfl,rfl⟩
  · rename_i hso
    rw [if_neg hso]
    simp only at h
    split at h
    · obtain ⟨d,hr,rfl⟩ := map_eq_ok.mp h
      obtain ⟨jobs,hj⟩ := enqueueAutomatedMatchingCandidates_frame d p.tenantID
        [‹Candidate›] now
      rw [hj]
      split at hr
      · obtain ⟨callbacks,intents,-,rfl⟩ := recordExceptionIntent_frame hr
        exact ⟨rfl,rfl⟩
      · cases hr
        exact ⟨rfl,rfl⟩
    · split at h
      · cases h
        exact ⟨rfl,rfl⟩
      · obtain ⟨callbacks,intents,-,rfl⟩ := recordExceptionIntent_frame h
        exact ⟨rfl,rfl⟩

lemma recordUnmatched_marked {several : Bool} {outcome : SettlementOutcome}
    (h : recordUnmatched ext db event several now ids = .ok (db',outcome)) :
    Marked db event now db' := by
  simp only [recordUnmatched,do_ok] at h
  obtain ⟨dust,-,h⟩ := h
  split at h
  · simp only [do_ok] at h
    obtain ⟨d,hi,hre⟩ := h
    obtain ⟨rfl,-⟩ := Prod.mk.inj hre
    unfold ignoreDust at hi
    split at hi
    · cases hi
      exact .noted rfl rfl
    · rename_i hn
      simp only [do_ok,insertUnique_eq_ok] at hi
      obtain ⟨rows,⟨hid,rfl⟩,rfl⟩ := hi
      exact .opened _ hid rfl (fun u hu heq => hn ⟨u,hu,heq⟩) rfl rfl fun _ _ => rfl
  · simp only [do_ok] at h
    obtain ⟨⟨d,unmatchedID⟩,hup,d',hro,hre⟩ := h
    obtain ⟨rfl,-⟩ := Prod.mk.inj hre
    obtain ⟨hun,hca⟩ := routeException_tables hro
    unfold upsertUnmatched at hup
    split at hup
    · rename_i hn
      simp only [do_ok,insertUnique_eq_ok] at hup
      obtain ⟨rows,⟨hid,rfl⟩,hw⟩ := hup
      cases hw
      refine .opened _ hid rfl (fun u hu heq => ?_) rfl hun fun x hx => ?_
      · have hno := find?_eq_none.mp hn u hu
        exact hno (decide_eq_true heq)
      · rw [hca]
        exact setOf_recorded hx _ _
    · rename_i stored hst
      obtain ⟨hm,he⟩ := mem_of_find? hst
      split at hup
      · rename_i hr
        cases Except.ok.inj hup
        exact .again stored hm he hr _ rfl hun hca
      · cases hup

lemma settleOrClassify_marked
    (h : settleOrClassify ext db event now ids = .ok (db',result)) : Marked db event now db' := by
  have had : ∀ {c : SettlementCandidate} {d : Database} {o : PaymentObservation},
      advancePaymentObservation db c event ids.observation ids.observationWebhook = .ok (d,o) →
      Marked db event now d := by
    intro c d o hst
    obtain ⟨observations,events,callbacks,intents,-,rfl⟩ := advancePaymentObservation_frame hst
    exact .noted rfl rfl
  unfold settleOrClassify at h
  simp only at h
  split at h
  · split at h
    · simp only [do_ok] at h
      obtain ⟨⟨d,o⟩,hst,hre⟩ := h
      obtain ⟨rfl,-⟩ := Prod.mk.inj hre
      exact had hst
    · cases h
      exact .noted rfl rfl
  · rename_i hsa
    split at h
    · cases h
      exact .noted rfl rfl
    · split at h
      · split at h
        · simp only [do_ok] at h
          obtain ⟨⟨d,o⟩,hst,hre⟩ := h
          obtain ⟨rfl,-⟩ := Prod.mk.inj hre
          exact had hst
        · simp only [do_ok] at h
          obtain ⟨d,hse,hre⟩ := h
          obtain ⟨rfl,-⟩ := Prod.mk.inj hre
          obtain ⟨observations,events,callbacks,orders,rfl⟩ :=
            (settleExact_settled (not_not.mp hsa) hse).result
          exact .noted rfl rfl
      · simp only [do_ok] at h
        obtain ⟨⟨d,outcome⟩,hr,hre⟩ := h
        obtain ⟨rfl,-⟩ := Prod.mk.inj hre
        exact recordUnmatched_marked hr

lemma ingestAndSettle_marked (h : ingestAndSettle ext db event now ids = .ok (db',result)) :
    ∃ c, insertCanonicalTransfer ext db event = .ok c ∧
      c.db.unmatched = db.unmatched ∧ c.db.candidates = db.candidates ∧
      Marked c.db c.event now db' := by
  simp only [ingestAndSettle,do_ok] at h
  obtain ⟨c,hr,h⟩ := h
  obtain ⟨rows,hf⟩ := (insertCanonicalTransfer_recorded hr).frame
  refine ⟨c,hr,by rw [hf],by rw [hf],?_⟩
  split at h
  · exact settleOrClassify_marked h
  · obtain ⟨rfl,-⟩ := Prod.mk.inj (pure_eq_ok.mp h)
    exact .noted rfl rfl

lemma Quiet.refl (db : Database) : Quiet db db := ⟨rfl,rfl⟩

lemma Quiet.trans {mid : Database} (h₁ : Quiet db mid) (h₂ : Quiet mid db') : Quiet db db' :=
  ⟨h₂.anchors.trans h₁.anchors,h₂.candidates.trans h₁.candidates⟩

lemma traverse_orphaned_quiet {reorgIDs : ReorgIDs} {events : List String}
    (h : traverse (orphanTransfer now reorgIDs) events db = .ok db') : Quiet db db' := by
  refine traverse_invariant (fun s e t _ hq hst => hq.trans ⟨?_,?_⟩) (.refl db) h
  · rw [(orphanTransfer_orphaned hst).unmatched]
    exact map_update fun _ _ _ => rfl
  · exact (orphanTransfer_orphaned hst).aside.candidates

lemma Applied.quiet {r : AutomatedMatchingRoute} {aggregateID : String}
    {d : AutomatedMatchDecision} {reconcileIDs : ReconcileIDs}
    (h : Applied ext db r aggregateID d reconcileIDs db') : Quiet db db' := by
  cases h with
  | collected | reviewed | settled => exact ⟨map_update fun _ _ _ => rfl,rfl⟩

lemma EvidenceOnly.quiet (h : EvidenceOnly db db') : Quiet db db' := by
  obtain ⟨_,_,_,_,_,rfl⟩ := h.result
  exact ⟨rfl,rfl⟩

lemma exec_quiet (h : exec ext capability w a = .ok w') :
    Quiet w.db w'.db ∨ ∃ event now ids result, a = .ingestAndSettle event now ids ∧
      ingestAndSettle ext w.db event now ids = .ok (w'.db,result) := by
  cases exec_step h with
  | quiet => exact .inl ⟨rfl,rfl⟩
  | rewindReorg hd =>
    obtain ⟨mid,cursors,ho,rfl⟩ := rewindReorg_effect hd
    have hq := traverse_orphaned_quiet ho
    exact .inl ⟨hq.anchors,hq.candidates⟩
  | ingestAndSettle hd => exact .inr ⟨_,_,_,_,rfl,hd⟩
  | reconcileMatching hd =>
    obtain ⟨r,decision,aggregateID,aggregates,d',jobs,-,-,-,hap,-,rfl⟩ :=
      reconcileAutomatedMatching_effect hd
    have hq := Applied.quiet hap
    exact .inl ⟨hq.anchors,hq.candidates⟩
  | resolve hj hd =>
    obtain ⟨m,hse⟩ := resolve_settled hd
    obtain ⟨callbacks,status,rfl⟩ := hse.result
    exact .inl ⟨map_update fun _ _ _ => rfl,rfl⟩
  | ingestProviderPayment hd =>
    rcases ingestVerifiedProviderPayment_effect hd with ⟨he,-⟩ |
      ⟨c,mid,mid',-,hbe,hse,haf,-⟩
    · exact .inl (EvidenceOnly.quiet he)
    · obtain ⟨intents,orders,callbacks,rfl⟩ := hse.result
      have hmi := EvidenceOnly.quiet haf
      have hf := EvidenceOnly.quiet hbe
      exact .inl ⟨hmi.anchors.trans hf.anchors,hmi.candidates.trans hf.candidates⟩

end

lemma Keyed.of_anchors {rows rows' : List UnmatchedPayment} (hke : Keyed rows)
    (h : rows'.map anchor = rows.map anchor) : Keyed rows' := by
  have hi : rows'.map (·.id) = rows.map (·.id) := by
    have hp := congrArg (List.map fun k : String × String × Option String × ℤ => k.1) h
    rw [map_map,map_map] at hp
    exact hp
  have he : rows'.map (·.eventID) = rows.map (·.eventID) := by
    have hp := congrArg (List.map fun k : String × String × Option String × ℤ => k.2.1) h
    rw [map_map,map_map] at hp
    exact hp
  refine ⟨hi ▸ hke.ids,he ▸ hke.events,fun u hu => ?_⟩
  obtain ⟨v,hv,han⟩ := mem_map.mp (h ▸ mem_map_of_mem hu)
  rw [← (anchor_fields han).2.2.2]
  exact hke.version v hv

lemma Keyed.marked {now : ℤ} (hk : Keyed db.unmatched)
    (h : Marked db event now db') : Keyed db'.unmatched := by
  cases h with
  | noted hun _ => exact hun ▸ hk
  | opened row hid hro he hv hun _ =>
    rw [hun]
    exact ⟨nodup_map_append hk.ids hid,nodup_map_append hk.events (hro ▸ he),forall_snoc hk.version hv⟩
  | again s hs he hr row hro hun _ =>
    have hi : db'.unmatched.map (·.id) = db.unmatched.map (·.id) := by
      rw [hun]
      exact map_update fun _ _ _ => rfl
    have hev : db'.unmatched.map (·.eventID) = db.unmatched.map (·.eventID) := by
      rw [hun]
      exact map_update fun _ _ _ => rfl
    refine ⟨hi ▸ hk.ids,hev ▸ hk.events,?_⟩
    rw [hun]
    exact forall_update hk.version fun u _ _ hv => hv

lemma Keyed.step (hk : Keyed w.db.unmatched) (h : exec ext capability w a = .ok w') :
    Keyed w'.db.unmatched := by
  rcases exec_quiet h with hq | ⟨event,now,ids,result,-,hi⟩
  · exact hk.of_anchors hq.anchors
  · obtain ⟨c,-,hu,-,hm⟩ := ingestAndSettle_marked hi
    exact Keyed.marked (hu ▸ hk) hm

lemma stays_step (hk : Keyed w.db.unmatched) (hu : u ∈ w.db.unmatched)
    (hst : u.status ≠ .reorged) (h : exec ext capability w a = .ok w') :
    (∃ v ∈ w'.db.unmatched, anchor v = anchor u) ∧
      setOf w'.db.candidates u.id = setOf w.db.candidates u.id := by
  rcases exec_quiet h with hq | ⟨event,now,ids,result,-,hi⟩
  · refine ⟨?_,by rw [hq.candidates]⟩
    exact mem_map.mp (hq.anchors ▸ mem_map_of_mem hu)
  obtain ⟨c,-,hun,hca,hm⟩ := ingestAndSettle_marked hi
  rw [← hun] at hk hu
  rw [← hca]
  cases hm with
  | noted hr hse => exact ⟨⟨u,hr ▸ hu,rfl⟩,by rw [hse]⟩
  | opened row hid _ _ _ hr hse =>
    refine ⟨⟨u,?_,rfl⟩,hse u.id (hid u hu)⟩
    rw [hr]
    exact mem_append_left _ hu
  | again s hs hev hre row _ hr hse =>
    -- The payment that returns is another one, because it is reorged.
    have ho : u ≠ s := fun heq => hst (heq ▸ hre)
    have he : u.eventID ≠ c.event.id := fun heq =>
      ho (inj_on_of_nodup_map hk.events hu hs (heq.trans hev.symm))
    refine ⟨⟨u,?_,rfl⟩,?_⟩
    · rw [hr]
      exact mem_update_of hu he
    · rw [hse]
      exact setOf_recorded
        (fun heq => ho (inj_on_of_nodup_map hk.ids hu hs heq)) _ _

abbrev Standing (eventID : String) (w : World) : Prop :=
  ∀ u ∈ w.db.unmatched, u.eventID = eventID → u.status ≠ .reorged

/-- The recorded candidates of a payment stay while it is not reorged. -/
lemma stays_run {as : List Action} (hk : Keyed w.db.unmatched) (hu : u ∈ w.db.unmatched)
    (hst : ∀ n, Standing u.eventID (run (exec ext capability) w (as.take n))) :
    Keyed (run (exec ext capability) w as).db.unmatched ∧
      (∃ v ∈ (run (exec ext capability) w as).db.unmatched, anchor v = anchor u) ∧
      setOf (run (exec ext capability) w as).db.candidates u.id = setOf w.db.candidates u.id := by
  induction as generalizing w u with
  | nil => exact ⟨hk,⟨u,hu,rfl⟩,rfl⟩
  | cons a as ih =>
    have hsa := hst 0 u hu rfl
    have hl : ∀ n, Standing u.eventID
        (run (exec ext capability) (commit (exec ext capability) w a) (as.take n)) :=
      fun n => hst (n+1)
    rw [run_cons]
    cases he : exec ext capability w a with
    | error failure =>
      have hsame : commit (exec ext capability) w a = w := by simp [commit,he]
      rw [hsame] at hl ⊢
      exact ih hk hu hl
    | ok w' =>
      rw [commit_of_ok he] at hl ⊢
      obtain ⟨⟨v,hv,han⟩,hse⟩ := stays_step hk hu hsa he
      obtain ⟨hid,hev,-,-⟩ := anchor_fields han
      obtain ⟨hk',⟨x,hx,han'⟩,hse'⟩ :=
        ih (hk.step he) hv (hev.symm ▸ hl)
      rw [hid] at hse'
      exact ⟨hk',⟨x,hx,han'.trans han⟩,hse'.trans hse⟩

def shown (c : Candidate) : String × ℤ × ExceptionClass × List String :=
  (c.routeID,c.score,c.exceptionClass,c.reasons)

abbrev openStatuses : List UnmatchedStatus := [.new,.candidatesReady,.bound]

lemma storedCandidates_eq (hk : Keyed db.unmatched) (hu : u ∈ db.unmatched)
    (he : u.eventID = event.id) (ho : u.status ∈ openStatuses) :
    (storedCandidates db event tenantID).map shown = if u.tenantID = some tenantID then
        (((setOf db.candidates u.id).filter fun c => c.tenantID = tenantID ∧
            c.candidateSetVersion = 1).insertionSort fun a b =>
          b.score < a.score ∨ (a.score = b.score ∧ a.rank ≤ b.rank)).map
            fun c => (c.routeID,c.score,c.exceptionClass,c.reasons) else [] := by
  have hve := hk.version u hu
  have hro : db.unmatched.filter (fun v => v.eventID = event.id ∧ v.tenantID = some tenantID ∧
      v.status ∈ openStatuses) = if u.tenantID = some tenantID then [u] else [] := by
    have hsp : db.unmatched.filter (fun v => v.eventID = event.id ∧
        v.tenantID = some tenantID ∧ v.status ∈ openStatuses) =
        (db.unmatched.filter fun v => v.eventID = u.eventID).filter fun v =>
          v.tenantID = some tenantID ∧ v.status ∈ openStatuses := by
      rw [filter_filter,he]
      refine filter_congr fun v _ => ?_
      rw [Bool.decide_and,Bool.and_comm]
    rw [hsp,filter_key hk.events hu]
    split
    · rename_i hte
      refine filter_eq_self.mpr fun v hv => ?_
      rw [mem_singleton.mp hv]
      exact decide_eq_true ⟨hte,ho⟩
    · rename_i hte
      refine filter_eq_nil_iff.mpr fun v hv => ?_
      rw [mem_singleton.mp hv]
      simp [hte]
  unfold storedCandidates
  rw [hro]
  split
  · have hr : db.candidates.filter (fun c => c.unmatchedID = u.id ∧ c.tenantID = tenantID ∧
        c.candidateSetVersion = u.workflowVersion) = (setOf db.candidates u.id).filter fun c =>
          c.tenantID = tenantID ∧ c.candidateSetVersion = 1 := by
      rw [setOf,filter_filter,hve]
      refine filter_congr fun c _ => ?_
      rw [Bool.decide_and,Bool.and_comm]
    rw [flatMap_singleton,hr,map_map]
    rfl
  · rfl

lemma read_ranked (hde : Descending cs) (k : ℕ) :
    (((((cs.zipIdx k).map (candidateRow unmatchedID tenantID)).filter fun c =>
        c.tenantID = tenantID ∧ c.candidateSetVersion = 1).insertionSort fun a b =>
      b.score < a.score ∨ (a.score = b.score ∧ a.rank ≤ b.rank)).map
        fun c => (c.routeID,c.score,c.exceptionClass,c.reasons)) = cs.map shown := by
  have hal : ((cs.zipIdx k).map (candidateRow unmatchedID tenantID)).filter (fun c =>
      c.tenantID = tenantID ∧ c.candidateSetVersion = 1) =
        (cs.zipIdx k).map (candidateRow unmatchedID tenantID) := by
    rw [filter_eq_self]
    intro c hc
    obtain ⟨ranked,-,rfl⟩ := mem_map.mp hc
    exact decide_eq_true ⟨rfl,rfl⟩
  have hso : ((cs.zipIdx k).map (candidateRow unmatchedID tenantID)).Pairwise fun a b =>
      b.score < a.score ∨ (a.score = b.score ∧ a.rank ≤ b.rank) := by
    clear hal
    induction cs generalizing k with
    | nil => simp
    | cons c cs ih =>
      obtain ⟨hf,hre⟩ := pairwise_cons.mp hde
      refine pairwise_cons.mpr ⟨fun r hr => ?_,ih hre (k+1)⟩
      obtain ⟨⟨d,rank⟩,hd,rfl⟩ := mem_map.mp hr
      have hsc := hf d (fst_mem_of_mem_zipIdx hd)
      have hra := le_snd_of_mem_zipIdx hd
      simp only [candidateRow]
      omega
  rw [hal,List.Pairwise.insertionSort_eq hso,map_map]
  have hp := zipIdx_map_fst k cs
  conv_rhs => rw [← hp]
  rw [map_map]
  rfl

/-- Nothing stands in the way of recording the candidates of the transfer: no candidates are
recorded for its payment yet, or just these, and the routes that come into question are at most a
hundred of one tenant. -/
structure Recordable (db : Database) (event : TransferEvent) (now : ℤ) (tenantID : String) :
    Prop where
  fresh : ∀ u ∈ db.unmatched, u.eventID = event.id → setOf db.candidates u.id = [] ∨
    setOf db.candidates u.id = ((buildCandidates event (matchingRoutes db event) now).zipIdx 1).map
      (candidateRow u.id tenantID)
  few : (matchingRoutes db event).length ≤ 100
  tenant : ∀ r ∈ matchingRoutes db event, r.tenantID = tenantID

section

variable (now : ℤ)

lemma findPotentialCandidates_eq (h : Recordable db event now tenantID) :
    (findPotentialCandidates db event now).candidates =
        buildCandidates event (matchingRoutes db event) now ∧
      (findPotentialCandidates db event now).tenantID =
        if matchingRoutes db event = [] then "" else tenantID := by
  have hrw : potentialRoutes db event = matchingRoutes db event := by
    rw [potentialRoutes]
    exact take_of_length_le (by have := h.few; omega)
  unfold findPotentialCandidates
  simp only [hrw,take_of_length_le h.few]
  cases hro : matchingRoutes db event with
  | nil => exact ⟨rfl,rfl⟩
  | cons first rest =>
    have hte := h.tenant
    have hf := h.few
    rw [hro] at hte hf
    have ho : ¬((first::rest).any fun r => decide (r.tenantID ≠ first.tenantID)) = true := by
      rw [any_eq_true]
      rintro ⟨r,hr,hne⟩
      rw [hte r hr,hte first mem_cons_self] at hne
      simp at hne
    dsimp only
    rw [if_neg ho]
    simp only [if_neg (not_lt.mpr hf)]
    exact ⟨trivial,hte first mem_cons_self⟩

lemma nodup_built {routes : List PaymentRoute} (hi : (routes.map (·.id)).Nodup) :
    ((buildCandidates event routes now).map (·.routeID)).Nodup := by
  have hr := (perm_insertionSort Ranks
    (rewardUnique (candidatesOf event now routes))).map (·.routeID)
  rw [buildCandidates,map_markAmbiguous (·.routeID) fun _ => rfl]
  refine hr.nodup_iff.mpr ?_
  rw [AutomaticWinner.rewardUnique_ids]
  exact nodup_candidatesOf hi

end

section

variable {stored : TransferEvent}

lemma reincluded_eq {c : Canonical}
    (hst : db.transferEvents.find? (·.identity = event.identity) = some stored)
    (hr : stored.status = .reorged) (h : insertCanonicalTransfer ext db event = .ok c) :
    ∃ rows, c.db = { db with transferEvents := rows } ∧ c.event = { event with id := stored.id } := by
  simp only [insertCanonicalTransfer,hst,do_ok,if_pos hr,reincludeTransfer] at h
  obtain ⟨-,-,-,-,rows,-,rfl⟩ := h
  exact ⟨rows,rfl,rfl⟩

end

/-- After a run, a transfer whose unmatched payment is reorged returns and is recorded again while
nothing stands in the way. Then, as long as no reorganisation takes it away, the candidates that
are read for it are the ones of the returned transfer and the routes that came into question. -/
theorem recorded_candidates_current (ext : Externals) (capability : String) (w₀ : World)
    (before after : List Action) {w w₁ w₂ : World} (event stored : TransferEvent) (now : ℤ)
    (ids : IngestIDs) (tenantID : String)
    (hstart : Keyed w₀.db.unmatched) (hbefore : run (exec ext capability) w₀ before = w)
    (hroutes : (w.db.routes.map (·.id)).Nodup)
    (hstored : w.db.transferEvents.find? (·.identity = event.identity) = some stored)
    (hreorged : stored.status = .reorged)
    (hpayment : ∃ u ∈ w.db.unmatched, u.eventID = stored.id ∧ u.status = .reorged)
    (htenant : tenantID ≠ "")
    (hrecordable : Recordable w.db { event with id := stored.id } now tenantID)
    (hexec : exec ext capability w (.ingestAndSettle event now ids) = .ok w₁)
    (hafter : run (exec ext capability) w₁ after = w₂)
    (hstanding : ∀ n, Standing stored.id (run (exec ext capability) w₁ (after.take n)))
    (hopen : ∃ u ∈ w₂.db.unmatched, u.eventID = stored.id ∧ u.status ∈ openStatuses) :
    (storedCandidates w₂.db { event with id := stored.id } tenantID).map shown =
      (buildCandidates { event with id := stored.id }
        (matchingRoutes w.db { event with id := stored.id }) now).map shown := by
  have hk : Keyed w.db.unmatched := by
    rw [← hbefore]
    exact run_keeps (P := fun w : World => Keyed w.db.unmatched)
      (fun _ _ _ h hsp => h.step hsp) hstart
  have hk₁ := hk.step hexec
  obtain ⟨result,hi⟩ : ∃ result,
      ingestAndSettle ext w.db event now ids = .ok (w₁.db,result) := by
    obtain ⟨⟨d,result⟩,hd,rfl⟩ := map_eq_ok.mp hexec
    exact ⟨result,hd⟩
  obtain ⟨c,hr,-,-,hm⟩ := ingestAndSettle_marked hi
  obtain ⟨rows,hdb,he⟩ := reincluded_eq hstored hreorged hr
  obtain ⟨u₀,hu₀,hu₀event,hu₀status⟩ := hpayment
  rw [he,hdb] at hm
  -- The payment is no longer reorged, so it was recorded again.
  cases hm with
  | noted hsame _ => exact absurd hu₀status (hstanding 0 u₀ (hsame.symm ▸ hu₀) hu₀event)
  | opened _ _ _ hne _ _ _ => exact absurd hu₀event (hne u₀ hu₀)
  | again s hs hse _ row hrow hrw hst =>
    have hs₁ : { s with
        tenantID := row.tenantID
        classification := row.classification
        status := row.status } ∈ w₁.db.unmatched := by
      rw [hrw]
      exact mem_update_self hs hse
    have hsa : ∀ n, Standing s.eventID (run (exec ext capability) w₁ (after.take n)) := by
      rw [hse]
      exact hstanding
    obtain ⟨hk₂,⟨v,hv,han⟩,hset⟩ := stays_run hk₁ hs₁ hsa
    rw [hafter] at hk₂ hv hset
    obtain ⟨hvi,hve,hvt,-⟩ := anchor_fields han
    obtain ⟨x,hx,hxe,hxo⟩ := hopen
    have hxv : x = v := inj_on_of_nodup_map hk₂.events hx hv
      (hxe.trans (hve.trans hse).symm)
    subst hxv
    obtain ⟨hbu,hp⟩ := findPotentialCandidates_eq now hrecordable
    have hro : findPotentialCandidates { w.db with transferEvents := rows }
        { event with id := stored.id } now =
        findPotentialCandidates w.db { event with id := stored.id } now := rfl
    rw [hro] at hrow hst
    rw [storedCandidates_eq hk₂ hv (hve.trans hse) hxo,hvt,hrow,hp]
    by_cases hno : matchingRoutes w.db { event with id := stored.id } = []
    · rw [hno]
      rfl
    · rw [if_neg hno,if_neg htenant,if_pos rfl]
      rw [if_neg hno] at hp
      have hf := hrecordable.fresh s hs hse
      have hwr :=
        (congrArg (setOf · s.id) hst).trans (setOf_recorded_self (by rw [hp]; exact htenant)
          (by rw [hbu]; exact nodup_built now (nodup_matchingRoutes hroutes))
          (by rw [hbu,hp]; exact hf))
      rw [hvi,hset,hwr,hbu,hp]
      exact read_ranked (descending_built _) 1

variable (onChainTime : ℤ)

/-- A payment of 99 units at the given time is recorded as unmatched; then its block is replaced
and the payment is in the new block. -/
def sampleOrphaned : List Action :=
  sampleScanned [] ++ .ingestAndSettle { samplePayment "pay" 99 "block-7" with onChainTime } 60
    (sampleIngestIDs "1")::sampleReplaced ++ sampleRescanned []

def sampleReturn : TransferEvent :=
  { samplePayment "pay" 99 "rival-7" with onChainTime }

abbrev sampleBefore : World :=
  run (exec sampleExternals "transfers") sampleBound (sampleOrphaned onChainTime)

lemma sampleBefore_facts : (∀ u ∈ (sampleBefore (hours 48)).db.unmatched, u.eventID = "pay" →
        setOf (sampleBefore (hours 48)).db.candidates u.id = []) ∧
      (matchingRoutes (sampleBefore (hours 48)).db (sampleReturn 50)).map (·.tenantID) = ["tenant"] ∧
      ((sampleBefore (hours 48)).db.routes.map (·.id)).Nodup ∧
      (∃ u ∈ (sampleBefore (hours 48)).db.unmatched, u.eventID = "pay" ∧ u.status = .reorged) ∧
      ((sampleBefore (hours 48)).db.transferEvents.find?
        (·.identity = (sampleReturn 50).identity)).map (fun t => (t.id,t.status)) =
          some ("pay",.reorged) ∧ ∃ w₁, exec sampleExternals "transfers" (sampleBefore (hours 48))
          (.ingestAndSettle (sampleReturn 50) 60 (sampleIngestIDs "2")) = .ok w₁ ∧
        w₁.db.unmatched.map (fun u => (u.eventID,u.status)) = [("pay",.candidatesReady)] := by
  decide +kernel

theorem recorded_candidates_current_sample :
    ∃ w₁, exec sampleExternals "transfers" (sampleBefore (hours 48))
        (.ingestAndSettle (sampleReturn 50) 60 (sampleIngestIDs "2")) = .ok w₁ ∧
      (storedCandidates w₁.db (sampleReturn 50) "tenant").map shown =
        (buildCandidates (sampleReturn 50)
          (matchingRoutes (sampleBefore (hours 48)).db (sampleReturn 50)) 60).map shown := by
  obtain ⟨hfr,hte,hro,hp,hst,w₁,hee,hrw⟩ := sampleBefore_facts
  obtain ⟨stored,hfn,hfi⟩ := Option.map_eq_some_iff.mp hst
  obtain ⟨hid,hre⟩ := Prod.mk.inj hfi
  have he : { sampleReturn 50 with id := stored.id } = sampleReturn 50 := by rw [hid]; rfl
  have hsh : ∀ u ∈ w₁.db.unmatched, u.status = .candidatesReady := by
    intro u hu
    have hm := mem_map_of_mem (f := fun u : UnmatchedPayment => (u.eventID,u.status)) hu
    rw [hrw,mem_singleton] at hm
    exact (Prod.mk.inj hm).2
  have ho : ∃ u ∈ w₁.db.unmatched, u.eventID = stored.id ∧ u.status ∈ openStatuses := by
    obtain ⟨u,hu,heq⟩ := mem_map.mp (hrw ▸ mem_singleton_self ("pay",_))
    exact ⟨u,hu,(Prod.mk.inj heq).1.trans hid.symm,by rw [hsh u hu]; decide⟩
  have hun : Recordable (sampleBefore (hours 48)).db
      { sampleReturn 50 with id := stored.id } 60 "tenant" := by
    rw [he]
    refine ⟨fun u hu hid => .inl (hfr u hu hid),?_,fun r hr => ?_⟩
    · have hl := congrArg List.length hte
      exact hl.trans_le (by decide)
    · exact mem_singleton.mp (hte ▸ mem_map_of_mem hr)
  have hcu := recorded_candidates_current sampleExternals "transfers" sampleBound
    (sampleOrphaned (hours 48)) [] (sampleReturn 50) stored 60 (sampleIngestIDs "2") "tenant"
    ⟨nodup_nil,nodup_nil,by simp [sampleBound,sampleStart]⟩ rfl hro hfn hre
    (hid ▸ hp) (by decide) hun hee rfl
    (fun n u hu _ => by
      rw [take_nil] at hu
      rw [hsh u hu]
      decide) ho
  rw [he] at hcu
  exact ⟨w₁,hee,hcu⟩

/-- The payment first comes inside the window and returns after it: what is read for it still says
that it was paid in time. -/
theorem returned_payment_stale :
    let w₁ := run (exec sampleExternals "transfers") sampleBound (sampleOrphaned 50 ++
      [.ingestAndSettle (sampleReturn 150) 160 (sampleIngestIDs "2")])
    w₁.db.unmatched.map (fun u => (u.eventID,u.status)) = [("pay",.candidatesReady)] ∧
      (storedCandidates w₁.db (sampleReturn 150) "tenant").map shown =
        [("route",120,.partialPayment,["same_chain", "same_recipient", "within_payment_window",
          "underpayment_within_five_percent", "route_still_open"])] ∧
      (buildCandidates (sampleReturn 150)
        (matchingRoutes (sampleBefore 50).db (sampleReturn 150)) 160).map shown =
        [("route",85,.late,["same_chain", "same_recipient", "within_automatic_30_minute_grace",
          "after_expiry", "underpayment_within_five_percent"])] := by
  decide +kernel

end Ocrypt.CandidateSets
