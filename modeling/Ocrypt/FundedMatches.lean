import Ocrypt.BalancedRuns
import Ocrypt.HostedEffects

/-! Every match of a transfer received what the transfer moved, in every run of the workers,
provider payments and reused identifiers included. -/
namespace Ocrypt.FundedMatches
open Domain Matching Table Store Settlement Reorg Resolutions HostedSettlement Workers IngestEffects
  ReorgEffects MatchingEffects MatchingStore ResolutionEffects HostedEffects BalancedRuns List

def facts (db : Database) : List TransferFacts := db.transferEvents.map factsOf

def Backed (transfers : List TransferFacts) (m : PaymentMatch) : Prop :=
  ∀ id, m.source = .transfer id → ∃ t ∈ transfers, t.id = id ∧ m.received = t.amount

variable {db db' : Database} {m : PaymentMatch}

lemma Backed.mono {a b : List TransferFacts} (h : Backed a m) (hsu : a ⊆ b) : Backed b m := by
  intro id hso
  obtain ⟨t,ht,hid,hr⟩ := h id hso
  exact ⟨t,hsu ht,hid,hr⟩

/-- The transfers have unique ids, and matches and claimed copies rest on them. -/
structure Funded (w : World) : Prop where
  transferIDs : ((facts w.db).map (·.id)).Nodup
  backed : ∀ m ∈ w.db.paymentMatches, Backed (facts w.db) m
  copies : ∀ job ∈ w.resolutionJobs, factsOf job.expected ∈ facts w.db

variable {w : World}

lemma Blank.funded (h : Blank w) : Funded w := by
  refine ⟨?_,?_,?_⟩
  · simp [facts,h.transferEvents]
  · simp [h.paymentMatches]
  · simp [h.resolutionJobs]

structure Grows (db db' : Database) : Prop where
  kept : facts db ⊆ facts db'
  transferIDs : ((facts db).map (·.id)).Nodup → ((facts db').map (·.id)).Nodup
  backed : ((facts db).map (·.id)).Nodup → (∀ m ∈ db.paymentMatches, Backed (facts db) m) →
    ∀ m ∈ db'.paymentMatches, Backed (facts db') m

variable {w' : World}

lemma Grows.funded (hg : Grows w.db w'.db) (h : Funded w)
    (hj : w'.resolutionJobs = w.resolutionJobs) : Funded w' := by
  refine ⟨hg.transferIDs h.transferIDs,hg.backed h.transferIDs h.backed,?_⟩
  rw [hj]
  exact fun job hjo => hg.kept (h.copies job hjo)

lemma Grows.of_facts (hf : facts db' = facts db)
    (hba : ((facts db).map (·.id)).Nodup → (∀ m ∈ db.paymentMatches, Backed (facts db) m) →
      ∀ m ∈ db'.paymentMatches, Backed (facts db) m) : Grows db db' := by
  refine ⟨?_,?_,?_⟩
  · rw [hf]
    exact fun _ ht => ht
  · rw [hf]
    exact id
  · rw [hf]
    exact hba

lemma Grows.trans {a b c : Database} (h : Grows a b) (h' : Grows b c) : Grows a c :=
  ⟨fun _ ht => h'.kept (h.kept ht),fun hi => h'.transferIDs (h.transferIDs hi),
    fun hi hba => h'.backed (h.transferIDs hi) (h.backed hi hba)⟩

lemma grows_match (hf : facts db' = facts db)
    (hma : db'.paymentMatches = db.paymentMatches ++ [m]) (hm : Backed (facts db) m) :
    Grows db db' := by
  refine Grows.of_facts hf fun _ hba => ?_
  rw [hma]
  exact forall_snoc hba hm

variable {transfers : List TransferFacts} {event : TransferEvent}

lemma backed_of_copy (he : factsOf event ∈ transfers) (hso : m.source = .transfer event.id)
    (hr : m.received = event.amount) : Backed transfers m := by
  intro id hid
  rw [hso] at hid
  cases hid
  exact ⟨factsOf event,he,rfl,hr⟩

variable {ext : Externals} {clock now : ℤ} {capability : String}

section
variable {ids : ReconcileIDs}

lemma grows_recorded {c : Canonical} (h : Recorded db event c) : Grows db c.db := by
  obtain ⟨rows,hf⟩ := h.frame
  have hma : c.db.paymentMatches = db.paymentMatches := by rw [hf]
  rcases h.facts with hsame | ⟨hn,hfr⟩
  · refine Grows.of_facts hsame fun _ hba => ?_
    rw [hma]
    exact hba
  · have hsu : facts db ⊆ facts c.db := by
      intro t ht
      unfold facts
      rw [hn]
      exact mem_append_left _ ht
    refine ⟨hsu,fun hi => ?_,fun _ hba m hm => ?_⟩
    · unfold facts
      rw [hn]
      refine nodup_map_append hi fun t ht => ?_
      obtain ⟨e,he,rfl⟩ := mem_map.mp ht
      exact hfr e he
    · rw [hma] at hm
      exact (hba m hm).mono hsu

lemma grows_ingest {ids : IngestIDs} {result : SettlementResult}
    (hee : ingestAndSettle ext db event now ids = .ok (db',result)) : Grows db db' := by
  obtain ⟨c,hr,-,he⟩ := ingestAndSettle_effect hee
  refine (grows_recorded hr).trans ?_
  rcases he with ⟨hac,hcl⟩ | ⟨-,rfl,-⟩
  · obtain ⟨row,hro,hf,-⟩ := hr.row hac
    have hev : factsOf c.event ∈ facts c.db := hf ▸ mem_map_of_mem hro
    generalize result.outcome = outcome at hcl
    cases hcl with
    | noted | unmatched => exact Grows.of_facts rfl fun _ hba => hba
    | settled candidate _ hfn hca hfi hse =>
      obtain ⟨observations,observationEvents,callbacks,providerOrders,rfl⟩ := hse.result
      exact grows_match rfl rfl (backed_of_copy hev rfl rfl)
  · exact Grows.of_facts rfl fun _ hba => hba

lemma grows_rewind {lease : Scanner.Lease} {batch : Scanner.RangeBatch}
    {incidentHeight : ℕ} {ids : ReorgIDs}
    (he : rewindReorg capability db lease batch incidentHeight clock ids = .ok db') :
    Grows db db' := by
  obtain ⟨d,cursors,htr,rfl⟩ := rewindReorg_effect he
  obtain ⟨has,hma⟩ := traverse_orphaned htr
  have hf : facts { markReorged d (replacedEvents db lease batch) with cursors := cursors } =
      facts db := by
    refine Eq.trans ?_ (congrArg (List.map factsOf) has.transferEvents)
    exact map_update fun _ _ _ => rfl
  refine Grows.of_facts hf fun _ hba m hm => ?_
  rcases hma m hm with ⟨hold,-⟩ | ⟨m₀,hold,rfl⟩
  · exact hba m hold
  · exact hba m₀ hold

lemma backed_allocated {r : AutomatedMatchingRoute}
    {aggregateID : String} {d : AutomatedMatchDecision} {state : MatchState}
    {allocations : List MatchAllocation} {rows rows' : List PaymentMatch}
    (h : Allocated r aggregateID d state ids allocations rows rows')
    (hdr : ∀ a ∈ allocations, ∃ t ∈ transfers, t.id = a.eventID ∧ a.received = t.amount)
    (hba : ∀ m ∈ rows, Backed transfers m) : ∀ m ∈ rows', Backed transfers m := by
  induction h with
  | nil rows => exact hba
  | @cons a rest rows mid rows' first later ih =>
    refine ih (fun b hb => hdr b (mem_cons_of_mem _ hb)) ?_
    cases first with
    | inserted hu =>
      refine forall_snoc hba fun id hid => ?_
      cases hid
      exact hdr a mem_cons_self
    | upgraded stored hme hac hro hag hre =>
      exact forall_update hba fun m _ _ hm => hm

lemma grows_reconcile {worker : String} {job : MatchingJobs.AutomatedMatchingJob}
    (he : reconcileAutomatedMatching ext db worker job now clock ids = .ok db') : Grows db db' := by
  obtain ⟨r,d,aggregateID,aggregates,d',jobs,-,hd,-,hap,-,rfl⟩ :=
    reconcileAutomatedMatching_effect he
  have hdr : ((facts db).map (·.id)).Nodup → d.outcome ≠ .review →
      ∀ a ∈ d.allocations, ∃ t ∈ facts db, t.id = a.eventID ∧ a.received = t.amount := by
    intro hi ho a ha
    have hn : (db.transferEvents.map (·.id)).Nodup := by
      simpa [facts,Function.comp_def,factsOf] using hi
    obtain ⟨t,ht,hda,-⟩ := (decideMatching_grounded hn hd ho).drawn a ha
    exact ⟨factsOf t,mem_map_of_mem ht,hda.id,hda.amount.symm⟩
  cases hap with
  | collected ho rows hro intents hk | settled ho rows hro ledger hl intents hk callbacks =>
    refine Grows.of_facts rfl fun hi hba => ?_
    exact backed_allocated hro (hdr hi (by simp [ho])) hba
  | reviewed ho =>
    refine Grows.of_facts rfl fun _ hba => ?_
    exact forall_update hba fun m _ _ hm => hm

lemma EvidenceOnly.grows (h : EvidenceOnly db db') : Grows db db' := by
  obtain ⟨_,_,_,_,_,rfl⟩ := h.result
  exact Grows.of_facts rfl fun _ hba => hba

lemma grows_provider {p : VerifiedProviderPayment} {prebind : Option PrebindClaim}
    {ids : HostedIDs} {result : HostedSettlementResult}
    (hee : ingestVerifiedProviderPayment ext db p prebind clock ids = .ok (db',result)) :
    Grows db db' := by
  rcases ingestVerifiedProviderPayment_effect hee with ⟨he,-⟩ |
    ⟨c,d,d',-,hbe,hse,haf,-⟩
  · exact EvidenceOnly.grows he
  · obtain ⟨intents,providerOrders,callbacks,hr⟩ := hse.result
    have hm : Grows d d' := by
      rw [hr]
      refine grows_match rfl rfl fun id hid => ?_
      cases hid
    exact ((EvidenceOnly.grows hbe).trans hm).trans (EvidenceOnly.grows haf)

end

variable {a : Action}

/-- One transaction keeps every match funded and forgets no fact of a transfer. -/
lemma Funded.step (h : Funded w) (he : exec ext capability w a = .ok w') :
    Funded w' ∧ facts w.db ⊆ facts w'.db := by
  cases exec_step he with
  | quiet hcl =>
    refine ⟨⟨h.transferIDs,h.backed,fun job hj => ?_⟩,fun _ ht => ht⟩
    rcases hcl job hj with hhe | hst
    · exact h.copies job hhe
    · exact mem_map_of_mem hst
  | rewindReorg hd =>
    have hg := grows_rewind hd
    exact ⟨hg.funded h rfl,hg.kept⟩
  | ingestAndSettle hd =>
    have hg := grows_ingest hd
    exact ⟨hg.funded h rfl,hg.kept⟩
  | reconcileMatching hd =>
    have hg := grows_reconcile hd
    exact ⟨hg.funded h rfl,hg.kept⟩
  | @resolve job ids d hj hd =>
    obtain ⟨m,hse⟩ := resolve_settled hd
    obtain ⟨callbacks,status,hr⟩ := hse.result
    have hg : Grows w.db d := by
      rw [hr]
      exact grows_match rfl rfl (backed_of_copy (h.copies _ hj) rfl rfl)
    exact ⟨hg.funded h rfl,hg.kept⟩
  | ingestProviderPayment hd =>
    have hg := grows_provider hd
    exact ⟨hg.funded h rfl,hg.kept⟩

end Ocrypt.FundedMatches
