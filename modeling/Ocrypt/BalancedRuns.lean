import Ocrypt.MatchingBooks
import Ocrypt.ReorgBooks
import Ocrypt.ResolutionEffects

/-! Over every run of the workers, the ledger of a tenant holds exactly what the finalized matches of
its on-chain payments received, and that is what the credited transfers moved on chain. -/
namespace Ocrypt.BalancedRuns
open Domain Table KeyedSums Store Settlement Reorg Resolutions Transactions Workers
  IngestEffects ResolutionEffects Bookkeeping SettlementBooks MatchingBooks ReorgBooks List

variable {ext : Externals} {db : Database}

section
variable {db' : Database} {event : TransferEvent}

lemma balanced_settleTransfer (ext : Externals) (merchantID : String) (h : Balanced (booksOf db))
    (he : factsOf event ∈ (booksOf db).transfers) {m : PaymentMatch}
    (hso : m.source = .transfer event.id) (hr : m.received = event.amount)
    (hi : (m.intentID,m.tenantID) ∈ (booksOf db).intents) (hal : m.aggregateID = none)
    (hf : m.state = .finalized) (hro : m.role = .payment)
    (hu : ∀ p ∈ db.paymentMatches, p.id ≠ m.id ∧
      (p.source = .transfer event.id → p.state = .reversed))
    {settlementID : String} (hfr : ∀ g ∈ db.aggregates, g.id ≠ settlementID) :
    Balanced { booksOf db with
      paymentMatches := db.paymentMatches ++ [m]
      ledger := db.ledger ++ [transferLedger ext m.tenantID merchantID event settlementID] } := by
  have hl : Linked (booksOf db) m (factsOf event) :=
    ⟨he,hso,hr,hi,fun a ha => by rw [hal] at ha; cases ha⟩
  exact h.settleOne hl hal hf hro hu rfl rfl
    (booked_transferLedger ext m.tenantID merchantID event settlementID) hfr

lemma balanced_recorded (h : Balanced (booksOf db)) {c : Canonical} (hr : Recorded db event c) :
    Balanced (booksOf c.db) ∧ (booksOf db).transfers ⊆ (booksOf c.db).transfers := by
  obtain ⟨rows,hfr⟩ := hr.frame
  have hbo : booksOf c.db =
      { booksOf db with transfers := c.db.transferEvents.map factsOf } := by
    rw [hfr]
    rfl
  rcases hr.facts with hf | ⟨hf,hn⟩
  · rw [hbo,hf]
    exact ⟨h,fun _ ht => ht⟩
  · rw [hbo,hf]
    refine ⟨h.record fun s hs => ?_,fun _ ht => mem_append_left _ ht⟩
    obtain ⟨t,ht,rfl⟩ := mem_map.mp hs
    exact hn t ht

lemma balanced_ingest (h : Balanced (booksOf db)) {now : ℤ}
    {ids : IngestIDs} {result : SettlementResult} (hf : ∀ g ∈ db.aggregates, g.id ≠ ids.settlement)
    (hee : ingestAndSettle ext db event now ids = .ok (db',result)) :
    Balanced (booksOf db') ∧ (booksOf db).transfers ⊆ (booksOf db').transfers := by
  obtain ⟨c,hr,-,he⟩ := ingestAndSettle_effect hee
  obtain ⟨hc,hsu⟩ := balanced_recorded h hr
  rcases he with ⟨hac,hcl⟩ | ⟨-,rfl,-⟩
  · obtain ⟨row,hrw,hfa,-⟩ := hr.row hac
    have hev : factsOf c.event ∈ (booksOf c.db).transfers :=
      hfa ▸ mem_map_of_mem hrw
    have hf : ∀ g ∈ c.db.aggregates, g.id ≠ ids.settlement := by
      obtain ⟨rows,hfr⟩ := hr.frame
      rw [hfr]
      exact hf
    generalize result.outcome = outcome at hcl
    cases hcl with
    | noted _ _ _ _ _ _ hk | unmatched _ _ _ _ _ _ _ hk =>
      simp only [booksOf,hk]
      exact ⟨hc,hsu⟩
    | settled candidate _ hfn hca hfi hse =>
      obtain ⟨observations,observationEvents,callbacks,providerOrders,rfl⟩ := hse.result
      have hin : (candidate.intentID,candidate.tenantID) ∈ (booksOf c.db).intents := by
        obtain ⟨i,hi,hsl⟩ := countP_pos_iff.mp (hse.intent.symm ▸ Nat.one_pos)
        obtain ⟨hid,hte,-⟩ := of_decide_eq_true hsl
        refine mem_map.mpr ⟨i,hi,?_⟩
        simp [PaymentIntent.key,hid,hte]
      have hba := balanced_settleTransfer ext candidate.merchantID hc hev
        (m := exactMatch candidate c.event ids.matchID) rfl rfl hin rfl rfl rfl
        hse.unclaimed hf
      refine ⟨?_,hsu⟩
      convert hba using 1
      simp only [booksOf]
      congr 1
      exact map_update fun _ _ _ => rfl
  · exact ⟨hc,hsu⟩

lemma balanced_resolve (h : Balanced (booksOf db)) {job : ResolutionJob} {clock : ℤ}
    {ids : ManualIDs} (hco : factsOf job.expected ∈ (booksOf db).transfers)
    (hf : ∀ g ∈ db.aggregates, g.id ≠ ids.settlement)
    (he : resolve ext db job clock ids = .ok db') : Balanced (booksOf db') := by
  obtain ⟨m,hse⟩ := resolve_settled he
  obtain ⟨callbacks,status,rfl⟩ := hse.result
  have hi : (m.route.intentID,m.route.tenantID) ∈ (booksOf db).intents := by
    refine mem_map.mpr ⟨m.intent,hse.intent.1,?_⟩
    simp [PaymentIntent.key,hse.intent.2]
  have hba := balanced_settleTransfer ext m.route.merchantID h hco
    (m := manualMatch m job.expected ids.matchID) rfl rfl hi rfl rfl rfl
    hse.unclaimed hf
  convert hba using 1
  simp only [booksOf]
  congr 1
  exact map_update fun _ _ _ => rfl

end

/-- Identifiers that one record was drawn for are not drawn again for another: no settlement takes
the identifier of an aggregate. Provider events are settled outside these runs. -/
def FreshIDs (w : World) : Action → Prop
  | .ingestAndSettle _ _ ids => ∀ g ∈ w.db.aggregates, g.id ≠ ids.settlement
  | .resolve _ ids => ∀ g ∈ w.db.aggregates, g.id ≠ ids.settlement
  | .reconcileMatching _ _ _ ids => ∀ tx ∈ w.db.ledger, tx.businessReference ≠ ids.aggregate
  | .ingestProviderPayment .. => False
  | _ => True

instance (w : World) (a : Action) : Decidable (FreshIDs w a) := by
  induction a using Workers.Action.casesOn <;> dsimp only [FreshIDs] <;> infer_instance

/-- What every reachable state keeps: balanced books, and claimed copies of stored transfers. -/
structure Kept (w : World) : Prop where
  balanced : Balanced (booksOf w.db)
  copies : ∀ job ∈ w.resolutionJobs, factsOf job.expected ∈ (booksOf w.db).transfers

variable {w : World} {w' : World}

lemma Kept.of_balanced (h : Kept w) (hba : Balanced (booksOf w'.db))
    (hsu : (booksOf w.db).transfers ⊆ (booksOf w'.db).transfers)
    (hj : w'.resolutionJobs = w.resolutionJobs) : Kept w' := by
  refine ⟨hba,?_⟩
  rw [hj]
  exact fun job hjo => hsu (h.copies job hjo)

/-- One transaction with fresh ids keeps the books balanced. -/
lemma Kept.step {capability : String} {a : Action} (h : Kept w)
    (hf : FreshIDs w a) (he : exec ext capability w a = .ok w') : Kept w' := by
  cases exec_step he with
  | quiet hcl =>
    refine ⟨h.balanced,fun job hj => ?_⟩
    rcases hcl job hj with hhe | hst
    · exact h.copies job hhe
    · exact mem_map_of_mem hst
  | rewindReorg hd =>
    obtain ⟨hba,htr⟩ := balanced_rewind h.balanced hd
    exact h.of_balanced hba (fun _ ht => htr ▸ ht) rfl
  | ingestAndSettle hd =>
    obtain ⟨hba,hsu⟩ := balanced_ingest h.balanced hf hd
    exact h.of_balanced hba hsu rfl
  | reconcileMatching hd =>
    refine h.of_balanced (balanced_reconcile h.balanced hf hd) ?_ rfl
    rw [transfers_reconcile hd]
    exact fun _ ht => ht
  | resolve hj hd =>
    refine h.of_balanced (balanced_resolve h.balanced (h.copies _ hj) hf hd) ?_ rfl
    obtain ⟨m,hse⟩ := resolve_settled hd
    obtain ⟨callbacks,status,rfl⟩ := hse.result
    exact fun _ ht => ht
  | ingestProviderPayment hd => exact hf.elim

abbrev CreditsPayment (db : Database) (tenantID asset : String) (m : PaymentMatch) : Prop :=
  m.tenantID = tenantID ∧ m.state = .finalized ∧ m.role = .payment ∧
    ∃ t ∈ db.transferEvents, m.source = .transfer t.id ∧ t.identity.assetID = asset

/-- What the finalized matches of a tenant's on-chain payments received in an asset. -/
def receivedBy (db : Database) (tenantID asset : String) : ℤ :=
  (db.paymentMatches.map fun m =>
    if CreditsPayment db tenantID asset m then (m.received.n : ℤ) else 0).sum

def movedFor (db : Database) (tenantID asset : String) : ℤ :=
  (db.transferEvents.map fun t =>
    if ∃ m ∈ db.paymentMatches, m.source = .transfer t.id ∧ CreditsPayment db tenantID asset m
    then (t.amount.n : ℤ) else 0).sum

lemma netBooked_eq_receivedBy (h : Balanced (booksOf db)) (tenantID asset : String) :
    netBooked (·.tenantID = tenantID) asset db.ledger = receivedBy db tenantID asset := by
  have hco : ∀ m, (if m.tenantID = tenantID then counts (booksOf db).transfers asset m else 0) =
      if CreditsPayment db tenantID asset m then (m.received.n : ℤ) else 0 := by
    intro m
    have hi : CountsIn (booksOf db).transfers asset m ↔ m.state = .finalized ∧ m.role = .payment ∧
        ∃ t ∈ db.transferEvents, m.source = .transfer t.id ∧ t.identity.assetID = asset := by
      simp [booksOf,factsOf]
    unfold counts
    rw [← ite_and]
    simp [hi]
  rw [receivedBy,← map_congr_left fun m _ => hco m]
  refine sum_eq_of_sumAt_eq LedgerTransaction.correlation correlationOf fun k => ?_
  have hag := h.agree asset (tenantID,k)
  rw [sumAt_pair,sumAt_pair] at hag
  exact hag

lemma receivedBy_eq_movedFor (h : Sound (booksOf db)) (tenantID asset : String) :
    receivedBy db tenantID asset = movedFor db tenantID asset := by
  refine sum_eq_of_sumAt_eq PaymentMatch.source (fun t => .transfer t.id) fun source => ?_
  by_cases hce : ∃ m ∈ db.paymentMatches, m.source = source ∧ CreditsPayment db tenantID asset m
  · obtain ⟨m,hm,hso,hcr⟩ := hce
    obtain ⟨facts,hl⟩ := h.linked m hm
    obtain ⟨t,ht,rfl⟩ := mem_map.mp hl.stored
    have hk := hl.source.symm.trans hso
    have hac : m.source = source ∧ m.state ≠ .reversed := ⟨hso,by rw [hcr.2.1]; simp⟩
    have hma : sumAt PaymentMatch.source (fun m =>
        if CreditsPayment db tenantID asset m then (m.received.n : ℤ) else 0) db.paymentMatches source =
          m.received.n := by
      have hon : OneActive db.paymentMatches := h.oneActive
      rw [sumAt_eq_single (hon source) hm hac hso,if_pos hcr]
      refine fun y _ hys hi => if_neg fun hy => hi ⟨hys,?_⟩
      rw [hy.2.1]
      simp
    have hon :=
      (countP_key (p := fun s => s.id = t.id) (transferIDs_nodup h) ht rfl fun _ _ hs => hs).le
    have htr : sumAt (fun t => MatchSource.transfer t.id) (fun t : TransferEvent =>
        if ∃ m ∈ db.paymentMatches, m.source = .transfer t.id ∧ CreditsPayment db tenantID asset m
        then (t.amount.n : ℤ) else 0) db.transferEvents source = t.amount.n := by
      rw [sumAt_eq_single hon ht rfl hk,if_pos ⟨m,hm,hl.source,hcr⟩]
      intro y _ hyk ho
      exact absurd (MatchSource.transfer.inj (hyk.trans hk.symm)) ho
    rw [hma,htr,hl.received]
    rfl
  · rw [sumAt_eq_zero,sumAt_eq_zero]
    · rintro t - rfl
      exact if_neg hce
    · exact fun m hm hso => if_neg fun hcr => hce ⟨m,hm,hso,hcr⟩

/-- No transfer has been recorded and nothing has been claimed or booked. -/
structure Blank (w : World) : Prop where
  transferEvents : w.db.transferEvents = []
  paymentMatches : w.db.paymentMatches = []
  aggregates : w.db.aggregates = []
  ledger : w.db.ledger = []
  resolutionJobs : w.resolutionJobs = []
  intents : (w.db.intents.map (·.key)).Nodup

lemma Blank.kept (h : Blank w) : Kept w := by
  have hbo : booksOf w.db = ⟨[],w.db.intents.map (·.key),[],[],[]⟩ := by
    simp [booksOf,h.transferEvents,h.paymentMatches,h.aggregates,h.ledger]
  refine ⟨?_,by simp [h.resolutionJobs]⟩
  rw [hbo]
  exact ⟨⟨nodup_nil,h.intents,nodup_nil,nodup_nil,fun _ => Nat.zero_le 1,by simp,by simp⟩,
    ⟨by simp,by simp,by simp⟩,fun asset k => rfl⟩

/-- In every state that a run from a blank database reaches, a transfer has at most one match that
is not reversed; for every tenant and asset, the ledger holds what the finalized matches of the
on-chain payments received, and that is what the credited transfers moved on chain. -/
theorem booked_eq_received (ext : Externals) (capability : String) (w : World) (as : List Action)
    (hblank : Blank w) (hrun : Along (exec ext capability) FreshIDs w as) :
    (∀ eventID, (run (exec ext capability) w as).db.paymentMatches.countP
        (fun m => m.source = .transfer eventID ∧ m.state ≠ .reversed) ≤ 1) ∧ ∀ tenantID asset,
        netBooked (·.tenantID = tenantID) asset (run (exec ext capability) w as).db.ledger =
            receivedBy (run (exec ext capability) w as).db tenantID asset ∧
          receivedBy (run (exec ext capability) w as).db tenantID asset =
            movedFor (run (exec ext capability) w as).db tenantID asset := by
  have hk := run_invariant (fun _ _ _ h hf he => h.step hf he) hblank.kept hrun
  refine ⟨fun eventID => hk.balanced.sound.oneActive _,fun tenantID asset => ⟨?_,?_⟩⟩
  · exact netBooked_eq_receivedBy hk.balanced tenantID asset
  · exact receivedBy_eq_movedFor hk.balanced.sound tenantID asset

theorem booked_eq_received_sample : netBooked (·.tenantID = "tenant") "usdt"
        (run (exec sampleExternals "transfers") sampleBound sampleAccumulation).db.ledger = 100 ∧
      receivedBy (run (exec sampleExternals "transfers") sampleBound sampleAccumulation).db "tenant"
        "usdt" = 100 :=
  have hbo : netBooked (·.tenantID = "tenant") "usdt"
      (run (exec sampleExternals "transfers") sampleBound sampleAccumulation).db.ledger = 100 := by
    decide +kernel
  have he := ((booked_eq_received sampleExternals "transfers" sampleBound sampleAccumulation
    ⟨rfl,rfl,rfl,rfl,rfl,by decide⟩ (by decide +kernel)).2 "tenant" "usdt").1
  ⟨hbo,he.symm.trans hbo⟩

end Ocrypt.BalancedRuns
