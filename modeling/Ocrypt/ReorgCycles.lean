import Ocrypt.Bookkeeping
import Ocrypt.IngestEffects
import Ocrypt.ReorgProgress
import Ocrypt.Workers

/-! One transfer that is settled, orphaned and included again, any number of times. All
settlements of the transfer are booked under the same correlation, so that a second rewind finds
the first settlement again, whose reversal is already booked. -/
namespace Ocrypt.ReorgCycles
open Domain Fallible Table Store Settlement Scanner Reorg Workers IngestEffects ReorgEffects
  ReorgProgress Bookkeeping List

structure ScannerTables where
  chainBlocks : List ChainBlock
  transferQueue : List QueuedTransfer
  cursors : List ScannerCursor

def scanned (db : Database) (s : ScannerTables) : Database :=
  { db with
    chainBlocks := s.chainBlocks
    transferQueue := s.transferQueue
    cursors := s.cursors }

/-- One cycle: the transfer is settled from the block that includes it, and a rewind replaces
that block. What the scanner commits before each of the two is part of the cycle. -/
structure Cycle where
  included : ScannerTables
  event : TransferEvent
  now : ℤ
  ids : IngestIDs
  replacing : ScannerTables
  lease : Lease
  batch : RangeBatch
  clock : ℤ
  reorgIDs : ReorgIDs

def Cycle.settle (ext : Externals) (db : Database) (c : Cycle) :
    Except Failure (Database × SettlementResult) :=
  ingestAndSettle ext (scanned db c.included) c.event c.now c.ids

def Cycle.reorg (capability : String) (settled : Database) (c : Cycle) : Except Failure Database :=
  rewindReorg capability (scanned settled c.replacing) c.lease c.batch c.lease.height c.clock
    c.reorgIDs

/-- The database in which the rewind undoes the settlement: the replaced blocks are marked. -/
def Cycle.rewound (settled : Database) (c : Cycle) : Database :=
  { scanned settled c.replacing with
    chainBlocks := rewoundBlocks (scanned settled c.replacing) c.lease c.batch c.clock }

/-- The rows that undoing the settlement writes are as the schema and the other transactions
keep them, and the identifiers drawn for it are new. -/
@[mk_iff]
structure Clear (eventID : String) (db : Database) (c : Cycle) : Prop where
  intents : (db.intents.map (·.key)).Nodup
  owners : ∀ i ∈ db.intents, i.tenantID ≠ "" ∧ i.merchantID ≠ ""
  sequences : ∀ cb ∈ db.callbacks, ∀ i ∈ db.intents, cb.intentID = i.id →
    cb.aggregateSequence ≠ some (i.version+1)
  observations : (db.observations.map (·.id)).Nodup
  links : ∀ o ∈ db.observations, o.transferEventID = eventID →
    ⟨o.id,o.generation,.reorged⟩ ∉ db.observationEvents
  reversal : ∀ tx ∈ db.ledger, tx.id ≠ c.reorgIDs.reversal c.ids.settlement ∧
    (tx.businessType = .paymentSettlementReversal →
      tx.businessReference ≠ "reorg:" ++ c.ids.settlement)
  webhook : ∀ cb ∈ db.callbacks, cb.id ≠ c.reorgIDs.webhook c.ids.settlement

/-- Nothing but the settlements of the transfer can stop the rewind: the lease is held and the
transfer is the only one in the replaced blocks. -/
@[mk_iff]
structure Ready (capability eventID : String) (db : Database) (c : Cycle) : Prop extends
    Clear eventID db c where
  request : c.lease.chainID ≠ "" ∧ c.lease.shard ≠ "" ∧ c.lease.owner ≠ "" ∧ c.lease.hash ≠ "" ∧
    c.batch.blocks ≠ [] ∧ c.batch.fromHeight ≤ c.lease.height
  held : db.cursors.countP (HoldsCursor capability c.lease c.clock) = 1
  replaces : replacedEvents db c.lease c.batch = [eventID]

instance (eventID : String) (db : Database) (c : Cycle) : Decidable (Clear eventID db c) :=
  decidable_of_iff' _ (clear_iff ..)

instance (capability eventID : String) (db : Database) (c : Cycle) :
    Decidable (Ready capability eventID db c) := decidable_of_iff' _ (ready_iff ..)

section
variable (ext : Externals) (capability tenantID eventID : String)

/-- The cycles of one transfer for one tenant, as far as the rewinds commit: every settlement
commits for the tenant, and every rewind finds nothing else in its way. -/
def Cycling : Database → List Cycle → Prop
  | _, [] => True
  | db, c::cs =>
    match c.settle ext db with
    | .error _ => False
    | .ok (settled,result) =>
      result.outcome = .settled ∧ result.transferEventID = eventID ∧
        (∃ m ∈ settled.paymentMatches, m.id = c.ids.matchID ∧ m.tenantID = tenantID) ∧
        Ready capability eventID (scanned settled c.replacing) c ∧
        match c.reorg capability settled with
        | .error _ => True
        | .ok db' => Cycling db' cs

def netOfTransfer (asset : String) (db : Database) : ℤ :=
  netBooked (under tenantID (.transfer eventID)) asset db.ledger

/-- Every settlement leaves the amount of the transfer in the ledger; every rewind commits,
books exactly one reversal, of the settlement of its cycle, and leaves nothing. -/
def AllUndone : Database → List Cycle → Prop
  | _, [] => True
  | db, c::cs =>
    match c.settle ext db with
    | .error _ => False
    | .ok (settled,_) =>
      netOfTransfer tenantID eventID c.event.identity.assetID settled = c.event.amount.n ∧
        match c.reorg capability settled with
        | .error _ => False
        | .ok db' =>
          db'.ledger.take settled.ledger.length = settled.ledger ∧
          (db'.ledger.drop settled.ledger.length).map (fun tx => (tx.businessType,tx.reversalOf)) =
            [(.paymentSettlementReversal,some c.ids.settlement)] ∧
          netOfTransfer tenantID eventID c.event.identity.assetID db' = 0 ∧ AllUndone db' cs

instance decidableCycling : ∀ db cs, Decidable (Cycling ext capability tenantID eventID db cs)
  | _, [] => .isTrue trivial
  | db, c::cs => by
    have := fun db' => decidableCycling db' cs
    unfold Cycling
    split
    · infer_instance
    · split <;> infer_instance

instance decidableAllUndone : ∀ db cs, Decidable (AllUndone ext capability tenantID eventID db cs)
  | _, [] => .isTrue trivial
  | db, c::cs => by
    have := fun db' => decidableAllUndone db' cs
    unfold AllUndone
    split
    · infer_instance
    · split <;> infer_instance

end

variable {db settled : Database} {c : Cycle}

section
variable {capability eventID : String} {now : ℤ} {i : PaymentIntent}

/-- With one live match and one intent, each settlement of the transfer is loaded once. -/
theorem loadReorgSettlements_single (db : Database) {m : PaymentMatch}
    (he : ∃ t ∈ db.transferEvents, t.id = eventID)
    (hma : db.paymentMatches.filter (fun m => m.source = .transfer eventID ∧
      m.state ≠ .reversed) = [m]) (hag : m.aggregateID = none)
    (hin : db.intents.filter (fun i => i.id = m.intentID ∧ i.tenantID = m.tenantID) = [i]) :
    loadReorgSettlements db eventID =
      (db.ledger.filter fun tx => tx.tenantID = m.tenantID ∧ tx.businessType = .paymentSettlement ∧
        tx.correlation = .transfer eventID).map fun tx =>
          ⟨m.id,m.tenantID,i.merchantID,m.intentID,m.routeID,eventID,none,tx,i.version⟩ := by
  rw [loadReorgSettlements,if_pos he,hma]
  simp only [flatMap_cons,flatMap_nil,append_nil,settlementsOf,hin, hag,matchCorrelation]

lemma orphanTransfer_commits {s : ReorgSettlement}
    (hl : loadReorgSettlements db eventID = [s]) (he : s.eventID = eventID)
    (hcl : Clear eventID db c) (hse : s.original.id = c.ids.settlement)
    (hi : i ∈ db.intents) (hke : i.id = s.intentID ∧ i.tenantID = s.tenantID)
    (how : i.merchantID = s.merchantID) (hv : i.version = s.intentVersion)
    (hst : i.status = .settled) : ∃ db', orphanTransfer now c.reorgIDs db eventID = .ok db' := by
  obtain ⟨rows,ho,hk⟩ := reorgPaymentObservation_commits hcl.observations
    eventID now (c.reorgIDs.observationWebhook eventID)
  have hco : ∃ db', compensateSettlement now c.reorgIDs { db with observations := rows } s =
      .ok db' := by
    refine compensateSettlement_commits hcl.intents hi hke hv (by simp [hst]) ?_ ?_ ?_
      ?_ ?_
    · rw [← hke.2,← how]
      exact hcl.owners i hi
    · rw [hse]
      exact hcl.reversal
    · rw [hse]
      exact hcl.webhook
    · intro cb hcb hin
      rw [← hv]
      exact hcl.sequences cb hcb i hi (hin.trans hke.1.symm)
    · rw [he]
      exact links_of_keys hk hcl.links
  obtain ⟨db',hdb'⟩ := hco
  have htr : Fallible.traverse (compensateSettlement now c.reorgIDs) [s]
      { db with observations := rows } = .ok db' := traverse_cons_eq_ok.mpr ⟨db',hdb',rfl⟩
  simp only [orphanTransfer,hl,isEmpty_cons,ho,ok_bind,htr]
  exact ⟨_,rfl⟩

lemma reorg_commits (hr : Ready capability eventID (scanned settled c.replacing) c)
    (ho : ∃ d, orphanTransfer c.clock c.reorgIDs (c.rewound settled) eventID = .ok d) :
    ∃ db', c.reorg capability settled = .ok db' := by
  obtain ⟨d,hd⟩ := ho
  have hlo := lower_of_replaced (hr.replaces ▸ mem_singleton_self eventID)
  refine rewindReorg_commits hr.request hr.held hlo ⟨d,?_⟩
  rw [hr.replaces]
  exact traverse_cons_eq_ok.mpr ⟨d,hd,rfl⟩

end

structure Settled (ext : Externals) (tenantID eventID : String) (c : Cycle) (before after : Database) :
    Prop where
  stored : ∃ t ∈ after.transferEvents, t.id = eventID
  booked : ∃ merchantID event, event.id = eventID ∧ event.identity = c.event.identity ∧
    event.amount = c.event.amount ∧ after.ledger =
      before.ledger ++ [transferLedger ext tenantID merchantID event c.ids.settlement]
  matched : ∃ m, after.paymentMatches.filter (fun m => m.source = .transfer eventID ∧
    m.state ≠ .reversed) = [m] ∧ m.aggregateID = none ∧ m.tenantID = tenantID ∧
      ∃ i ∈ after.intents, i.id = m.intentID ∧ i.tenantID = m.tenantID ∧ i.status = .settled

section
variable {ext : Externals} {tenantID eventID : String} {result : SettlementResult}
  {capability : String}

lemma settle_settled (h : c.settle ext db = .ok (settled,result))
    (hou : result.outcome = .settled) (hid : result.transferEventID = eventID)
    (hte : ∃ m ∈ settled.paymentMatches, m.id = c.ids.matchID ∧ m.tenantID = tenantID) :
    Settled ext tenantID eventID c db settled := by
  obtain ⟨r,hre,he,haf⟩ := ingestAndSettle_effect h
  rw [hou] at haf
  rcases haf with ⟨hat,hcl⟩ | ⟨-,-,hd⟩
  swap
  · cases hd
  obtain ⟨hie,ham⟩ := hre.reported hat
  obtain ⟨t,ht,hf,-⟩ := hre.row hat
  obtain ⟨rows,hfr⟩ := hre.frame
  have hro : t.id = eventID := (congrArg TransferFacts.id hf).trans (he.symm.trans hid)
  cases hcl with
  | noted _ hn | unmatched _ hn => exact absurd rfl hn
  | settled candidate _ hfn hca hfi hse =>
    obtain ⟨observations,observationEvents,callbacks,providerOrders,rfl⟩ := hse.result
    have hl : r.db.ledger = db.ledger := by rw [hfr]; rfl
    have hne : candidate.tenantID = tenantID := by
      obtain ⟨m,hm,hmi,hmt⟩ := hte
      rcases mem_snoc.mp hm with hm | rfl
      · exact absurd hmi (hse.unclaimed m hm).1
      · exact hmt
    refine ⟨⟨t,ht,hro⟩,⟨candidate.merchantID,r.event,he.symm.trans hid,hie,
      ham,?_⟩,⟨exactMatch candidate r.event c.ids.matchID,?_,rfl,hne,?_⟩⟩
    · rw [← hne]
      rw [hl]
    · have hrv : r.db.paymentMatches.filter (fun m => m.source = .transfer eventID ∧
          m.state ≠ .reversed) = [] := by
        rw [filter_eq_nil_iff]
        intro m hm hac
        obtain ⟨hso,hst⟩ := of_decide_eq_true hac
        exact hst ((hse.unclaimed m hm).2 (hso.trans (by rw [← hid,he])))
      rw [filter_append,hrv]
      simp [exactMatch,← hid,he]
    · have hp := hse.intent ▸ Nat.one_pos
      obtain ⟨i,hi,ho⟩ := countP_pos_iff.mp hp
      have ho := of_decide_eq_true ho
      exact ⟨_,mem_update_self hi ho,ho.1,ho.2.1,rfl⟩

/-- What the rewind needs to know about a settlement of the transfer. -/
structure Undoing (tenantID eventID : String) (i : PaymentIntent) (tx : LedgerTransaction)
    (s : ReorgSettlement) : Prop where
  original : s.original = tx
  tenant : s.tenantID = tenantID
  merchant : s.merchantID = i.merchantID
  intent : s.intentID = i.id
  version : s.intentVersion = i.version
  event : s.eventID = eventID
  aggregate : s.aggregateID = none

/-- What the rewind after a settling cycle loads: the settlements of the transfer. -/
theorem Settled.loaded (h : Settled ext tenantID eventID c db settled)
    (hk : (settled.intents.map (·.key)).Nodup) :
    ∃ i ∈ settled.intents, i.tenantID = tenantID ∧ i.status = .settled ∧
      ∃ s : LedgerTransaction → ReorgSettlement, (∀ tx, Undoing tenantID eventID i tx (s tx)) ∧
        loadReorgSettlements (c.rewound settled) eventID =
          (settled.ledger.filter fun tx => tx.tenantID = tenantID ∧
            tx.businessType = .paymentSettlement ∧ tx.correlation = .transfer eventID).map s := by
  obtain ⟨m,hf,hag,hte,i,hi,hid,hit,hst⟩ := h.matched
  refine ⟨i,hi,hit.trans hte,hst,fun tx => ⟨m.id,m.tenantID,i.merchantID,
    m.intentID,m.routeID,eventID,none,tx,i.version⟩,fun tx => ?_,?_⟩
  · exact ⟨rfl,hte,rfl,hid.symm,rfl,rfl,rfl⟩
  · have hin : (c.rewound settled).intents.filter
        (fun i => i.id = m.intentID ∧ i.tenantID = m.tenantID) = [i] := by
      rw [← filter_key hk hi]
      refine filter_congr fun i' _ => ?_
      simp [PaymentIntent.key,hid,hit]
    rw [loadReorgSettlements_single (c.rewound settled) h.stored hf hag hin, hte]
    rfl

def Unsettled (tenantID eventID : String) (db : Database) : Prop :=
  ∀ tx ∈ db.ledger, ¬under tenantID (.transfer eventID) tx

instance (tenantID eventID : String) (db : Database) : Decidable (Unsettled tenantID eventID db) := by
  unfold Unsettled
  infer_instance

section
variable (h : Settled ext tenantID eventID c db settled)
include h

lemma Settled.net (hf : Unsettled tenantID eventID db) :
    netOfTransfer tenantID eventID c.event.identity.assetID settled = c.event.amount.n := by
  obtain ⟨merchantID,event,hid,hi,ham,hl⟩ := h.booked
  have hu : under tenantID (.transfer eventID)
      (transferLedger ext tenantID merchantID event c.ids.settlement) := ⟨rfl,by rw [← hid]; rfl⟩
  rw [netOfTransfer,hl,netBooked_append,netBooked_eq_zero hf,netBooked_singleton,
    if_pos hu,booked_transferLedger,hi,if_pos rfl,ham,zero_add]

lemma reorg_first (hr : Ready capability eventID (scanned settled c.replacing) c)
    (hf : Unsettled tenantID eventID db) :
    ∃ db' original reversal, c.reorg capability settled = .ok db' ∧
      db'.ledger = settled.ledger ++ [reversal] ∧ original ∈ settled.ledger ∧
      original.id = c.ids.settlement ∧ original.businessType = .paymentSettlement ∧
      under tenantID (.transfer eventID) original ∧
      reversal.businessType = .paymentSettlementReversal ∧
      reversal.reversalOf = some c.ids.settlement ∧
      reversal.businessReference = "reorg:" ++ original.id ∧
      reversal.tenantID = tenantID ∧ ∀ asset, netOfTransfer tenantID eventID asset db' = 0 := by
  obtain ⟨merchantID,event,hid,-,-,hl⟩ := h.booked
  obtain ⟨i,hi,hit,hst,s,hun,hlo⟩ := h.loaded hr.intents
  obtain ⟨L,hL⟩ : ∃ L, L = transferLedger ext tenantID merchantID event c.ids.settlement :=
    ⟨_,rfl⟩
  rw [← hL] at hl
  have hu : under tenantID (.transfer eventID) L := by
    rw [hL,← hid]
    exact ⟨rfl,rfl⟩
  have hty : L.businessType = .paymentSettlement := by rw [hL]; rfl
  have hse : L.id = c.ids.settlement := by rw [hL]; rfl
  -- The only settlement of the transfer is the one of this cycle.
  have ho : (settled.ledger.filter fun tx => tx.tenantID = tenantID ∧
      tx.businessType = .paymentSettlement ∧ tx.correlation = .transfer eventID) = [L] := by
    have hn : (db.ledger.filter fun tx => tx.tenantID = tenantID ∧
        tx.businessType = .paymentSettlement ∧ tx.correlation = .transfer eventID) = [] := by
      rw [filter_eq_nil_iff]
      intro tx htx hm
      obtain ⟨hte,-,hco⟩ := of_decide_eq_true hm
      exact hf tx htx ⟨hte,hco⟩
    rw [hl,filter_append,hn]
    simp [hu.1,hu.2,hty]
  rw [ho] at hlo
  have hs := hun L
  have hcl : Clear eventID (c.rewound settled) c :=
    ⟨hr.intents,hr.owners,hr.sequences,hr.observations,hr.links, hr.reversal,hr.webhook⟩
  obtain ⟨db',hdb'⟩ := reorg_commits hr (orphanTransfer_commits hlo hs.event hcl
    (by rw [hs.original,hse]) hi ⟨hs.intent.symm,hit.trans hs.tenant.symm⟩
    hs.merchant.symm hs.version.symm hst)
  have hbo : db'.ledger = settled.ledger ++ [reversalIn c.reorgIDs (s L)] := by
    obtain ⟨d,cursors,htr,hrs⟩ := rewindReorg_effect hdb'
    rw [hr.replaces] at htr
    obtain ⟨d',hd',hni⟩ := traverse_cons_eq_ok.mp htr
    cases hni
    have hd'' : d.ledger = settled.ledger ++
        (loadReorgSettlements (c.rewound settled) eventID).map (reversalIn c.reorgIDs) :=
      (orphanTransfer_orphaned hd').ledger
    rw [hlo] at hd''
    rw [hrs]
    exact hd''
  have hre : under tenantID (.transfer eventID) (reversalIn c.reorgIDs (s L)) := by
    refine ⟨hs.tenant,?_⟩
    show matchCorrelation (s L).aggregateID (s L).eventID = _
    rw [hs.aggregate,hs.event]
    rfl
  refine ⟨db',L,reversalIn c.reorgIDs (s L),hdb',hbo,?_,hse,hty,hu,rfl, ?_,?_,hre.1,fun asset => ?_⟩
  · rw [hl]
    exact mem_concat_self
  · show some (s L).original.id = _
    rw [hs.original,hse]
  · show "reorg:" ++ (s L).original.id = _
    rw [hs.original]
  · have hba : booked asset (reversalIn c.reorgIDs (s L)) = -booked asset L := by
      rw [booked_reversalIn _ _ asset (by rw [hs.original,hty]),hs.original]
    rw [netOfTransfer,hbo,hl,netBooked_append,netBooked_append,
      netBooked_eq_zero hf,netBooked_singleton,netBooked_singleton,if_pos hu, if_pos hre,hba]
    ring

/-- A second settlement of the transfer cannot be undone: the rewind loads the first one again,
whose reversal is already booked. -/
theorem reorg_second {db' : Database}
    (hre : Ready capability eventID (scanned settled c.replacing) c)
    (hbe : ∃ original ∈ db.ledger, original.businessType = .paymentSettlement ∧
      under tenantID (.transfer eventID) original ∧ ∃ reversal ∈ db.ledger,
        reversal.businessType = .paymentSettlementReversal ∧ reversal.tenantID = tenantID ∧
        reversal.businessReference = "reorg:" ++ original.id) :
    c.reorg capability settled ≠ .ok db' := by
  intro hcm
  obtain ⟨original,ho,hty,⟨hte,hco⟩,reversal,hrv,hry,hrt, hr⟩ := hbe
  obtain ⟨merchantID,event,-,-,-,hl⟩ := h.booked
  have hsu : ∀ tx ∈ db.ledger, tx ∈ settled.ledger := by
    intro tx htx
    rw [hl]
    exact mem_append_left _ htx
  obtain ⟨d,cursors,htr,-⟩ := rewindReorg_effect hcm
  rw [hre.replaces] at htr
  obtain ⟨d',hd',-⟩ := traverse_cons_eq_ok.mp htr
  obtain ⟨i,-,-,-,s,hu,hlo⟩ := h.loaded hre.intents
  have hs := hu original
  have hm : s original ∈ loadReorgSettlements (c.rewound settled) eventID := by
    rw [hlo]
    refine mem_map_of_mem (mem_filter.mpr ⟨hsu _ ho,?_⟩)
    exact decide_eq_true ⟨hte,hty,hco⟩
  refine (orphanTransfer_orphaned hd').unreversed _ hm reversal (hsu _ hrv)
    (hrt.trans hs.tenant.symm) hry ?_
  rw [hs.original,hr]

end

end

section
variable {ext : Externals} {capability tenantID eventID : String} {cs : List Cycle}

lemma Cycling.cons (h : Cycling ext capability tenantID eventID db (c::cs)) :
    ∃ settled result, c.settle ext db = .ok (settled,result) ∧
      Settled ext tenantID eventID c db settled ∧
      Ready capability eventID (scanned settled c.replacing) c ∧
      ∀ db', c.reorg capability settled = .ok db' → Cycling ext capability tenantID eventID db' cs := by
  simp only [Cycling] at h
  split at h
  · exact h.elim
  · rename_i settled result hse
    obtain ⟨ho,hid,hte,hre,hr⟩ := h
    refine ⟨settled,result,hse,settle_settled hse ho hid hte,hre,?_⟩
    intro db' hdb'
    rw [hdb'] at hr
    exact hr

lemma allUndone_single (h : Cycling ext capability tenantID eventID db [c])
    (hf : Unsettled tenantID eventID db) : AllUndone ext capability tenantID eventID db [c] := by
  obtain ⟨settled,result,hst,hse,hre,-⟩ := h.cons
  obtain ⟨db',original,reversal,hro,hl,-,-,-,-,hty,hr,-,-,hn⟩ :=
    reorg_first hse hre hf
  simp only [AllUndone,hst,hro]
  refine ⟨hse.net hf,?_,?_,hn _,trivial⟩
  · rw [hl,take_left]
  · rw [hl]
    simp [hty,hr]

/-- The second cycle of a transfer is never undone. -/
theorem not_allUndone_second {c' : Cycle}
    (h : Cycling ext capability tenantID eventID db (c::c'::cs))
    (hf : Unsettled tenantID eventID db) :
    ¬AllUndone ext capability tenantID eventID db (c::c'::cs) := by
  obtain ⟨settled,result,hst,hse,hre,hrs⟩ := h.cons
  obtain ⟨db',original,reversal,hr,hl,ho,-,hty,hu,hry,-,hrf, hrt,-⟩ := reorg_first hse hre hf
  obtain ⟨settled',result',hst',hse',hre',-⟩ := (hrs db' hr).cons
  have hbe : ∃ original ∈ db'.ledger, original.businessType = .paymentSettlement ∧
      under tenantID (.transfer eventID) original ∧ ∃ reversal ∈ db'.ledger,
        reversal.businessType = .paymentSettlementReversal ∧ reversal.tenantID = tenantID ∧
        reversal.businessReference = "reorg:" ++ original.id := by
    rw [hl]
    exact ⟨original,mem_append_left _ ho,hty,hu,reversal, mem_concat_self,hry,hrt,hrf⟩
  intro hal
  simp only [AllUndone,hst,hr,hst'] at hal
  obtain ⟨-,-,-,-,-,hsc⟩ := hal
  split at hsc
  · exact hsc
  · rename_i db'' hr'
    exact reorg_second hse' hre' hbe hr'

end

/-- The cycles of a transfer that was never settled before are all undone exactly when there is
at most one of them. -/
theorem reorg_cycles_undone_iff (ext : Externals) (capability tenantID eventID : String)
    (db : Database) (cycles : List Cycle) (hfirst : Unsettled tenantID eventID db)
    (h : Cycling ext capability tenantID eventID db cycles) :
    AllUndone ext capability tenantID eventID db cycles ↔ cycles.length ≤ 1 := by
  match cycles, h with
  | [], _ => simp [AllUndone]
  | [c], h => exact iff_of_true (allUndone_single h hfirst) (by simp)
  | c::c'::cs, h => exact iff_of_false (not_allUndone_second h hfirst) (by simp)

def sampleTables (orphans : List String) (tip : String) (cursors : List ScannerCursor) :
    ScannerTables where
  chainBlocks := ⟨"tron",6,"block-6",.safe,0⟩ ::
    orphans.map (fun hash => ⟨"tron",7,hash,.reorged,0⟩) ++ [⟨"tron",7,tip,.safe,0⟩]
  transferQueue := []
  cursors := cursors

def sampleCycle (tag : String) (orphans : List String) (tip rival : String) : Cycle where
  included := sampleTables orphans tip []
  event := samplePayment "paid" 100 tip
  now := 60
  ids := sampleIngestIDs tag
  replacing := sampleTables orphans tip
    [⟨"tron","shard","transfers",7,tip,some "scanner",some minute,2⟩]
  lease := sampleLease 2 7 tip
  batch := sampleBatch rival []
  clock := 0
  reorgIDs := sampleReorgIDs tag

theorem reorg_cycles_undone_sample :
    AllUndone sampleExternals "transfers" "tenant" "paid" sampleStart.db
      [sampleCycle "1" [] "block-7" "rival-7"] :=
  (reorg_cycles_undone_iff sampleExternals "transfers" "tenant" "paid" sampleStart.db
    [sampleCycle "1" [] "block-7" "rival-7"] (by decide +kernel) (by decide +kernel)).mpr
    (by decide)

/-- The same payment settled from the rival block is a second cycle, whose rewind aborts. -/
theorem reorg_second_cycle_aborts :
    Cycling sampleExternals "transfers" "tenant" "paid" sampleStart.db
        [sampleCycle "1" [] "block-7" "rival-7",sampleCycle "2" ["block-7"] "rival-7" "third-7"] ∧
      ¬AllUndone sampleExternals "transfers" "tenant" "paid" sampleStart.db
        [sampleCycle "1" [] "block-7" "rival-7",
          sampleCycle "2" ["block-7"] "rival-7" "third-7"] := by
  decide +kernel

end Ocrypt.ReorgCycles
