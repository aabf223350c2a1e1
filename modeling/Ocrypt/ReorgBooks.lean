import Ocrypt.SettlementBooks

/-! A rewind keeps the books balanced. The settlements under the key of an orphaned match are
reversed together with every match of that key, so both sides of the balance return to zero. -/
namespace Ocrypt.ReorgBooks
open Fallible Table KeyedSums Store Scanner Reorg IngestEffects ReorgEffects Bookkeeping
  SettlementBooks List

abbrev SettledUnder (k : String × Correlation) (tx : LedgerTransaction) : Prop :=
  ledgerKey tx = k ∧ tx.businessType = .paymentSettlement

structure Reverses (k : String × Correlation) (o tx : LedgerTransaction) : Prop where
  key : ledgerKey tx = k
  type : tx.businessType = .paymentSettlementReversal
  reference : tx.businessReference = "reorg:" ++ o.id
  booked : ∀ asset, Bookkeeping.booked asset tx = -Bookkeeping.booked asset o

/-- What counted on the match is undone: the settlements under its key are reversed, none of them
for a second time, with matches of that key and their aggregate. -/
structure Undone (m : PaymentMatch) (p : PaymentMatch → Prop) [DecidablePred p]
    (q : MatchAggregate → Prop) [DecidablePred q] (reversal : LedgerTransaction → LedgerTransaction)
    (b b' : Books) : Prop where
  active : m ∈ b.paymentMatches
  transfers : b'.transfers = b.transfers
  intents : b'.intents = b.intents
  unreversed : ∀ o ∈ b.ledger, SettledUnder (matchKey m) o → ∀ tx ∈ b.ledger,
    tx.tenantID = m.tenantID → tx.businessType = .paymentSettlementReversal →
      tx.businessReference ≠ "reorg:" ++ o.id
  ledger : b'.ledger = b.ledger ++ (b.ledger.filter (SettledUnder (matchKey m))).map reversal
  reverses : ∀ o, SettledUnder (matchKey m) o → Reverses (matchKey m) o (reversal o)
  paymentMatches : b'.paymentMatches = update p reverseMatch b.paymentMatches
  own : ∀ x ∈ b.paymentMatches, p x → matchKey x = matchKey m
  orphan : ∀ x ∈ b.paymentMatches, x.source = m.source → x.state ≠ .reversed → p x
  jointly : (∃ o ∈ b.ledger, SettledUnder (matchKey m) o) → ∀ x ∈ b.paymentMatches,
    matchKey x = matchKey m → x.state ≠ .reversed → p x
  aggregates : b'.aggregates = update q reverseAggregate b.aggregates
  reopened : ∀ g ∈ b.aggregates, q g → (∃ o ∈ b.ledger, SettledUnder (matchKey m) o) ∧
    m.aggregateID = some g.id ∧ g.tenantID = m.tenantID ∧ g.state = .settled

section
variable {m : PaymentMatch} {p : PaymentMatch → Prop} [DecidablePred p]
  {q : MatchAggregate → Prop} [DecidablePred q] {reversal : LedgerTransaction → LedgerTransaction}
  {b b' : Books}

section
variable (hu : Undone m p q reversal b b')
include hu

/-- Under the key of a match that can be undone, only settlements are booked. -/
theorem Undone.settlement (h : Grounds b) :
    ∀ tx ∈ b.ledger, ledgerKey tx = matchKey m → tx.businessType = .paymentSettlement := by
  intro tx htx hk
  cases hty : tx.businessType with
  | paymentSettlement => rfl
  | paymentSettlementReversal =>
    obtain ⟨o,ho,hot,hok,hr⟩ := h.reversed tx htx hty
    exact absurd hr (hu.unreversed o ho ⟨hok.trans hk,hot⟩ tx htx (congrArg Prod.fst hk) hty)

lemma Undone.sum_ledger (h : Grounds b) (asset : String)
    (k : String × Correlation) : sumAt ledgerKey (booked asset) b'.ledger k =
      if matchKey m = k then 0 else sumAt ledgerKey (booked asset) b.ledger k := by
  have hke : ∀ tx ∈ (b.ledger.filter (SettledUnder (matchKey m))).map reversal,
      ledgerKey tx = matchKey m := by
    intro tx htx
    obtain ⟨o,ho,rfl⟩ := mem_map.mp htx
    exact (hu.reverses o (of_decide_eq_true (mem_filter.mp ho).2)).key
  rw [hu.ledger,sumAt_append]
  split_ifs with hk
  · subst hk
    have hf : b.ledger.filter (fun tx => ledgerKey tx = matchKey m) =
        b.ledger.filter (SettledUnder (matchKey m)) := by
      refine filter_congr fun tx htx => decide_eq_decide.mpr ?_
      exact ⟨fun hky => ⟨hky,hu.settlement h tx htx hky⟩,fun hs => hs.1⟩
    have hn : ((b.ledger.filter (SettledUnder (matchKey m))).map reversal).map (booked asset) =
        ((b.ledger.filter (SettledUnder (matchKey m))).map (booked asset)).map Neg.neg := by
      rw [map_map,map_map]
      refine map_congr_left fun o ho => ?_
      exact (hu.reverses o (of_decide_eq_true (mem_filter.mp ho).2)).booked asset
    rw [sumAt_eq_sum hke,sumAt_eq_sum_filter,hf,hn,← sum_neg]
    exact add_neg_cancel _
  · rw [sumAt_eq_zero fun tx htx hky => absurd ((hke tx htx).symm.trans hky) hk,add_zero]

lemma Undone.sum_matches (h : Balanced b) (asset : String)
    (k : String × Correlation) : sumAt matchKey (counts b'.transfers asset) b'.paymentMatches k =
      if matchKey m = k then 0
      else sumAt matchKey (counts b.transfers asset) b.paymentMatches k := by
  rw [hu.paymentMatches,hu.transfers]
  split_ifs with hk
  · subst hk
    refine sumAt_eq_zero fun x hx hky => ?_
    rcases mem_update_iff.mp hx with ⟨hx,hke⟩ | ⟨x₀,-,-,rfl⟩
    · by_cases hse : ∃ o ∈ b.ledger, SettledUnder (matchKey m) o
      · refine if_neg fun hco => hke (hu.jointly hse x hx hky ?_)
        rw [hco.1]
        simp
      · -- Nothing is booked under the key, so by the balance nothing counted before either.
        have hz : sumAt matchKey (counts b.transfers asset) b.paymentMatches (matchKey m) = 0 := by
          rw [← h.agree asset]
          refine sumAt_eq_zero fun tx htx htk => ?_
          exact absurd ⟨tx,htx,htk,hu.settlement h.grounds tx htx htk⟩ hse
        refine eq_zero_of_sumAt_eq_zero (fun y => ?_) hz hx hky
        unfold counts
        split_ifs
        · exact Int.natCast_nonneg _
        · exact le_rfl
    · exact counts_reverseMatch b.transfers asset x₀
  · refine sumAt_update (fun _ _ _ => rfl) fun x hx hp hky => ?_
    exact absurd ((hu.own x hx hp).symm.trans hky) hk

lemma Undone.sound (h : Sound b) : Sound b' := by
  have hi : b'.aggregates.map (·.id) = b.aggregates.map (·.id) := by
    rw [hu.aggregates]
    exact map_update fun _ _ _ => rfl
  refine ⟨by rw [hu.transfers]; exact h.transferIDs,by rw [hu.intents]; exact h.intentKeys,?_,
    by rw [hi]; exact h.aggregateIDs,fun source => ?_,?_,fun x hx => ?_⟩
  · rw [hu.paymentMatches]
    convert h.matchIDs using 1
    exact map_update fun _ _ _ => rfl
  · rw [hu.paymentMatches]
    refine (countP_update_le fun x _ _ hq => ?_).trans (h.oneActive source)
    exact absurd rfl hq.2
  · intro g hg g' hg' hte hr hli hli'
    rw [hu.aggregates] at hg hg'
    rcases mem_update_iff.mp hg with ⟨hg,-⟩ | ⟨g₀,-,-,rfl⟩
    · rcases mem_update_iff.mp hg' with ⟨hg',-⟩ | ⟨g₀',-,-,rfl⟩
      · exact h.oneLive g hg g' hg' hte hr hli hli'
      · exact absurd rfl hli'
    · exact absurd rfl hli
  · rw [hu.paymentMatches] at hx
    have hln : ∀ x₀ ∈ b.paymentMatches, ∀ state, (state = .finalized → x₀.state = .finalized ∧ ¬p x₀) →
        ∃ t, Linked b' { x₀ with state := state } t := by
      intro x₀ hx₀ state hst
      obtain ⟨t,hl⟩ := h.linked x₀ hx₀
      refine ⟨t,by rw [hu.transfers]; exact hl.stored,hl.source,hl.received,
        by rw [hu.intents]; exact hl.intent,fun a ha => ?_⟩
      obtain ⟨hro,g,hg,hid,hte,hse⟩ := hl.joint a ha
      refine ⟨hro,?_⟩
      by_cases hq : q g
      · refine ⟨reverseAggregate g,hu.aggregates ▸ mem_update_self hg hq,hid,
          hte,fun hf => ?_⟩
        -- A match of a reopened aggregate is reversed with it.
        obtain ⟨hbo,hmi,hmt,-⟩ := hu.reopened g hg hq
        obtain ⟨hf,hk⟩ := hst hf
        refine absurd (hu.jointly hbo x₀ hx₀ ?_ (by rw [hf]; simp)) hk
        obtain ⟨tm,hml⟩ := h.linked m hu.active
        rw [matchKey_transfer hl.source,matchKey_transfer hml.source,hmi,ha,← hte, hmt,hid]
        rfl
      · exact ⟨g,hu.aggregates ▸ mem_update_of hg hq,hid,hte,
          fun hf => hse (hst hf).1⟩
    rcases mem_update_iff.mp hx with ⟨hx,hk⟩ | ⟨x₀,hx₀,-,rfl⟩
    · exact hln x hx x.state fun hf => ⟨hf,hk⟩
    · exact hln x₀ hx₀ .reversed fun hf => by cases hf

lemma Undone.grounds (h : Grounds b) : Grounds b' := by
  have hk : ∀ a, (∃ g ∈ b.aggregates, g.id = a ∧ (g.state = .settled ∨ g.state = .reversed)) →
      ∃ g ∈ b'.aggregates, g.id = a ∧ (g.state = .settled ∨ g.state = .reversed) := by
    rintro a ⟨g,hg,hid,hst⟩
    rw [hu.aggregates]
    exact exists_mem_update hg (fun _ => ⟨hid,.inr rfl⟩) fun _ => ⟨hid,hst⟩
  have hn : ∀ tx ∈ (b.ledger.filter (SettledUnder (matchKey m))).map reversal,
      ∃ o ∈ b.ledger, SettledUnder (matchKey m) o ∧ Reverses (matchKey m) o tx := by
    intro tx htx
    obtain ⟨o,ho,rfl⟩ := mem_map.mp htx
    obtain ⟨ho,hse⟩ := mem_filter.mp ho
    exact ⟨o,ho,of_decide_eq_true hse,hu.reverses o (of_decide_eq_true hse)⟩
  refine ⟨fun tx htx a ha => ?_,fun tx htx hty g hg hrf => ?_,fun tx htx hty => ?_⟩
  · rw [hu.ledger] at htx
    rcases mem_append.mp htx with htx | htx
    · exact hk a (h.aggregated tx htx a ha)
    · obtain ⟨o,ho,hse,hr⟩ := hn tx htx
      refine hk a (h.aggregated o ho a ?_)
      rw [← ha]
      exact congrArg Prod.snd (hse.1.trans hr.key.symm)
  · rw [hu.ledger] at htx
    rw [hu.aggregates] at hg
    rcases mem_append.mp htx with htx | htx
    · exact of_mem_update hg (h.referenced tx htx hty) (fun _ h => h) hrf
    · obtain ⟨o,-,-,hr⟩ := hn tx htx
      cases hty.symm.trans hr.type
  · rw [hu.ledger] at htx ⊢
    rcases mem_append.mp htx with htx | htx
    · obtain ⟨o,ho,hre⟩ := h.reversed tx htx hty
      exact ⟨o,mem_append_left _ ho,hre⟩
    · obtain ⟨o,ho,hse,hr⟩ := hn tx htx
      exact ⟨o,mem_append_left _ ho,hse.2,hse.1.trans hr.key.symm, hr.reference⟩

lemma Undone.balanced (h : Balanced b) : Balanced b' := by
  refine ⟨hu.sound h.sound,hu.grounds h.grounds,fun asset k => ?_⟩
  rw [hu.sum_ledger h.grounds asset k,hu.sum_matches h asset k,h.agree asset k]

end

end

section
variable {ids : ReorgIDs} {eventID : String} {db db' : Database} {m : PaymentMatch}

/-- A rewind loads for a transfer the settlements of its live match. -/
theorem loadReorgSettlements_of_active (h : Sound (booksOf db)) (hm : m ∈ db.paymentMatches)
    (hso : m.source = .transfer eventID) (hac : m.state ≠ .reversed) :
    ∃ merchantID version, loadReorgSettlements db eventID =
      (db.ledger.filter (SettledUnder (matchKey m))).map fun o =>
        ⟨m.id,m.tenantID,merchantID,m.intentID,m.routeID,eventID,m.aggregateID,o,version⟩ := by
  obtain ⟨t,hl⟩ := h.linked m hm
  have htr : ∃ e ∈ db.transferEvents, e.id = eventID := by
    obtain ⟨e,he,hf⟩ := mem_map.mp hl.stored
    refine ⟨e,he,?_⟩
    rw [← MatchSource.transfer.inj (hl.source.symm.trans hso),← hf]
    rfl
  have hma : db.paymentMatches.filter
      (fun x => x.source = .transfer eventID ∧ x.state ≠ .reversed) = [m] :=
    filter_eq_singleton (h.oneActive _) hm ⟨hso,hac⟩
  obtain ⟨i,hi,hk⟩ := mem_map.mp hl.intent
  have hin : db.intents.filter (fun i => i.id = m.intentID ∧ i.tenantID = m.tenantID) = [i] := by
    rw [← filter_key h.intentKeys hi]
    refine filter_congr fun j _ => decide_eq_decide.mpr ?_
    rw [hk,PaymentIntent.key,Prod.mk.injEq]
  refine ⟨i.merchantID,i.version,?_⟩
  rw [loadReorgSettlements,if_pos htr,hma,flatMap_singleton,settlementsOf, hin,flatMap_singleton]
  congr 1
  refine filter_congr fun o _ => decide_eq_decide.mpr ?_
  rw [SettledUnder,matchKey_transfer hso,Prod.mk.injEq]
  tauto

lemma booksOf_unclaimed (ho : Orphaned ids eventID db db')
    (hn : ∀ m ∈ db.paymentMatches, m.source = .transfer eventID → m.state = .reversed) :
    booksOf db' = booksOf db := by
  have hl : loadReorgSettlements db eventID = [] := by
    have hma : db.paymentMatches.filter
        (fun x => x.source = .transfer eventID ∧ x.state ≠ .reversed) = [] := by
      rw [filter_eq_nil_iff]
      intro x hx hac
      obtain ⟨hso,hac⟩ := of_decide_eq_true hac
      exact hac (hn x hx hso)
    unfold loadReorgSettlements
    rw [hma]
    split_ifs <;> rfl
  have hle : db'.ledger = db.ledger := by
    rw [ho.ledger,hl]
    simp
  have hma : db'.paymentMatches = db.paymentMatches := by
    rw [ho.paymentMatches,hl]
    refine update_eq_self fun x hx hp => ?_
    rcases hp with ⟨s,hs,-⟩ | ⟨hso,hac⟩
    · cases hs
    · exact absurd (hn x hx hso) hac
  have hag : db'.aggregates = db.aggregates := by
    rw [ho.aggregates,hl]
    exact update_eq_self fun g _ ⟨s,hs,_⟩ => by cases hs
  simp [booksOf,hle,hma,hag,ho.aside.transferEvents,ho.aside.intents]

lemma orphaned_undone (h : Sound (booksOf db)) (hor : Orphaned ids eventID db db')
    (hm : m ∈ db.paymentMatches) (hso : m.source = .transfer eventID)
    (hac : m.state ≠ .reversed) : ∃ reversal, Undone m
      (fun x => (∃ s ∈ loadReorgSettlements db eventID, compensates s x) ∨
        (x.source = .transfer eventID ∧ x.state ≠ .reversed))
      (fun g => ∃ s ∈ loadReorgSettlements db eventID, reopens s g) reversal
      (booksOf db) (booksOf db') := by
  obtain ⟨merchantID,version,hlo⟩ := loadReorgSettlements_of_active h hm hso hac
  set settlement : LedgerTransaction → ReorgSettlement := fun o =>
    ⟨m.id,m.tenantID,merchantID,m.intentID,m.routeID,eventID,m.aggregateID,o,version⟩
  have hl : ∀ s, s ∈ loadReorgSettlements db eventID ↔
      ∃ o ∈ db.ledger, SettledUnder (matchKey m) o ∧ settlement o = s := by
    intro s
    rw [hlo,mem_map]
    simp [and_assoc]
  have hon : ∀ x ∈ db.paymentMatches, x.source = .transfer eventID → x.state ≠ .reversed →
      x = m := fun x hx hxs hxc =>
    eq_of_countP_le_one (h.oneActive _) hm ⟨hso,hac⟩ hx ⟨hxs,hxc⟩
  refine ⟨fun o => reversalIn ids (settlement o),hm,?_,?_,?_,?_,?_,hor.paymentMatches,
    ?_,?_,?_,hor.aggregates,?_⟩
  · exact congrArg (List.map factsOf) hor.aside.transferEvents
  · exact hor.aside.intents
  · intro o ho hse tx htx hte hty
    exact hor.unreversed (settlement o) ((hl _).mpr ⟨o,ho,hse,rfl⟩) tx htx hte hty
  · show db'.ledger = _
    rw [hor.ledger,hlo,map_map]
    rfl
  · intro o hse
    refine ⟨?_,rfl,rfl,fun asset => booked_reversalIn ids (settlement o) asset hse.2⟩
    rw [matchKey_transfer hso]
    rfl
  · -- A compensated match is the orphaned one or one of the same aggregate.
    intro x hx hp
    rcases hp with ⟨s,hs,-,how⟩ | ⟨hxs,hxc⟩
    · obtain ⟨o,-,-,rfl⟩ := (hl s).mp hs
      rcases how with ⟨-,hid⟩ | ⟨hj,hag,hte⟩
      · rw [inj_on_of_nodup_map h.matchIDs hx hm hid]
      · obtain ⟨a,ha⟩ := Option.ne_none_iff_exists'.mp hj
        obtain ⟨t,hli⟩ := h.linked x hx
        rw [matchKey_transfer hli.source,matchKey_transfer hso,hag,hte]
        show _ = (m.tenantID,matchCorrelation (settlement o).aggregateID eventID)
        rw [ha]
        rfl
    · rw [hon x hx hxs hxc]
  · intro x _ hxs hxc
    exact .inr ⟨hxs.trans hso,hxc⟩
  · rintro ⟨o,ho,hse⟩ x hx hk hxc
    obtain ⟨t,hli⟩ := h.linked x hx
    rw [matchKey_transfer hli.source,matchKey_transfer hso,Prod.mk.injEq] at hk
    obtain ⟨hte,hco⟩ := hk
    cases ha : m.aggregateID <;> cases hxa : x.aggregateID <;> rw [ha,hxa] at hco
    · refine .inr ⟨?_,hxc⟩
      rw [hli.source,Correlation.transfer.inj hco]
    · cases hco
    · cases hco
    · refine .inl ⟨settlement o,(hl _).mpr ⟨o,ho,hse,rfl⟩,hxc,.inr ⟨?_,?_,hte⟩⟩
      · show m.aggregateID ≠ none
        rw [ha]
        simp
      · show x.aggregateID = m.aggregateID
        rw [ha,hxa,Correlation.aggregate.inj hco]
  · rintro g - ⟨s,hs,hag,hte,hst⟩
    obtain ⟨o,ho,hse,rfl⟩ := (hl s).mp hs
    exact ⟨⟨o,ho,hse⟩,hag,hte,hst⟩

lemma balanced_orphaned (h : Balanced (booksOf db)) (ho : Orphaned ids eventID db db') :
    Balanced (booksOf db') := by
  by_cases hcl : ∃ m ∈ db.paymentMatches, m.source = .transfer eventID ∧ m.state ≠ .reversed
  · obtain ⟨m,hm,hso,hac⟩ := hcl
    obtain ⟨reversal,hun⟩ := orphaned_undone h.sound ho hm hso hac
    exact hun.balanced h
  · rw [booksOf_unclaimed ho fun m hm hso => ?_]
    · exact h
    · by_contra hac
      exact hcl ⟨m,hm,hso,hac⟩

/-- Every committed rewind keeps the books balanced and the facts of the transfers. -/
theorem balanced_rewind {capability : String} {lease : Lease} {batch : RangeBatch}
    {incidentHeight : ℕ} {clock : ℤ} (h : Balanced (booksOf db))
    (he : rewindReorg capability db lease batch incidentHeight clock ids = .ok db') :
    Balanced (booksOf db') ∧ (booksOf db').transfers = (booksOf db).transfers := by
  obtain ⟨d,cursors,ho,rfl⟩ := rewindReorg_effect he
  have hd : Balanced (booksOf d) := by
    refine traverse_invariant (P := fun db => Balanced (booksOf db)) ?_ ?_ ho
    · intro _ _ _ _ hb hst
      exact balanced_orphaned hb (orphanTransfer_orphaned hst)
    · exact h
  have hf : booksOf { markReorged d (replacedEvents db lease batch) with cursors := cursors } =
      booksOf d := by
    simp only [booksOf]
    congr 1
    exact map_update fun _ _ _ => rfl
  rw [hf]
  exact ⟨hd,congrArg (List.map factsOf) (traverse_orphaned ho).1.transferEvents⟩

end

end Ocrypt.ReorgBooks
