import Ocrypt.ReorgEffects

/-! When a rewind can undo the transfers that it orphans: the intents still stand as the
settlements left them, no reversal is booked yet, and what is announced for a transfer is new. -/
namespace Ocrypt.ReorgProgress
open Domain Fallible Table Store Writes Observations Scanner Reorg ReorgEffects List

def observationKey (o : PaymentObservation) : String × String × ℕ × String × String × String :=
  (o.id,o.transferEventID,o.generation,o.tenantID,o.merchantID,o.intentID)

def ownerKey (i : PaymentIntent) : String × String × String := (i.id,i.tenantID,i.merchantID)

variable {now : ℤ} {db db' : Database} {s : ReorgSettlement} {ss : List ReorgSettlement}

section
variable {ids : ReorgIDs} {o : PaymentObservation} {eventID : String} {webhookID : String}
  {version : ℤ} {i : PaymentIntent}

lemma markObservation_commits (hi : (db.observations.map (·.id)).Nodup)
    (ho : o ∈ db.observations) (hl : o.finality ≠ .reorged) :
    ∃ rows, replaceObservation db o { o with finality := .reorged, version := o.version+1 }
        (· ≠ .reorged) = .ok { db with observations := rows } ∧
      rows.map observationKey = db.observations.map observationKey := by
  have hco : db.observations.countP (fun r => r.id = o.id ∧ r.tenantID = o.tenantID ∧
      r.version = o.version ∧ r.finality ≠ .reorged) = 1 :=
    countP_key hi ho ⟨rfl,rfl,rfl,hl⟩ fun r _ hr => hr.1
  refine ⟨_,replaceObservation_eq_ok.mpr ⟨hco,rfl⟩,map_update fun r hr hp => ?_⟩
  rw [inj_on_of_nodup_map hi hr ho hp.1]
  rfl

theorem reorgPaymentObservation_commits (hi : (db.observations.map (·.id)).Nodup)
    (eventID : String) (now : ℤ) (webhookID : String) :
    ∃ rows, reorgPaymentObservation db eventID false now webhookID =
        .ok { db with observations := rows } ∧
      rows.map observationKey = db.observations.map observationKey := by
  unfold reorgPaymentObservation
  cases hl : loadPaymentObservation db eventID with
  | none => exact ⟨_,rfl,rfl⟩
  | some o =>
    by_cases hr : o.finality = .reorged
    · simp only [hr]
      exact ⟨_,rfl,rfl⟩
    · obtain ⟨rows,hro,hk⟩ :=
        markObservation_commits hi (mem_of_find?_eq_some hl) hr
      simp only [hr,hro]
      exact ⟨rows,rfl,hk⟩

lemma links_of_keys {rows : List PaymentObservation} {events : List ObservationEvent}
    (hk : rows.map observationKey = db.observations.map observationKey)
    (hl : ∀ o ∈ db.observations, o.transferEventID = eventID →
      ⟨o.id,o.generation,.reorged⟩ ∉ events) :
    ∀ o ∈ rows, o.transferEventID = eventID → ⟨o.id,o.generation,.reorged⟩ ∉ events := by
  intro o ho he
  obtain ⟨o₀,ho₀,hsame⟩ := mem_map.mp (hk ▸ mem_map_of_mem ho)
  simp only [observationKey,Prod.mk.injEq] at hsame
  rw [← hsame.1,← hsame.2.2.1]
  exact hl o₀ ho₀ (hsame.2.1.trans he)

lemma insertReorgNotifications_commits (how : s.tenantID ≠ "" ∧ s.merchantID ≠ "")
    (hw : ∀ cb ∈ db.callbacks, cb.id ≠ webhookID)
    (hse : ∀ cb ∈ db.callbacks, cb.intentID = s.intentID → cb.aggregateSequence ≠ some version)
    (hli : ∀ o ∈ db.observations, o.transferEventID = s.eventID →
      ⟨o.id,o.generation,.reorged⟩ ∉ db.observationEvents) :
    ∃ db', insertReorgNotifications db s version webhookID = .ok db' := by
  have hca : insertCallback db ⟨webhookID,s.tenantID,s.merchantID,s.intentID,.reorged,
      some version⟩ = .ok _ :=
    insertCallback_eq_ok.mpr ⟨how.1,how.2, fun cb hcb => ⟨hw cb hcb,fun _ hi => hse cb hcb hi⟩,rfl⟩
  simp only [insertReorgNotifications,hca,ok_bind]
  split
  · exact ⟨_,rfl⟩
  · rename_i o hl
    obtain ⟨ho,he⟩ := mem_of_find? hl
    refine ⟨_,linkObservationEvent_eq_ok.mpr ⟨?_,rfl⟩⟩
    rintro r hr rfl
    exact hli o ho he hr

/-- A settlement can be undone while its intent still stands as it left it. -/
theorem compensateSettlement_commits (hk : (db.intents.map (·.key)).Nodup) (hi : i ∈ db.intents)
    (hke : i.id = s.intentID ∧ i.tenantID = s.tenantID) (hv : i.version = s.intentVersion)
    (hst : i.status ∈ ([.settled,.overpaid,.confirmed] : List IntentStatus))
    (how : s.tenantID ≠ "" ∧ s.merchantID ≠ "")
    (hre : ∀ tx ∈ db.ledger, tx.id ≠ ids.reversal s.original.id ∧
      (tx.businessType = .paymentSettlementReversal →
        tx.businessReference ≠ "reorg:" ++ s.original.id))
    (hw : ∀ cb ∈ db.callbacks, cb.id ≠ ids.webhook s.original.id)
    (hse : ∀ cb ∈ db.callbacks, cb.intentID = s.intentID →
      cb.aggregateSequence ≠ some (s.intentVersion+1))
    (hl : ∀ o ∈ db.observations, o.transferEventID = s.eventID →
      ⟨o.id,o.generation,.reorged⟩ ∉ db.observationEvents) :
    ∃ db', compensateSettlement now ids db s = .ok db' := by
  have hp : postLedger db (reversalOf s (ids.reversal s.original.id)) = .ok _ :=
    postLedger_eq_ok.mpr ⟨fun tx htx => ⟨(hre tx htx).1,fun _ => (hre tx htx).2⟩,rfl⟩
  have hco : db.intents.countP (fun i => i.id = s.intentID ∧ i.tenantID = s.tenantID ∧
      i.version = s.intentVersion ∧
      i.status ∈ ([.settled,.overpaid,.confirmed] : List IntentStatus)) = 1 :=
    countP_key hk hi ⟨hke.1,hke.2,hv,hst⟩ fun r _ hr =>
      Prod.ext (hr.1.trans hke.1.symm) (hr.2.1.trans hke.2.symm)
  simp only [compensateSettlement,hp,ok_bind,updateOne,hco,if_true]
  obtain ⟨jobs,hrv⟩ := reverseMatches_eq (reviewed now ids db s) s now
  rw [hrv]
  exact insertReorgNotifications_commits how hw hse hl

/-- What undoing a transfer announces, where `ss` are the settlements that it compensates. -/
structure Announced (ids : ReorgIDs) (eventID : String) (ss : List ReorgSettlement)
    (db db' : Database) : Prop where
  observations : db'.observations.map observationKey = db.observations.map observationKey
  links : ∀ l ∈ db'.observationEvents, l ∈ db.observationEvents ∨
    ∃ o ∈ db.observations, o.transferEventID = eventID ∧ o.id = l.observationID
  owners : db'.intents.map ownerKey = db.intents.map ownerKey
  intents : ∀ i' ∈ db'.intents, ∃ i ∈ db.intents, i.id = i'.id ∧ i.version ≤ i'.version ∧
    (i' = i ∨ i.status = .observed ∨ i.status = .confirmed ∨ ∃ s ∈ ss, s.intentID = i.id)
  callbacks : ∀ cb ∈ db'.callbacks, cb ∈ db.callbacks ∨
    (cb.id = ids.observationWebhook eventID ∧ cb.aggregateSequence = none) ∨
    ∃ s ∈ ss, cb.id = ids.webhook s.original.id ∧
      ∀ i ∈ db'.intents, cb.intentID = i.id → ∀ n ∈ cb.aggregateSequence, n ≤ i.version

lemma Announced.of_same
    (ho : db'.observations.map observationKey = db.observations.map observationKey)
    (hli : db'.observationEvents = db.observationEvents) (hin : db'.intents = db.intents)
    (hca : db'.callbacks = db.callbacks) : Announced ids eventID ss db db' := by
  refine ⟨ho,?_,by rw [hin],?_,?_⟩
  · rw [hli]
    exact fun l hl => .inl hl
  · rw [hin]
    exact fun i hi => ⟨i,hi,rfl,le_rfl,.inl rfl⟩
  · rw [hca]
    exact fun cb hcb => .inl hcb

/-- Undoing a settlement announces it under its own ids. -/
theorem compensateSettlement_announced
    (hid : (db.intents.map (·.id)).Nodup) (h : compensateSettlement now ids db s = .ok db') :
    Announced ids s.eventID [s] db db' := by
  simp only [compensateSettlement,do_ok,updateOne_eq_ok] at h
  obtain ⟨d,hpo,intents,⟨ho,rfl⟩,h⟩ := h
  obtain ⟨-,rfl⟩ := postLedger_eq_ok.mp hpo
  obtain ⟨jobs,hr⟩ := reverseMatches_eq (reviewed now ids db s) s now
  rw [hr] at h
  obtain ⟨events,rfl,he⟩ := insertReorgNotifications_announces h
  obtain ⟨i₀,hi₀,hp₀⟩ := countP_pos_iff.mp (by rw [ho]; exact Nat.one_pos)
  have hp₀ := of_decide_eq_true hp₀
  refine ⟨rfl,he,map_update fun _ _ _ => rfl,?_,?_⟩
  · exact forall_mem_update (fun i hi _ => ⟨i,hi,rfl,le_rfl,.inl rfl⟩)
      fun i hi hp => ⟨i,hi,rfl,by simp,.inr (.inr (.inr ⟨s,mem_singleton_self s,hp.1.symm⟩))⟩
  · refine forall_snoc (fun _ => .inl) (.inr (.inr ⟨s,mem_singleton_self s,rfl,?_⟩))
    intro i' hi' hin n hn
    cases hn
    rcases mem_update_iff.mp hi' with ⟨hold,hno⟩ | ⟨i,hi,hp,rfl⟩
    · -- The row with the identifier of the intent is the one that was updated.
      have hsame := inj_on_of_nodup_map hid hold hi₀ (hin.symm.trans hp₀.1.symm)
      exact absurd (hsame ▸ hp₀) hno
    · exact le_of_eq (by simp [hp.2.2.1])

lemma reviewObservedIntent_commits (hid : (db.intents.map (·.id)).Nodup)
    (hi : i ∈ db.intents) : ∃ intents, reviewObservedIntent db.intents i = .ok intents ∧
      intents.map ownerKey = db.intents.map ownerKey ∧
      ∀ i' ∈ intents, ∃ i ∈ db.intents, i.id = i'.id ∧ i.version ≤ i'.version ∧
        (i' = i ∨ i.status = .observed ∨ i.status = .confirmed) := by
  unfold reviewObservedIntent
  split_ifs with hst
  · have hco : db.intents.countP (fun r => r.id = i.id ∧ r.tenantID = i.tenantID ∧
        r.version = i.version ∧ (r.status = .observed ∨ r.status = .confirmed)) = 1 :=
      countP_key hid hi ⟨rfl,rfl,rfl,hst⟩ fun r _ hr => hr.1
    refine ⟨_,updateOne_eq_ok.mpr ⟨hco,rfl⟩,map_update fun _ _ _ => rfl,?_⟩
    exact forall_mem_update (fun i hi _ => ⟨i,hi,rfl,le_rfl,.inl rfl⟩)
      fun r hr hp => ⟨r,hr,rfl,by simp,.inr hp.2.2.2⟩
  · exact ⟨_,rfl,rfl,fun i' hi' => ⟨i',hi',rfl,le_rfl,.inl rfl⟩⟩

lemma emitObservationCallback_commits {c : SettlementCandidate} (how : c.tenantID ≠ "" ∧ c.merchantID ≠ "")
    (hw : ∀ cb ∈ db.callbacks, cb.id ≠ webhookID)
    (hl : ⟨o.id,o.generation,.reorged⟩ ∉ db.observationEvents) :
    emitObservationCallback db c o .reorged webhookID = .ok { db with
      callbacks := db.callbacks ++
        [⟨webhookID,c.tenantID,c.merchantID,c.intentID,.reorged,none⟩]
      observationEvents := db.observationEvents ++ [⟨o.id,o.generation,.reorged⟩] } := by
  have hca : insertCallback db ⟨webhookID,c.tenantID,c.merchantID,c.intentID,.reorged,
      none⟩ = .ok _ :=
    insertCallback_eq_ok.mpr ⟨how.1,how.2, fun cb hcb => ⟨hw cb hcb,fun hse => absurd rfl hse⟩,rfl⟩
  simp only [emitObservationCallback,hca]
  refine linkObservationEvent_eq_ok.mpr ⟨?_,rfl⟩
  rintro r hr rfl
  exact hl hr

/-- An observation whose announcement is new is marked and announced. -/
theorem reorgPaymentObservation_announced (now : ℤ)
    (his : (db.intents.map (·.id)).Nodup) (hob : (db.observations.map (·.id)).Nodup)
    (how : ∀ o ∈ db.observations, o.tenantID ≠ "" ∧ o.merchantID ≠ "" ∧
      ∃ i ∈ db.intents, i.id = o.intentID ∧ i.tenantID = o.tenantID)
    (hli : ∀ o ∈ db.observations, o.transferEventID = eventID →
      ⟨o.id,o.generation,.reorged⟩ ∉ db.observationEvents)
    (hw : ∀ cb ∈ db.callbacks, cb.id ≠ ids.observationWebhook eventID) :
    ∃ db', reorgPaymentObservation db eventID true now (ids.observationWebhook eventID) = .ok db' ∧
      Announced ids eventID [] db db' := by
  unfold reorgPaymentObservation
  cases hlo : loadPaymentObservation db eventID with
  | none => exact ⟨_,rfl,.of_same rfl rfl rfl rfl⟩
  | some o =>
    obtain ⟨ho,he⟩ := mem_of_find? hlo
    by_cases hr : o.finality = .reorged
    · simp only [hr]
      exact ⟨_,rfl,.of_same rfl rfl rfl rfl⟩
    obtain ⟨rows,hro,hk⟩ := markObservation_commits hob ho hr
    simp only [hr,if_false,hro,ok_bind]
    split_ifs with hvi
    · exact ⟨_,rfl,.of_same hk rfl rfl rfl⟩
    · obtain ⟨hte,hm,i,hi,hii,hit⟩ := how o ho
      have hf : ∃ j, db.intents.find? (fun i => decide (i.id = o.intentID ∧
          i.tenantID = o.tenantID)) = some j := by
        rw [← Option.isSome_iff_exists,find?_isSome]
        exact ⟨i,hi,by simp [hii,hit]⟩
      obtain ⟨j,hj⟩ := hf
      have hjm : j ∈ db.intents := mem_of_find?_eq_some hj
      obtain ⟨intents,hre,hon,hin⟩ := reviewObservedIntent_commits his hjm
      simp only [hj,orFail,ok_bind,hre]
      refine ⟨_,emitObservationCallback_commits ⟨hte,hm⟩ hw (hli o ho he),hk,?_,hon,?_,?_⟩
      · exact forall_snoc (fun _ => .inl) (.inr ⟨o,ho,he,rfl⟩)
      · intro i' hi'
        obtain ⟨i,hi,hid,hv,hst⟩ := hin i' hi'
        refine ⟨i,hi,hid,hv,?_⟩
        rcases hst with hsame | hos | hco
        · exact .inl hsame
        · exact .inr (.inl hos)
        · exact .inr (.inr (.inl hco))
      · exact forall_snoc (fun _ => .inl) (.inr (.inl ⟨rfl,rfl⟩))

end

/-- What the schema and the other transactions keep of intents, observations and callbacks. -/
structure Kept (db : Database) : Prop where
  intents : (db.intents.map (·.id)).Nodup
  owners : ∀ i ∈ db.intents, i.tenantID ≠ "" ∧ i.merchantID ≠ ""
  sequences : ∀ cb ∈ db.callbacks, ∀ i ∈ db.intents, cb.intentID = i.id →
    ∀ n ∈ cb.aggregateSequence, n ≤ i.version
  observations : (db.observations.map (·.id)).Nodup
  observers : ∀ o ∈ db.observations, o.tenantID ≠ "" ∧ o.merchantID ≠ "" ∧
    ∃ i ∈ db.intents, i.id = o.intentID ∧ i.tenantID = o.tenantID

structure Drawn (ids : ReorgIDs) : Prop where
  reversal : Function.Injective ids.reversal
  webhook : Function.Injective ids.webhook
  observationWebhook : Function.Injective ids.observationWebhook
  apart : ∀ ledgerID eventID, ids.webhook ledgerID ≠ ids.observationWebhook eventID

abbrev SameAggregate (s t : ReorgSettlement) : Prop :=
  s.aggregateID ≠ none ∧ t.aggregateID = s.aggregateID ∧ t.tenantID = s.tenantID

/-- Nothing stands against undoing the transfers one after the other: each was settled at most
once, its intent is as the settlement left it, no reversal of it is booked, settlements of
different transfers have different intents unless they are of one aggregate, and what is drawn
and announced for the transfers is new. -/
structure Undoable (ids : ReorgIDs) (events : List String) (db : Database) : Prop extends Kept db,
    Drawn ids where
  live : ∀ e ∈ events,
    db.paymentMatches.countP (fun m => m.source = .transfer e ∧ m.state ≠ .reversed) ≤ 1
  booked : ∀ e ∈ events, ∀ m ∈ db.paymentMatches, m.source = .transfer e → m.state ≠ .reversed →
    (db.ledger.countP fun tx => tx.tenantID = m.tenantID ∧ tx.businessType = .paymentSettlement ∧
      tx.correlation = matchCorrelation m.aggregateID e) ≤ 1
  standing : ∀ e ∈ events, ∀ s ∈ loadReorgSettlements db e, ∀ i ∈ db.intents, i.id = s.intentID →
    i.status = .settled ∨ i.status = .overpaid
  unreversed : ∀ e ∈ events, ∀ s ∈ loadReorgSettlements db e, ∀ tx ∈ db.ledger,
    tx.id ≠ ids.reversal s.original.id ∧ (tx.businessType = .paymentSettlementReversal →
      tx.businessReference ≠ "reorg:" ++ s.original.id)
  separate : ∀ e ∈ events, ∀ e' ∈ events, e ≠ e' → ∀ s ∈ loadReorgSettlements db e,
    ∀ s' ∈ loadReorgSettlements db e', SameAggregate s s' ∨
      (s.intentID ≠ s'.intentID ∧ s.original.id ≠ s'.original.id)
  links : ∀ o ∈ db.observations, o.transferEventID ∈ events →
    ⟨o.id,o.generation,.reorged⟩ ∉ db.observationEvents
  announced : ∀ cb ∈ db.callbacks, ∀ e ∈ events, cb.id ≠ ids.observationWebhook e ∧
    ∀ s ∈ loadReorgSettlements db e, cb.id ≠ ids.webhook s.original.id

variable {events : List String}

section
variable {ids : ReorgIDs} {e : String} {rest : List String}

lemma mem_loadReorgSettlements :
    s ∈ loadReorgSettlements db e ↔ (∃ t ∈ db.transferEvents, t.id = e) ∧
      ∃ m ∈ db.paymentMatches, m.source = .transfer e ∧ m.state ≠ .reversed ∧
      ∃ i ∈ db.intents, i.id = m.intentID ∧ i.tenantID = m.tenantID ∧
      ∃ tx ∈ db.ledger, tx.tenantID = m.tenantID ∧ tx.businessType = .paymentSettlement ∧
        tx.correlation = matchCorrelation m.aggregateID e ∧
        s = ⟨m.id,m.tenantID,i.merchantID,m.intentID,m.routeID,e,m.aggregateID,tx,i.version⟩ := by
  unfold loadReorgSettlements settlementsOf
  split_ifs with hst
  · simp only [hst,true_and,mem_flatMap,mem_filter,mem_map, decide_eq_true_eq,and_assoc]
    constructor
    · rintro ⟨m,hm,hso,hl,i,hi,hid,hte,tx,htx,hbo,hty,hco,rfl⟩
      exact ⟨m,hm,hso,hl,i,hi,hid,hte,tx,htx,hbo,hty,hco,rfl⟩
    · rintro ⟨m,hm,hso,hl,i,hi,hid,hte,tx,htx,hbo,hty,hco,rfl⟩
      exact ⟨m,hm,hso,hl,i,hi,hid,hte,tx,htx,hbo,hty,hco,rfl⟩
  · simp [hst]

section
variable (h : Undoable ids (e::rest) db)
include h

lemma Undoable.load_cases :
    loadReorgSettlements db e = [] ∨ ∃ s, loadReorgSettlements db e = [s] := by
  by_cases hn : ∃ s, s ∈ loadReorgSettlements db e
  · right
    obtain ⟨s,hs⟩ := hn
    obtain ⟨hst,m,hm,hso,hl,i,hi,hid,hte,tx,htx,hbo,hty, hco,rfl⟩ := mem_loadReorgSettlements.mp hs
    have hma := filter_eq_singleton (h.live e mem_cons_self) hm ⟨hso,hl⟩
    have hle := filter_eq_singleton (h.booked e mem_cons_self m hm hso hl) htx
      ⟨hbo,hty,hco⟩
    have ho : db.intents.countP (fun i => i.id = m.intentID ∧ i.tenantID = m.tenantID) ≤ 1 := by
      have := countP_key h.intents hi (p := fun i => i.id = m.intentID ∧ i.tenantID = m.tenantID)
        ⟨hid,hte⟩ fun r _ hr => hr.1.trans hid.symm
      omega
    have hin := filter_eq_singleton ho hi ⟨hid,hte⟩
    refine ⟨⟨m.id,m.tenantID,i.merchantID,m.intentID,m.routeID,e,m.aggregateID,tx,i.version⟩,?_⟩
    simp only [loadReorgSettlements,hst,if_true,hma,flatMap_cons,flatMap_nil,
      append_nil,settlementsOf,hin,hle,map_cons,map_nil]
  · left
    rw [eq_nil_iff_forall_not_mem]
    exact fun s hs => hn ⟨s,hs⟩

lemma Undoable.orphan_commits (now : ℤ) : ∃ db', orphanTransfer now ids db e = .ok db' ∧
      Announced ids e (loadReorgSettlements db e) db db' := by
  have hli : ∀ o ∈ db.observations, o.transferEventID = e →
      ⟨o.id,o.generation,.reorged⟩ ∉ db.observationEvents := by
    rintro o ho rfl
    exact h.links o ho mem_cons_self
  rcases h.load_cases with hlo | ⟨s,hlo⟩
  · obtain ⟨d,hob,han⟩ := reorgPaymentObservation_announced now
      h.intents h.observations h.observers hli fun cb hcb => (h.announced cb hcb e mem_cons_self).1
    simp only [orphanTransfer,hlo,isEmpty_nil,hob]
    exact ⟨_,rfl,han.observations,han.links,han.owners, han.intents,han.callbacks⟩
  · have hs : s ∈ loadReorgSettlements db e := by simp [hlo]
    obtain ⟨-,m,-,-,-,i,hi,hid,hte,tx,-,-,-,-,hf⟩ :=
      mem_loadReorgSettlements.mp hs
    obtain ⟨rows,hob,hk⟩ := reorgPaymentObservation_commits h.observations e now
      (ids.observationWebhook e)
    have hr : ∀ o ∈ rows, ∃ o₀ ∈ db.observations, observationKey o₀ = observationKey o :=
      fun o ho => mem_map.mp (hk ▸ mem_map_of_mem ho)
    have hco : ∃ d, compensateSettlement now ids { db with observations := rows } s =
        .ok d := by
      have hsa := h.standing e mem_cons_self s hs i hi (by rw [hf]; exact hid)
      refine compensateSettlement_commits (i := i) ?_ hi ?_ ?_ ?_ ?_
        (h.unreversed e mem_cons_self s hs)
        (fun cb hcb => (h.announced cb hcb e mem_cons_self).2 s hs) ?_ ?_
      · have hn := h.intents
        rw [show (fun i : PaymentIntent => i.id) = Prod.fst ∘ PaymentIntent.key from rfl,
          ← map_map] at hn
        exact hn.of_map
      · rw [hf]
        exact ⟨hid,hte⟩
      · rw [hf]
      · rcases hsa with hst | hst <;> simp [hst]
      · rw [hf]
        exact ⟨hte ▸ (h.owners i hi).1,(h.owners i hi).2⟩
      · intro cb hcb hin hse
        rw [hf] at hin hse
        have hbo := h.sequences cb hcb i hi (hin.trans hid.symm) (i.version+1) hse
        omega
      · rw [hf]
        exact links_of_keys hk hli
    obtain ⟨d,hd⟩ := hco
    have han : Announced ids s.eventID [s] { db with observations := rows } d :=
      compensateSettlement_announced h.intents hd
    have hev : s.eventID = e := by rw [hf]
    have htr : Fallible.traverse (compensateSettlement now ids) [s]
        { db with observations := rows } = .ok d := traverse_cons_eq_ok.mpr ⟨d,hd,rfl⟩
    simp only [orphanTransfer,hlo,isEmpty_cons,hob,ok_bind,htr]
    refine ⟨_,rfl,han.observations.trans hk,?_,han.owners,han.intents, hev ▸ han.callbacks⟩
    intro l hl
    rcases han.links l hl with hold | ⟨o,ho,hta,hoi⟩
    · exact .inl hold
    · obtain ⟨o₀,ho₀,hsame⟩ := hr o ho
      simp only [observationKey,Prod.mk.injEq] at hsame
      exact .inr ⟨o₀,ho₀,hsame.2.1.trans (hta.trans hev),hsame.1.trans hoi⟩

lemma Undoable.mem_load (hn : e ∉ rest) (ho : Orphaned ids e db db')
    (han : Announced ids e (loadReorgSettlements db e) db db') {e' : String} (he' : e' ∈ rest)
    {s' : ReorgSettlement} (hs' : s' ∈ loadReorgSettlements db' e') :
    s' ∈ loadReorgSettlements db e' ∧
      (∀ s ∈ loadReorgSettlements db e, s.original.id ≠ s'.original.id) ∧
      ∀ i ∈ db'.intents, i.id = s'.intentID → i ∈ db.intents := by
  obtain ⟨hst,m,hm,hso,hl,i',hi',hid,hte,tx,htx,hbo,hty, hco,rfl⟩ := mem_loadReorgSettlements.mp hs'
  rw [ho.aside.transferEvents] at hst
  rw [ho.paymentMatches] at hm
  rw [ho.ledger] at htx
  have hac : m ∈ db.paymentMatches ∧ ¬((∃ s ∈ loadReorgSettlements db e, compensates s m) ∨
      (m.source = .transfer e ∧ m.state ≠ .reversed)) := by
    rcases mem_update_iff.mp hm with hold | ⟨m₀,-,-,rfl⟩
    · exact hold
    · exact absurd rfl hl
  have htx : tx ∈ db.ledger := by
    rcases mem_append.mp htx with hold | hr
    · exact hold
    · obtain ⟨s,-,rfl⟩ := mem_map.mp hr
      cases hty
  have hme : e' ∈ e::rest := mem_cons_of_mem e he'
  have hne : e ≠ e' := by
    rintro rfl
    exact hn he'
  -- The settlement as it stood before, with the row that its intent had.
  have hbe : ∀ i ∈ db.intents, i.id = m.intentID → i.tenantID = m.tenantID →
      (⟨m.id,m.tenantID,i.merchantID,m.intentID,m.routeID,e',m.aggregateID,tx,i.version⟩ :
        ReorgSettlement) ∈ loadReorgSettlements db e' := by
    intro i hi hid hte
    exact mem_loadReorgSettlements.mpr ⟨hst,m,hac.1,hso,hl,i,hi,hid,hte, tx,htx,hbo,hty,hco,rfl⟩
  have how := mem_map.mp (han.owners ▸ mem_map_of_mem hi')
  obtain ⟨i₀,hi₀,hke⟩ := how
  simp only [ownerKey,Prod.mk.injEq] at hke
  have hse := hbe i₀ hi₀ (hke.1.trans hid) (hke.2.1.trans hte)
  have hap : ∀ s ∈ loadReorgSettlements db e, s.intentID ≠ m.intentID ∧ s.original.id ≠ tx.id := by
    intro s hs
    rcases h.separate e mem_cons_self e' hme hne s hs _ hse with ⟨hsm,hsame⟩ | hap
    · exact absurd (.inl ⟨s,hs,hl,.inr ⟨hsm,hsame⟩⟩) hac.2
    · exact hap
  have hk : ∀ i ∈ db'.intents, i.id = m.intentID → i ∈ db.intents := by
    intro i hi hii
    obtain ⟨j,hj,hji,-,hsame | hob | hcn | ⟨s,hs,hin⟩⟩ :=
      han.intents i hi
    · exact hsame ▸ hj
    · have := h.standing e' hme _ hse j hj (hji.trans hii)
      simp [hob] at this
    · have := h.standing e' hme _ hse j hj (hji.trans hii)
      simp [hcn] at this
    · exact absurd (hin.trans (hji.trans hii)) (hap s hs).1
  exact ⟨hbe i' (hk i' hi' hid) hid hte,fun s hs => (hap s hs).2,hk⟩

end

lemma Kept.announced (h : Kept db) (han : Announced ids e ss db db') : Kept db' := by
  have his : db'.intents.map (·.id) = db.intents.map (·.id) := by
    have hf := congrArg (List.map Prod.fst) han.owners
    rw [map_map,map_map] at hf
    exact hf
  have hob : db'.observations.map (·.id) = db.observations.map (·.id) := by
    have hf := congrArg (List.map Prod.fst) han.observations
    rw [map_map,map_map] at hf
    exact hf
  refine ⟨his ▸ h.intents,?_,?_,hob ▸ h.observations,?_⟩
  · intro i hi
    obtain ⟨i₀,hi₀,hk⟩ := mem_map.mp (han.owners ▸ mem_map_of_mem hi)
    simp only [ownerKey,Prod.mk.injEq] at hk
    rw [← hk.2.1,← hk.2.2]
    exact h.owners i₀ hi₀
  · intro cb hcb i hi hin n hn
    rcases han.callbacks cb hcb with hold | ⟨-,hno⟩ | ⟨s,-,-,hv⟩
    · obtain ⟨i₀,hi₀,hid,hv,-⟩ := han.intents i hi
      exact (h.sequences cb hold i₀ hi₀ (hin.trans hid.symm) n hn).trans hv
    · rw [hno] at hn
      cases hn
    · exact hv i hi hin n hn
  · intro o ho
    obtain ⟨o₀,ho₀,hk⟩ := mem_map.mp (han.observations ▸ mem_map_of_mem ho)
    simp only [observationKey,Prod.mk.injEq] at hk
    obtain ⟨-,-,-,hte,hm,hin⟩ := hk
    obtain ⟨hto,hmo,i,hi,hid,hti⟩ := h.observers o₀ ho₀
    obtain ⟨i',hi',hik⟩ := mem_map.mp (han.owners.symm ▸ mem_map_of_mem hi)
    simp only [ownerKey,Prod.mk.injEq] at hik
    rw [← hte,← hm,← hin]
    exact ⟨hto,hmo,i',hi',hik.1.trans hid,hik.2.1.trans hti⟩

lemma Undoable.tail (h : Undoable ids (e::rest) db) (hnw : e ∉ rest) (hor : Orphaned ids e db db')
    (han : Announced ids e (loadReorgSettlements db e) db db') : Undoable ids rest db' := by
  have hme : ∀ e' ∈ rest, e' ∈ e::rest := fun e' he' => mem_cons_of_mem e he'
  have hl : ∀ e' ∈ rest, ∀ s' ∈ loadReorgSettlements db' e', s' ∈ loadReorgSettlements db e' ∧
      (∀ s ∈ loadReorgSettlements db e, s.original.id ≠ s'.original.id) ∧
      ∀ i ∈ db'.intents, i.id = s'.intentID → i ∈ db.intents :=
    fun e' he' s' hs' => h.mem_load hnw hor han he' hs'
  refine ⟨h.toKept.announced han,h.toDrawn,?_,?_,?_,?_,?_,?_,?_⟩
  · intro e' he'
    rw [hor.paymentMatches]
    refine (countP_update_le fun m _ _ hli => ?_).trans (h.live e' (hme e' he'))
    exact absurd rfl hli.2
  · intro e' he' m hm hso hli
    rw [hor.paymentMatches] at hm
    have hold : m ∈ db.paymentMatches := by
      rcases mem_update_iff.mp hm with ⟨hold,-⟩ | ⟨m₀,-,-,rfl⟩
      · exact hold
      · exact absurd rfl hli
    have hn : ((loadReorgSettlements db e).map (reversalIn ids)).countP (fun tx =>
        tx.tenantID = m.tenantID ∧ tx.businessType = .paymentSettlement ∧
          tx.correlation = matchCorrelation m.aggregateID e') = 0 := by
      rw [countP_eq_zero]
      intro tx htx
      obtain ⟨s,-,rfl⟩ := mem_map.mp htx
      simp [reversalIn,reversalOf]
    rw [hor.ledger,countP_append,hn]
    exact h.booked e' (hme e' he') m hold hso hli
  · intro e' he' s' hs' i hi hid
    obtain ⟨hold,-,hk⟩ := hl e' he' s' hs'
    exact h.standing e' (hme e' he') s' hold i (hk i hi hid) hid
  · intro e' he' s' hs' tx htx
    obtain ⟨hold,hot,-⟩ := hl e' he' s' hs'
    rw [hor.ledger] at htx
    rcases mem_append.mp htx with htx | htx
    · exact h.unreversed e' (hme e' he') s' hold tx htx
    · obtain ⟨s,hs,rfl⟩ := mem_map.mp htx
      refine ⟨fun hid => hot s hs (h.reversal hid),fun _ hr => hot s hs ?_⟩
      exact (String.append_right_inj _).mp hr
  · intro e' he' e'' he'' hne s' hs' s'' hs''
    exact h.separate e' (hme e' he') e'' (hme e'' he'') hne s' (hl e' he' s' hs').1 s''
      (hl e'' he'' s'' hs'').1
  · intro o ho hev hln
    obtain ⟨o₀,ho₀,hke⟩ := mem_map.mp (han.observations ▸ mem_map_of_mem ho)
    simp only [observationKey,Prod.mk.injEq] at hke
    obtain ⟨hid,htr,hg,-⟩ := hke
    rw [← hid,← hg] at hln
    rcases han.links _ hln with hold | ⟨o₁,ho₁,htr₁,hid₁⟩
    · exact h.links o₀ ho₀ (by rw [htr]; exact hme _ hev) hold
    · rw [inj_on_of_nodup_map h.observations ho₁ ho₀ hid₁,htr] at htr₁
      exact hnw (htr₁ ▸ hev)
  · intro cb hcb e' he'
    have hne : e ≠ e' := by
      rintro rfl
      exact hnw he'
    rcases han.callbacks cb hcb with hold | ⟨hid,-⟩ | ⟨s,hs,hid,-⟩
    · obtain ⟨hob,hw⟩ := h.announced cb hold e' (hme e' he')
      exact ⟨hob,fun s' hs' => hw s' (hl e' he' s' hs').1⟩
    · rw [hid]
      exact ⟨fun hsame => hne (h.observationWebhook hsame),fun s' _ => (h.apart _ _).symm⟩
    · rw [hid]
      refine ⟨h.apart _ _,fun s' hs' hsame => ?_⟩
      exact (hl e' he' s' hs').2.1 s hs (h.webhook hsame)

lemma orphans_commit (hev : events.Nodup) (h : Undoable ids events db) :
    ∃ db', Fallible.traverse (orphanTransfer now ids) events db = .ok db' := by
  induction events generalizing db with
  | nil => exact ⟨db,rfl⟩
  | cons e rest ih =>
    obtain ⟨hn,hr⟩ := nodup_cons.mp hev
    obtain ⟨mid,hm,han⟩ := h.orphan_commits now
    obtain ⟨db',hdb'⟩ := ih hr (h.tail hn (orphanTransfer_orphaned hm) han)
    exact ⟨db',traverse_cons_eq_ok.mpr ⟨mid,hm,hdb'⟩⟩

lemma Undoable.mono {events' : List String} (h : Undoable ids events db)
    (hsu : ∀ e ∈ events', e ∈ events) : Undoable ids events' db := by
  refine ⟨h.toKept,h.toDrawn,?_,?_,?_,?_,?_,?_,?_⟩
  · exact fun e he => h.live e (hsu e he)
  · exact fun e he => h.booked e (hsu e he)
  · exact fun e he => h.standing e (hsu e he)
  · exact fun e he => h.unreversed e (hsu e he)
  · exact fun e he e' he' => h.separate e (hsu e he) e' (hsu e' he')
  · exact fun o ho hev => h.links o ho (hsu _ hev)
  · exact fun cb hcb e he => h.announced cb hcb e (hsu e he)

lemma Undoable.scanned (h : Undoable ids events db)
    (chainBlocks : List ChainBlock) (cursors : List ScannerCursor) :
    Undoable ids events { db with chainBlocks := chainBlocks, cursors := cursors } :=
  ⟨⟨h.intents,h.owners,h.sequences,h.observations,h.observers⟩,h.toDrawn,h.live,h.booked,
    h.standing,h.unreversed,h.separate,h.links,h.announced⟩

/-- A rewind that replaces the block of a transfer goes below the leased height. -/
lemma lower_of_replaced {lease : Lease} {batch : RangeBatch} {eventID : String}
    (h : eventID ∈ replacedEvents db lease batch) :
    (rewindPoint db lease batch).height < lease.height := by
  obtain ⟨t,ht,-⟩ := mem_map.mp h
  obtain ⟨-,hb,-⟩ := of_decide_eq_true (mem_filter.mp ht).2
  obtain ⟨b,hb,-⟩ := mem_map.mp hb
  obtain ⟨-,hlo,hup,-⟩ := of_decide_eq_true (mem_filter.mp hb).2
  omega

/-- A rewind under a held lease commits if the transfers that it orphans can be undone. -/
theorem rewindReorg_commits {capability : String} {lease : Lease} {batch : RangeBatch} {clock : ℤ}
    (hr : lease.chainID ≠ "" ∧ lease.shard ≠ "" ∧ lease.owner ≠ "" ∧ lease.hash ≠ "" ∧
      batch.blocks ≠ [] ∧ batch.fromHeight ≤ lease.height)
    (hhe : db.cursors.countP (HoldsCursor capability lease clock) = 1)
    (hlo : (rewindPoint db lease batch).height < lease.height)
    (ho : ∃ d, Fallible.traverse (orphanTransfer clock ids) (replacedEvents db lease batch)
      { db with chainBlocks := rewoundBlocks db lease batch clock } = .ok d) :
    ∃ db', rewindReorg capability db lease batch lease.height clock ids = .ok db' := by
  obtain ⟨d,hd⟩ := ho
  obtain ⟨has,-⟩ := traverse_orphaned hd
  obtain ⟨hch,hsh,how,hha,hbl,hf⟩ := hr
  have hl : ∃ c ∈ db.cursors, HoldsCursor capability lease clock c := by
    have hp : 0 < db.cursors.countP (HoldsCursor capability lease clock) := by omega
    obtain ⟨c,hc,hh⟩ := countP_pos_iff.mp hp
    exact ⟨c,hc,of_decide_eq_true hh⟩
  have hcu := has.cursors
  simp only [rewindReorg,insertScannerGap,moveCursor,do_ok,updateOne_eq_ok]
  exact ⟨_,⟨hch,hsh,how,hha,trivial,hbl,hf⟩,hl,d,hd,hlo,_, ⟨hcu ▸ hhe,rfl⟩,rfl⟩

end

end Ocrypt.ReorgProgress
