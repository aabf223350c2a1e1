import Ocrypt.IngestEffects
import Ocrypt.ReorgEffects
import Ocrypt.Workers

/-! What merchants are told of a transfer, over any sequence of reports, exact settlements and
reorganisations: within a generation of its observation each callback is sent once, and the
observation only advances. -/
namespace Ocrypt.ObservationLifecycle
open Domain Fallible Table Store Writes Observations Settlement Reorg Transactions
open ObservationFinality (rank)

/-- The observations with what was emitted for them, in the order of emission. -/
structure Lifecycle (rows : List PaymentObservation) (events : List ObservationEvent) : Prop where
  ids : (rows.map (·.id)).Nodup
  transfers : (rows.map (·.transferEventID)).Nodup
  once : events.Nodup
  ordered : events.Pairwise fun a b =>
    b = { a with eventType := .observed } → a.eventType ≠ .confirming
  known : ∀ l ∈ events, ∃ o ∈ rows, o.id = l.observationID ∧ l.generation ≤ o.generation
  confirmed : ∀ o ∈ rows, o.finality = .confirmed → ⟨o.id,o.generation,.confirming⟩ ∈ events

/-- The row of an observation later on: it advanced, or it was included again. -/
def Evolved (o o' : PaymentObservation) : Prop :=
  o'.id = o.id ∧ o'.transferEventID = o.transferEventID ∧
    (o'.generation = o.generation ∧ rank o.finality ≤ rank o'.finality ∧
        o.confirmations ≤ o'.confirmations ∨ o'.generation = o.generation+1 ∧ o.finality = .reorged)

def Evolves (rows rows' : List PaymentObservation) : Prop := ∀ o ∈ rows, ∃ o' ∈ rows', Evolved o o'

lemma Evolved.refl (o : PaymentObservation) : Evolved o o := ⟨rfl,rfl,.inl ⟨rfl,le_rfl,le_rfl⟩⟩

lemma Evolves.refl (rows : List PaymentObservation) : Evolves rows rows :=
  fun o ho => ⟨o,ho,.refl o⟩

/-- At most the observation `o` was written. -/
structure Written (rows rows' : List PaymentObservation) (o : PaymentObservation) : Prop where
  ids : (rows'.map (·.id)).Nodup
  transfers : (rows'.map (·.transferEventID)).Nodup
  evolves : Evolves rows rows'
  others : ∀ r ∈ rows', r ∈ rows ∨ r = o
  mem : o ∈ rows'

variable {rows rows' : List PaymentObservation} {events : List ObservationEvent}
  {o n : PaymentObservation} {t : CallbackType} {db db' : Database} {e : TransferEvent}
  {c : SettlementCandidate} {observationID webhookID eventID : String} {up : ObservationUpsert}

lemma Lifecycle.same (h : Lifecycle rows events) (ho : o ∈ rows) : Written rows rows o :=
  ⟨h.ids,h.transfers,.refl rows,fun _ => .inl,ho⟩

lemma Lifecycle.replace (h : Lifecycle rows events) (ho : o ∈ rows) (hn : Evolved o n) :
    Written rows (update (·.id = o.id) (fun _ => n) rows) n := by
  have hsame : ∀ r ∈ rows, r.id = o.id → r = o := fun r hr => List.inj_on_of_nodup_map h.ids hr ho
  refine ⟨?_,?_,fun r hr => ?_,fun r hr => ?_,mem_update_self ho rfl⟩
  · rw [map_update (p := (·.id = o.id)) fun r _ hp => hn.1.trans hp.symm]
    exact h.ids
  · rw [map_update (p := (·.id = o.id)) fun r hr hp => hn.2.1.trans (hsame r hr hp ▸ rfl)]
    exact h.transfers
  · exact exists_mem_update hr (fun hp => hsame r hr hp ▸ hn) fun _ => .refl r
  · rcases mem_update_iff.mp hr with ⟨hr,-⟩ | ⟨-,-,-,rfl⟩
    · exact .inl hr
    · exact .inr rfl

lemma Written.known (hw : Written rows rows' o) (h : Lifecycle rows events) {l : ObservationEvent}
    (hl : l ∈ events) : ∃ r ∈ rows', r.id = l.observationID ∧ l.generation ≤ r.generation := by
  obtain ⟨r,hr,hi,hg⟩ := h.known l hl
  obtain ⟨r',hr',hid,-,hge⟩ := hw.evolves r hr
  exact ⟨r',hr',hid.trans hi,by omega⟩

lemma Lifecycle.quiet (h : Lifecycle rows events) (hw : Written rows rows' o)
    (hc : o.finality = .confirmed → ⟨o.id,o.generation,.confirming⟩ ∈ events) :
    Lifecycle rows' events := by
  refine ⟨hw.ids,hw.transfers,h.once,h.ordered,fun l hl => ?_,fun r hr hf => ?_⟩
  · exact hw.known h hl
  · rcases hw.others r hr with hr | rfl
    · exact h.confirmed r hr hf
    · exact hc hf

/-- One emission for a written observation. `observed` opens a generation. -/
lemma Lifecycle.emit (h : Lifecycle rows events) (hw : Written rows rows' o)
    (hn : ⟨o.id,o.generation,t⟩ ∉ events) (hc : o.finality = .confirmed → t = .confirming ∨
      ⟨o.id,o.generation,.confirming⟩ ∈ events)
    (hf : t = .observed → ∀ l ∈ events, l.observationID = o.id → l.generation < o.generation) :
    Lifecycle rows' (events ++ [⟨o.id,o.generation,t⟩]) := by
  refine ⟨hw.ids,hw.transfers,?_,?_,?_,fun r hr hfi => ?_⟩
  · exact List.nodup_append.mpr ⟨h.once,List.nodup_singleton _,by grind⟩
  · refine List.pairwise_append.mpr ⟨h.ordered,List.pairwise_singleton _ _,?_⟩
    rintro a ha b hb rfl
    obtain ⟨hid,hg,ht⟩ := ObservationEvent.mk.inj (List.mem_singleton.mp hb)
    exact absurd hg (hf ht.symm a ha hid).ne
  · exact forall_snoc (fun _ => hw.known h) ⟨o,hw.mem,rfl,le_rfl⟩
  · rcases hw.others r hr with hr | rfl
    · exact List.mem_append_left _ (h.confirmed r hr hfi)
    · rcases hc hfi with rfl | hc
      · simp
      · exact List.mem_append_left _ hc

lemma link_step (hl : linkObservationEvent db o t = .ok db') (ht : t ≠ .observed)
    (h : Lifecycle db.observations db.observationEvents) (ho : o ∈ db.observations) :
    Lifecycle db'.observations db'.observationEvents ∧ db'.observations = db.observations := by
  obtain ⟨hn,rfl⟩ := linkObservationEvent_eq_ok.mp hl
  exact ⟨h.emit (h.same ho) (fun hm => hn _ hm rfl) (fun hf => .inr (h.confirmed o ho hf))
    fun hob => absurd hob ht,rfl⟩

lemma replaceObservation_update {guard : ObservationFinality → Prop} [DecidablePred guard]
    (hi : (db.observations.map (·.id)).Nodup) (ho : o ∈ db.observations) (hg : guard o.finality)
    (h : replaceObservation db o n guard = .ok db') :
    db' = { db with observations := update (·.id = o.id) (fun _ => n) db.observations } := by
  obtain ⟨-,rfl⟩ := replaceObservation_eq_ok.mp h
  congr 1
  refine update_congr fun r hr => ⟨And.left,fun hid => ?_⟩
  rw [List.inj_on_of_nodup_map hi hr ho hid]
  exact ⟨rfl,rfl,rfl,hg⟩

lemma rank_le_later (f g : ObservationFinality) : rank f ≤ rank (laterObservationFinality f g) ∧
    rank g ≤ rank (laterObservationFinality f g) := by
  unfold laterObservationFinality
  split <;> omega

/-- What a report makes of the stored observation of its transfer. -/
def Reported (c : SettlementCandidate) (e : TransferEvent) (o : PaymentObservation)
    (up : ObservationUpsert) : Prop :=
  if o.finality = .reorged then up.reincluded ∧ up.observation.generation = o.generation+1 ∧
    up.observation.finality = desiredFinality c.requiredFinality e
  else up.reincluded = false ∧ up.observation.generation = o.generation ∧
    o.confirmations ≤ up.observation.confirmations ∧ up.observation.finality =
      laterObservationFinality o.finality (desiredFinality c.requiredFinality e)

lemma upsertObservation_cases (hi : (db.observations.map (·.id)).Nodup)
    (h : upsertObservation db c e observationID = .ok up) :
    (up.created ∧ (∀ r ∈ db.observations, r.id ≠ up.observation.id ∧ r.transferEventID ≠ e.id) ∧
      up.observation.transferEventID = e.id ∧
      up.observation.finality = desiredFinality c.requiredFinality e ∧
      up.db = { db with observations := db.observations ++ [up.observation] }) ∨
    ∃ o ∈ db.observations, o.transferEventID = e.id ∧ up.created = false ∧
      up.observation.id = o.id ∧ up.observation.transferEventID = e.id ∧ Reported c e o up ∧
      up.db = { db with
        observations := update (·.id = o.id) (fun _ => up.observation) db.observations } := by
  unfold upsertObservation at h
  cases hl : loadPaymentObservation db e.id with
  | none =>
    simp only [hl,do_ok,insertUnique_eq_ok] at h
    obtain ⟨-,⟨hn,rfl⟩,rfl⟩ := h
    exact .inl ⟨rfl,fun r hr => ⟨fun hid => hn r hr (.inl hid),by
      simpa using List.find?_eq_none.mp hl r hr⟩,rfl,rfl,rfl⟩
  | some o =>
    simp only [hl,do_ok] at h
    obtain ⟨ho,he⟩ := mem_of_find? hl
    refine .inr ⟨o,ho,he,?_⟩
    unfold Reported
    split at h
    · rename_i hre
      obtain ⟨d,hd,hup⟩ := do_eq_ok.mp h.2
      obtain rfl := replaceObservation_update hi ho hre hd
      rw [← pure_eq_ok.mp hup]
      simp [hre,he]
    · rename_i hre
      split at h
      · obtain ⟨d,hd,hup⟩ := do_eq_ok.mp h.2
        obtain rfl := replaceObservation_update hi ho hre hd
        rw [← pure_eq_ok.mp hup]
        simp [hre,he]
      · rename_i hs
        rw [not_or,not_not] at hs
        rw [← pure_eq_ok.mp h.2,update_eq_self fun r hr hid =>
          (List.inj_on_of_nodup_map hi hr ho hid).symm]
        simp [hre,he,← hs.1,laterObservationFinality]

/-- A written observation is at least as final as its report says. What opens a generation finds
nothing emitted in it. -/
lemma upsert_written (h : Lifecycle db.observations db.observationEvents)
    (hup : upsertObservation db c e observationID = .ok up) :
    (∃ rows, up.db = { db with observations := rows }) ∧
    Written db.observations up.db.observations up.observation ∧
    up.observation.transferEventID = e.id ∧
    rank (desiredFinality c.requiredFinality e) ≤ rank up.observation.finality ∧
    (up.created ∨ up.reincluded → ∀ l ∈ db.observationEvents,
      l.observationID = up.observation.id → l.generation < up.observation.generation) := by
  refine ⟨upsertObservation_frame hup,?_⟩
  rcases upsertObservation_cases h.ids hup with
    ⟨-,hn,ht,hf,hd⟩ | ⟨o,ho,he,hcr,hid,ht,hr,hd⟩
  · rw [hd]
    refine ⟨⟨nodup_map_append h.ids fun r hr => (hn r hr).1,
      nodup_map_append h.transfers fun r hr => ht ▸ (hn r hr).2,
      fun r hr => ⟨r,List.mem_append_left _ hr,.refl r⟩,by simp,by simp⟩,ht,hf ▸ le_rfl,?_⟩
    intro _ l hl hli
    obtain ⟨r,hr,hri,-⟩ := h.known l hl
    exact absurd (hri.trans hli) (hn r hr).1
  · rw [hd]
    unfold Reported at hr
    split at hr
    · rename_i hre
      refine ⟨h.replace ho ⟨hid,ht.trans he.symm,.inr ⟨hr.2.1,hre⟩⟩,ht,hr.2.2 ▸ le_rfl,?_⟩
      intro _ l hl hli
      obtain ⟨r,hro,hri,hg⟩ := h.known l hl
      rw [List.inj_on_of_nodup_map h.ids hro ho (hri.trans (hli.trans hid))] at hg
      omega
    · obtain ⟨hre,hg,hc,hf⟩ := hr
      rw [hf]
      have hk := rank_le_later o.finality (desiredFinality c.requiredFinality e)
      exact ⟨h.replace ho ⟨hid,ht.trans he.symm,.inl ⟨hg,hf ▸ hk.1,hc⟩⟩,ht,hk.2,by simp [hcr,hre]⟩

/-- A report emits nothing, or it emits one event: `observed` opens a generation and
`confirming` tells that the observation is confirmed. -/
lemma advance_emission (h : advancePaymentObservation db c e observationID webhookID = .ok (db',o)) :
    ∃ up, upsertObservation db c e observationID = .ok up ∧ up.observation = o ∧
      (db' = up.db ∧ (e.status = .finalized ∨ (o.finality = .confirmed →
          ⟨o.id,o.generation,.confirming⟩ ∈ up.db.observationEvents)) ∨
        ∃ t, (t = .observed ∧ (up.created ∨ up.reincluded) ∧ o.finality ≠ .confirmed ∨
            t = .confirming ∧ o.finality = .confirmed) ∧
          ⟨o.id,o.generation,t⟩ ∉ up.db.observationEvents ∧ db'.observations = up.db.observations ∧
          db'.observationEvents = up.db.observationEvents ++ [⟨o.id,o.generation,t⟩]) := by
  simp only [advancePaymentObservation,do_ok] at h
  obtain ⟨-,-,up,hup,h⟩ := h
  refine ⟨up,hup,?_⟩
  split at h
  · rename_i hf
    cases pure_eq_ok.mp h
    exact ⟨rfl,.inl ⟨rfl,.inl hf⟩⟩
  · rename_i hf
    split at h
    · rename_i hq
      cases pure_eq_ok.mp h
      refine ⟨rfl,.inl ⟨rfl,.inr fun hc => ?_⟩⟩
      simp only [observationLifecycleEvent,confirmingEmitted] at hq
      grind
    · rename_i t ht
      simp only [do_ok] at h
      obtain ⟨d,had,d',hem,hre⟩ := h
      obtain ⟨intents,-,rfl⟩ := advanceObservedIntent_frame had
      obtain ⟨d,hca,hl⟩ := do_eq_ok.mp hem
      obtain ⟨-,-,-,rfl⟩ := insertCallback_eq_ok.mp hca
      obtain ⟨hn,rfl⟩ := linkObservationEvent_eq_ok.mp hl
      simp only [observationLifecycleEvent] at ht
      grind

section
variable (h : Lifecycle db.observations db.observationEvents)
include h

lemma advance_step (had : advancePaymentObservation db c e observationID webhookID = .ok (db',o)) :
    Lifecycle db'.observations db'.observationEvents ∧
      Written db.observations db'.observations o ∧ o.transferEventID = e.id ∧
      rank (desiredFinality c.requiredFinality e) ≤ rank o.finality := by
  obtain ⟨up,hup,rfl,hem⟩ := advance_emission had
  obtain ⟨⟨rows,hd⟩,hw,ht,hk,hfr⟩ := upsert_written h hup
  have hev : up.db.observationEvents = db.observationEvents := by rw [hd]
  rw [hev] at hem
  rcases hem with ⟨rfl,hq⟩ | ⟨t,hm,hn,ho,he⟩
  · refine ⟨hev ▸ h.quiet hw fun hf => hq.resolve_left (fun hfi => ?_) hf,hw,ht,hk⟩
    simp [desiredFinality,hfi,hf,rank] at hk
  · rw [ho,he]
    exact ⟨h.emit hw hn (by tauto) fun hob => hfr (by grind),hw,ht,hk⟩

/-- A report of what the stored observation says already emits nothing. -/
lemma advance_repeated (hn : n ∈ db.observations) (ht : n.transferEventID = e.id)
    (hr : n.finality ≠ .reorged)
    (hk : rank (desiredFinality c.requiredFinality e) ≤ rank n.finality)
    (had : advancePaymentObservation db c e observationID webhookID = .ok (db',o)) :
    ∃ rows, db' = { db with observations := rows } := by
  obtain ⟨up,hup,rfl,hem⟩ := advance_emission had
  rcases upsertObservation_cases h.ids hup with ⟨-,hno,-⟩ | ⟨r,hro,he,hcr,hid,-,hre,hd⟩
  · exact absurd ht (hno n hn).2
  · obtain rfl := List.inj_on_of_nodup_map h.transfers hn hro (ht.trans he.symm)
    simp only [Reported,hr,if_false,laterObservationFinality,Nat.not_lt.mpr hk] at hre
    rcases hem with ⟨rfl,-⟩ | ⟨t,⟨-,hno,-⟩ | ⟨rfl,hf⟩,hnew,-⟩
    · exact ⟨_,hd⟩
    · simp [hcr,hre.1] at hno
    · rw [hd,hid,hre.2.1] at hnew
      exact absurd (h.confirmed n hn (hre.2.2.2 ▸ hf)) hnew

lemma reorgPaymentObservation_step {emit : Bool} {now : ℤ}
    (hm : reorgPaymentObservation db eventID emit now webhookID = .ok db') :
    Lifecycle db'.observations db'.observationEvents ∧
      Evolves db.observations db'.observations := by
  unfold reorgPaymentObservation at hm
  split at hm
  · cases hm
    exact ⟨h,.refl _⟩
  · rename_i o ho
    split at hm
    · cases hm
      exact ⟨h,.refl _⟩
    · rename_i hr
      obtain ⟨d,hd,hm⟩ := do_eq_ok.mp hm
      have hmem := (mem_of_find? ho).1
      have hw := h.replace hmem (n := { o with finality := .reorged, version := o.version+1 })
        ⟨rfl,rfl,.inl ⟨rfl,by cases o.finality <;> simp [rank],le_rfl⟩⟩
      have hq := h.quiet hw fun hf => nomatch hf
      obtain rfl := replaceObservation_update h.ids hmem hr hd
      split at hm
      · cases hm
        exact ⟨hq,hw.evolves⟩
      · simp only [do_ok] at hm
        obtain ⟨intent,-,intents,-,hm⟩ := hm
        obtain ⟨d,hca,hl⟩ := do_eq_ok.mp hm
        obtain ⟨-,-,-,rfl⟩ := insertCallback_eq_ok.mp hca
        obtain ⟨hl,hs⟩ := link_step hl (by decide) hq hw.mem
        exact ⟨hl,hs ▸ hw.evolves⟩

lemma compensateSettlement_step {now : ℤ} {ids : ReorgIDs} {s : ReorgSettlement}
    (hs : compensateSettlement now ids db s = .ok db') :
    Lifecycle db'.observations db'.observationEvents ∧ db'.observations = db.observations := by
  simp only [compensateSettlement,insertReorgNotifications,do_ok,updateOne_eq_ok] at hs
  obtain ⟨d,hp,intents,⟨-,rfl⟩,d',hca,hs⟩ := hs
  obtain ⟨-,rfl⟩ := postLedger_eq_ok.mp hp
  obtain ⟨-,-,-,rfl⟩ := insertCallback_eq_ok.mp hca
  obtain ⟨jobs,hr⟩ := ReorgEffects.reverseMatches_eq (ReorgEffects.reviewed now ids db s) s now
  rw [hr] at hs
  split at hs
  · cases hs
    exact ⟨h,rfl⟩
  · rename_i o ho
    have hli := link_step hs (by decide) h (mem_of_find? ho).1
    exact hli

end

inductive Action where
  | advance (candidate : SettlementCandidate) (event : TransferEvent)
      (observationID webhookID : String)
  | settle (candidate : SettlementCandidate) (event : TransferEvent) (ids : IngestIDs)
  | reorg (eventID : String) (now : ℤ) (ids : ReorgIDs)
  /-- Whatever else is written between the calls. -/
  | other (write : Database → Database)

def exec (ext : Externals) (db : Database) : Action → Except Failure Database
  | .advance c e observationID webhookID =>
    (advancePaymentObservation db c e observationID webhookID).map (·.1)
  | .settle c e ids => settleExact ext db c e ids
  | .reorg eventID now ids => orphanTransfer now ids db eventID
  | .other write => .ok { write db with
      observations := db.observations, observationEvents := db.observationEvents }

variable {ext : Externals} {a : Action}

/-- Step lemma: every action that commits. -/
lemma exec_step (h : Lifecycle db.observations db.observationEvents)
    (ha : exec ext db a = .ok db') : Lifecycle db'.observations db'.observationEvents ∧
      Evolves db.observations db'.observations := by
  cases a with
  | advance c e observationID webhookID =>
    obtain ⟨⟨d,o⟩,had,rfl⟩ := map_eq_ok.mp ha
    obtain ⟨hl,hw,-⟩ := advance_step h had
    exact ⟨hl,hw.evolves⟩
  | settle c e ids =>
    simp only [exec,settleExact,do_ok] at ha
    obtain ⟨⟨d,o⟩,had,d₂,hma,d₃,hp,d₄,hi,d₅,hca,hl⟩ := ha
    obtain ⟨hd,hw,-⟩ := advance_step h had
    obtain ⟨-,-,-,rfl⟩ := insertMatch_eq_ok.mp hma
    obtain ⟨-,rfl⟩ := postLedger_eq_ok.mp hp
    obtain ⟨-,rfl⟩ := IngestEffects.settleIntent_eq_ok.mp hi
    obtain ⟨-,-,-,rfl⟩ := insertCallback_eq_ok.mp hca
    obtain ⟨hl,hs⟩ := link_step hl (by decide) hd hw.mem
    exact ⟨hl,hs ▸ hw.evolves⟩
  | reorg eventID now ids =>
    simp only [exec,orphanTransfer,do_ok] at ha
    obtain ⟨d,hd,d',hco,rfl⟩ := ha
    obtain ⟨hl,he⟩ := reorgPaymentObservation_step h hd
    have hru := traverse_invariant
      (P := fun s => Lifecycle s.observations s.observationEvents ∧
        s.observations = d.observations)
      (fun s x t _ hs hx => (compensateSettlement_step hs.1 hx).imp_right (·.trans hs.2))
      ⟨hl,rfl⟩ hco
    exact ⟨hru.1,hru.2 ▸ he⟩
  | other write =>
    cases ha
    exact ⟨h,.refl _⟩

/-- The observation of a transfer is as final as a report said in the generation of the report. -/
def Heard (c : SettlementCandidate) (e : TransferEvent) (generation : ℕ) (db : Database) : Prop :=
  Lifecycle db.observations db.observationEvents ∧ ∃ o ∈ db.observations,
    o.transferEventID = e.id ∧ generation ≤ o.generation ∧ (o.generation = generation →
      rank (desiredFinality c.requiredFinality e) ≤ rank o.finality)

lemma Heard.step {generation : ℕ} (h : Heard c e generation db) (ha : exec ext db a = .ok db') :
    Heard c e generation db' := by
  obtain ⟨hl,o,ho,ht,hle,hk⟩ := h
  obtain ⟨hl',hev⟩ := exec_step hl ha
  obtain ⟨o',ho',-,ht',hg⟩ := hev o ho
  refine ⟨hl',o',ho',ht'.trans ht,by omega,fun hge => ?_⟩
  omega

/-- Over every sequence of reports, exact settlements and reorganisations each event is emitted
once per generation of its observation and `observed` never after `confirming`; the next action
advances an observation or, when it was reorganised, starts its next generation; and a report
that is repeated within a generation before its reorganisation emits nothing. -/
theorem observation_lifecycle (ext : Externals) (start : Database) (actions : List Action) :
    let db := run (exec ext) { start with observations := [], observationEvents := [] } actions
    db.observationEvents.Nodup ∧
    db.observationEvents.Pairwise (fun a b =>
      b = { a with eventType := .observed } → a.eventType ≠ .confirming) ∧
    (∀ a db', exec ext db a = .ok db' → Evolves db.observations db'.observations) ∧
    ∀ c e observationID webhookID first,
      exec ext db (.advance c e observationID webhookID) = .ok first →
      ∀ between observationID' webhookID' last,
        let mid := run (exec ext) first between
        exec ext mid (.advance c e observationID' webhookID') = .ok last →
        ∀ o ∈ first.observations, ∀ o' ∈ mid.observations, o.transferEventID = e.id →
          o'.transferEventID = e.id → o'.generation = o.generation → o'.finality ≠ .reorged →
          ∃ rows, last = { mid with observations := rows } := by
  intro db
  have hdb : Lifecycle db.observations db.observationEvents :=
    run_keeps (fun _ _ _ hs hex => (exec_step hs hex).1)
      ⟨.nil,.nil,.nil,.nil,nofun,nofun⟩
  refine ⟨hdb.once,hdb.ordered,fun a db' ha => (exec_step hdb ha).2,?_⟩
  intro c e i w first hfi between i' w' last mid hla o ho o' ho' ht ht' hg hr
  obtain ⟨⟨d,n⟩,had,rfl⟩ := map_eq_ok.mp hfi
  obtain ⟨hl,hw,hn,hk⟩ := advance_step hdb had
  obtain rfl := List.inj_on_of_nodup_map hl.transfers ho hw.mem (ht.trans hn.symm)
  have hmid : Heard c e o.generation mid :=
    run_keeps (fun _ _ _ hs hex => hs.step hex) ⟨hl,o,ho,ht,le_rfl,fun _ => hk⟩
  obtain ⟨hm,r,hro,hrt,-,hrk⟩ := hmid
  obtain rfl := List.inj_on_of_nodup_map hm.transfers ho' hro (ht'.trans hrt.symm)
  obtain ⟨⟨d',n'⟩,hag,rfl⟩ := map_eq_ok.mp hla
  exact advance_repeated hm ho' ht' hr (hrk hg) hag

def sampleCandidate : SettlementCandidate := ⟨"tenant","merchant","intent","route",1,100,19⟩

def sampleSighting : TransferEvent :=
  { Workers.samplePayment "paid" 100 "block-7" with status := .confirmed }

/-- The first report of a confirmed transfer announces it; the next one changes no more than the
observation. -/
theorem observation_lifecycle_sample :
    ∃ first last, exec Workers.sampleExternals Workers.sampleStart.db
        (.advance sampleCandidate sampleSighting "first" "webhook-1") = .ok first ∧
      exec Workers.sampleExternals first
        (.advance sampleCandidate sampleSighting "second" "webhook-2") = .ok last ∧
      first.observationEvents.map (·.eventType) = [.confirming] ∧
      ∃ rows, last = { first with observations := rows } := by
  have hru : ∃ first, exec Workers.sampleExternals Workers.sampleStart.db
        (.advance sampleCandidate sampleSighting "first" "webhook-1") = .ok first ∧
      (∃ last, exec Workers.sampleExternals first
        (.advance sampleCandidate sampleSighting "second" "webhook-2") = .ok last ∧ True) ∧
      first.observationEvents.map (·.eventType) = [.confirming] ∧
      ∃ o ∈ first.observations, o.transferEventID = "paid" ∧ o.finality ≠ .reorged := by
    decide +kernel
  obtain ⟨first,hfi,⟨last,hla,-⟩,hev,o,ho,ht,hr⟩ := hru
  exact ⟨first,last,hfi,hla,hev,(observation_lifecycle Workers.sampleExternals Workers.sampleStart.db
    []).2.2.2 _ _ _ _ _ hfi [] _ _ _ hla o ho o ho ht ht rfl hr⟩

end Ocrypt.ObservationLifecycle
