import Ocrypt.Writes

/-! The observation of an incoming transfer that merchants see before settlement: its row
advances with the transfer, is orphaned by a reorganisation, and starts a new generation when
the transfer is included again. -/
namespace Ocrypt.Observations
open Money Domain Fallible Table Store Writes

structure SettlementCandidate where
  (tenantID merchantID intentID routeID : String)
  intentVersion : ℤ
  expected : Amount
  requiredFinality : ℕ
  deriving DecidableEq, Repr

variable (db : Database)

def loadPaymentObservation (transferEventID : String) : Option PaymentObservation :=
  db.observations.find? (·.transferEventID = transferEventID)

def desiredFinality (requiredFinality : ℕ) (event : TransferEvent) : ObservationFinality :=
  if event.status = .finalized then .finalized
  else if event.status = .confirmed ∨ requiredFinality ≤ event.confirmations then .confirmed
  else .observed

def ObservationFinality.rank : ObservationFinality → ℕ
  | .observed => 1
  | .confirmed => 2
  | .finalized => 3
  | .reorged => 4

def laterObservationFinality (current desired : ObservationFinality) : ObservationFinality :=
  if ObservationFinality.rank current < ObservationFinality.rank desired then desired else current

def observationLifecycleEvent (created reincluded : Bool) (finality : ObservationFinality)
    (confirmingEmitted : Bool) (transferStatus : TransferStatus) : Option CallbackType :=
  if transferStatus = .finalized then none
  else if created || reincluded then
    if finality = .confirmed then some .confirming else some .observed
  else if finality = .confirmed && !confirmingEmitted then some .confirming
  else none

variable (candidate : SettlementCandidate) (observation : PaymentObservation)
    (event : TransferEvent)

def newObservation (observationID : String) : PaymentObservation where
  id := observationID
  tenantID := candidate.tenantID
  merchantID := candidate.merchantID
  intentID := candidate.intentID
  routeID := candidate.routeID
  transferEventID := event.id
  identity := event.identity
  fromAddress := event.fromAddress
  amount := event.amount
  assetDecimals := event.assetDecimals
  blockHash := event.blockHash
  blockHeight := event.blockHeight
  blockTime := event.onChainTime
  confirmations := event.confirmations
  requiredConfirmations := candidate.requiredFinality
  finality := desiredFinality candidate.requiredFinality event
  evidenceHash := event.evidenceHash
  generation := 1
  version := 1

/-- The stored observation is of this payment: nothing that binds it has changed. -/
abbrev observationBound (candidate : SettlementCandidate) (event : TransferEvent) : Prop :=
  observation.tenantID = candidate.tenantID ∧ observation.merchantID = candidate.merchantID ∧
    observation.intentID = candidate.intentID ∧ observation.routeID = candidate.routeID ∧
    observation.identity = event.identity ∧ observation.fromAddress = event.fromAddress ∧
    observation.amount.cmp event.amount = .eq ∧
    observation.assetDecimals = event.assetDecimals ∧
    observation.requiredConfirmations = candidate.requiredFinality

/-- The observation after the upsert, with what happened to it. -/
structure ObservationUpsert where
  db : Database
  observation : PaymentObservation
  created : Bool := false
  reincluded : Bool := false

/-- Replace one observation row, fenced by its version and by a condition on its finality. -/
def replaceObservation (old new : PaymentObservation) (guard : ObservationFinality → Prop)
    [DecidablePred guard] : Except Failure Database := do
  let rows ← updateOne
    (fun o => o.id = old.id ∧ o.tenantID = old.tenantID ∧ o.version = old.version ∧
      guard o.finality)
    (fun _ => new) (versionConflict "") db.observations
  pure { db with observations := rows }

def upsertObservation (observationID : String) : Except Failure ObservationUpsert :=
  let desired := desiredFinality candidate.requiredFinality event
  match loadPaymentObservation db event.id with
  | none => do
    let observation := newObservation candidate event observationID
    let rows ← insertUnique (fun o => o.id = observation.id ∨ o.identity = observation.identity)
      observation (stateConflict "payment_observations_pkey") db.observations
    pure { db := { db with observations := rows }, observation, created := true }
  | some observation => do
    require (observationBound observation candidate event)
      ⟨.invariantViolation,"payment observation binding changed"⟩
    if observation.finality = .reorged then
      let next := { observation with
        generation := observation.generation+1
        blockHash := event.blockHash
        blockHeight := event.blockHeight
        blockTime := event.onChainTime
        confirmations := event.confirmations
        finality := desired
        evidenceHash := event.evidenceHash
        version := observation.version+1 }
      let db ← replaceObservation db observation next (· = .reorged)
      pure { db, observation := next, reincluded := true }
    else if observation.finality ≠ desired ∨ observation.confirmations < event.confirmations then
      let next := { observation with
        confirmations := max observation.confirmations event.confirmations
        finality := laterObservationFinality observation.finality desired
        version := observation.version+1 }
      let db ← replaceObservation db observation next (· ≠ .reorged)
      pure { db, observation := next }
    else pure { db, observation }

/-- The intent follows the observation; one that is past this lifecycle keeps its status. -/
def advanceObservedIntent (eventType : CallbackType) : Except Failure Database := do
  let target : IntentStatus := if eventType = .confirming then .confirmed else .observed
  require (∃ i ∈ db.intents, i.id = candidate.intentID ∧ i.tenantID = candidate.tenantID)
    (databaseFailure "no rows in result set")
  let intents := update
    (fun i => i.id = candidate.intentID ∧ i.tenantID = candidate.tenantID ∧
      i.status ∈ ([.pending,.observed,.confirmed,.reorgReview] : List IntentStatus) ∧
      i.status ≠ target)
    (fun i => { i with status := target, version := i.version+1 }) db.intents
  pure { db with intents }

def emitObservationCallback (eventType : CallbackType) (webhookID : String) :
    Except Failure Database := do
  let db ← insertCallback db
    ⟨webhookID,candidate.tenantID,candidate.merchantID,candidate.intentID,eventType,none⟩
  linkObservationEvent db observation eventType

def confirmingEmitted : Bool :=
  ⟨observation.id,observation.generation,.confirming⟩ ∈ db.observationEvents

def advancePaymentObservation (observationID webhookID : String) :
    Except Failure (Database × PaymentObservation) := do
  require (1 ≤ candidate.requiredFinality)
    ⟨.invariantViolation,"on-chain route requires positive finality"⟩
  require (isSHA256Hex event.evidenceHash) ⟨.validation,"invalid observation evidence"⟩
  let up ← upsertObservation db candidate event observationID
  -- A transfer that is final at first sight is announced by the settlement only.
  if event.status = .finalized then pure (up.db,up.observation)
  else
    let emitted := !up.created && !up.reincluded && up.observation.finality = .confirmed &&
      confirmingEmitted up.db up.observation
    match observationLifecycleEvent up.created up.reincluded up.observation.finality emitted
        event.status with
    | none => pure (up.db,up.observation)
    | some eventType => do
      let db ← advanceObservedIntent up.db candidate eventType
      let db ← emitObservationCallback db candidate up.observation eventType webhookID
      pure (db,up.observation)

def previouslyVisible : Bool :=
  db.observationEvents.any fun e => e.observationID = observation.id ∧
    e.generation = observation.generation ∧ (e.eventType = .observed ∨ e.eventType = .confirming)

/-- A closed or restored route is active while its grace period lasts and expired after it. -/
def reopenedStatus (route : PaymentRoute) (now : ℤ) : RouteStatus :=
  if now < route.graceEndsAt then .active else .expired

/-- An intent that only showed the transfer goes to review; any other keeps its status. -/
def reviewObservedIntent (intents : List PaymentIntent) (intent : PaymentIntent) :
    Except Failure (List PaymentIntent) :=
  if intent.status = .observed ∨ intent.status = .confirmed then
    updateOne (fun i => i.id = intent.id ∧ i.tenantID = intent.tenantID ∧
        i.version = intent.version ∧ (i.status = .observed ∨ i.status = .confirmed))
      (fun i => { i with status := .reorgReview, version := i.version+1 })
      (databaseFailure "no rows in result set") intents
  else .ok intents

/-- An orphaned transfer: its observation is marked, and when merchants had seen it and no
settlement has to be compensated, the intent goes to review and a callback is emitted. -/
def reorgPaymentObservation (transferEventID : String) (emit : Bool) (now : ℤ)
    (webhookID : String) : Except Failure Database :=
  match loadPaymentObservation db transferEventID with
  | none => .ok db
  | some observation =>
    if observation.finality = .reorged then .ok db
    else do
      let next := { observation with finality := .reorged, version := observation.version+1 }
      let db ← replaceObservation db observation next (· ≠ .reorged)
      if !emit || !previouslyVisible db next then pure db
      else
        let intent ← orFail (db.intents.find? fun i =>
          i.id = next.intentID ∧ i.tenantID = next.tenantID) ⟨.notFound,""⟩
        let intents ← reviewObservedIntent db.intents intent
        let routes := update
          (fun r => r.id = next.routeID ∧ r.tenantID = next.tenantID ∧ r.status.Matchable)
          (fun r => { r with status := reopenedStatus r now }) db.routes
        let candidate : SettlementCandidate := ⟨next.tenantID,next.merchantID,next.intentID,
          next.routeID,intent.version,.zero,0⟩
        emitObservationCallback { db with intents, routes } candidate next .reorged webhookID

section
variable {db db' : Database} {c : SettlementCandidate} {e : TransferEvent}
  {observationID webhookID : String} {o : PaymentObservation} {t : CallbackType}

lemma replaceObservation_eq_ok {old new : PaymentObservation} {guard : ObservationFinality → Prop}
    [DecidablePred guard] : replaceObservation db old new guard = .ok db' ↔
      db.observations.countP (fun o => o.id = old.id ∧ o.tenantID = old.tenantID ∧
          o.version = old.version ∧ guard o.finality) = 1 ∧
        { db with observations := update (fun o => o.id = old.id ∧ o.tenantID = old.tenantID ∧
            o.version = old.version ∧ guard o.finality) (fun _ => new) db.observations } = db' := by
  simp only [replaceObservation,do_ok,updateOne_eq_ok]
  constructor
  · rintro ⟨rows,⟨hco,rfl⟩,rfl⟩
    exact ⟨hco,rfl⟩
  · rintro ⟨hco,rfl⟩
    exact ⟨_,⟨hco,rfl⟩,rfl⟩

lemma upsertObservation_frame {up : ObservationUpsert}
    (h : upsertObservation db c e observationID = .ok up) :
    ∃ rows, up.db = { db with observations := rows } := by
  unfold upsertObservation at h
  cases hl : loadPaymentObservation db e.id with
  | none =>
    simp only [hl,do_ok] at h
    obtain ⟨rows,-,rfl⟩ := h
    exact ⟨rows,rfl⟩
  | some o =>
    simp only [hl,do_ok] at h
    obtain ⟨-,h⟩ := h
    split at h
    · obtain ⟨d,hd,hup⟩ := do_eq_ok.mp h
      obtain ⟨-,rfl⟩ := replaceObservation_eq_ok.mp hd
      rw [← pure_eq_ok.mp hup]
      exact ⟨_,rfl⟩
    · split at h
      · obtain ⟨d,hd,hup⟩ := do_eq_ok.mp h
        obtain ⟨-,rfl⟩ := replaceObservation_eq_ok.mp hd
        rw [← pure_eq_ok.mp hup]
        exact ⟨_,rfl⟩
      · rw [← pure_eq_ok.mp h]
        exact ⟨_,rfl⟩

/-- An announcement writes callbacks and their links only. -/
theorem emitObservationCallback_frame
    (h : emitObservationCallback db c o t webhookID = .ok db') : ∃ callbacks events,
      db' = { db with callbacks := callbacks, observationEvents := events } := by
  obtain ⟨d,hca,hl⟩ := do_eq_ok.mp h
  obtain ⟨-,-,-,rfl⟩ := insertCallback_eq_ok.mp hca
  obtain ⟨-,rfl⟩ := linkObservationEvent_eq_ok.mp hl
  exact ⟨_,_,rfl⟩

theorem advancePaymentObservation_finalized_frame (hf : e.status = .finalized)
    (h : advancePaymentObservation db c e observationID webhookID = .ok (db',o)) :
    ∃ rows, db' = { db with observations := rows } := by
  simp only [advancePaymentObservation,do_ok,hf,if_true] at h
  obtain ⟨-,-,up,hup,hr⟩ := h
  rw [← (Prod.mk.inj hr).1]
  exact upsertObservation_frame hup

lemma advanceObservedIntent_frame (h : advanceObservedIntent db c t = .ok db') :
    ∃ intents, intents.map (·.key) = db.intents.map (·.key) ∧ db' = { db with intents := intents } := by
  simp only [advanceObservedIntent,do_ok] at h
  obtain ⟨-,rfl⟩ := h
  refine ⟨_,?_,rfl⟩
  exact map_update fun _ _ _ => rfl

lemma advancePaymentObservation_frame
    (h : advancePaymentObservation db c e observationID webhookID = .ok (db',o)) :
    ∃ observations events callbacks intents, intents.map (·.key) = db.intents.map (·.key) ∧
      db' = { db with
        observations := observations, observationEvents := events, callbacks := callbacks,
        intents := intents } := by
  simp only [advancePaymentObservation,do_ok] at h
  obtain ⟨-,-,up,hup,h⟩ := h
  obtain ⟨rows,hr⟩ := upsertObservation_frame hup
  split at h
  · rw [← (Prod.mk.inj (pure_eq_ok.mp h)).1,hr]
    exact ⟨_,_,_,_,rfl,rfl⟩
  · split at h
    · rw [← (Prod.mk.inj (pure_eq_ok.mp h)).1,hr]
      exact ⟨_,_,_,_,rfl,rfl⟩
    · simp only [do_ok] at h
      obtain ⟨d,had,d',hem,hre⟩ := h
      obtain ⟨intents,hk,rfl⟩ := advanceObservedIntent_frame had
      obtain ⟨callbacks,events,rfl⟩ := emitObservationCallback_frame hem
      rw [hr] at hk
      rw [← (Prod.mk.inj hre).1,hr]
      exact ⟨_,_,_,_,hk,rfl⟩

lemma reviewObservedIntent_keys {intents intents' : List PaymentIntent} {i : PaymentIntent}
    (h : reviewObservedIntent intents i = .ok intents') :
    intents'.map (·.key) = intents.map (·.key) := by
  unfold reviewObservedIntent at h
  split at h
  · obtain ⟨-,rfl⟩ := updateOne_eq_ok.mp h
    exact map_update fun _ _ _ => rfl
  · cases h
    rfl

lemma reorgPaymentObservation_frame {eventID : String} {emit : Bool} {now : ℤ}
    (h : reorgPaymentObservation db eventID emit now webhookID = .ok db') :
    ∃ observations events callbacks intents routes, intents.map (·.key) = db.intents.map (·.key) ∧
      db' = { db with
        observations := observations, observationEvents := events, callbacks := callbacks,
        intents := intents, routes := routes } := by
  unfold reorgPaymentObservation at h
  split at h
  · cases h
    exact ⟨_,_,_,_,_,rfl,rfl⟩
  · split at h
    · cases h
      exact ⟨_,_,_,_,_,rfl,rfl⟩
    · obtain ⟨d,hd,h⟩ := do_eq_ok.mp h
      obtain ⟨-,rfl⟩ := replaceObservation_eq_ok.mp hd
      split at h
      · cases h
        exact ⟨_,_,_,_,_,rfl,rfl⟩
      · obtain ⟨intent,-,h⟩ := do_eq_ok.mp h
        obtain ⟨intents,hi,h⟩ := do_eq_ok.mp h
        obtain ⟨callbacks,events,rfl⟩ := emitObservationCallback_frame h
        exact ⟨_,_,_,_,_,reviewObservedIntent_keys hi,rfl⟩

end

end Ocrypt.Observations
