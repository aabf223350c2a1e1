import Ocrypt.Store

/-! Writes that several transactions share, with the constraints of the schema that can abort
them, and what each of them leaves in the database. -/
namespace Ocrypt.Writes
open Domain Fallible Table Store

/-- INSERT INTO payment_matches: the amounts are checked and a source has at most one match
that is not reversed. -/
def insertMatch (db : Database) (m : PaymentMatch) : Except Failure Database := do
  require (0 < m.received.n) (stateConflict "payment_matches_received_atomic_check")
  require (m.credited.n ≤ m.received.n) (stateConflict "payment_matches_check")
  let rows ← insertUnique
    (fun r => r.id = m.id ∨ (r.source = m.source ∧ r.state ≠ .reversed ∧ m.state ≠ .reversed)) m
    (stateConflict "payment_matches_event_active_idx") db.paymentMatches
  pure { db with paymentMatches := rows }

variable {db db' : Database}

lemma insertMatch_eq_ok {m : PaymentMatch} : insertMatch db m = .ok db' ↔
      0 < m.received.n ∧ m.credited.n ≤ m.received.n ∧ (∀ r ∈ db.paymentMatches, r.id ≠ m.id ∧
          (r.source = m.source → r.state ≠ .reversed → m.state = .reversed)) ∧
        { db with paymentMatches := db.paymentMatches ++ [m] } = db' := by
  simp only [insertMatch,do_ok,require_eq_ok,exists_insertUnique,exists_const,not_or,not_and,not_not]

/-- INSERT INTO ledger_transactions with its entries: (tenant, type, reference) is unique. -/
def postLedger (db : Database) (tx : LedgerTransaction) : Except Failure Database := do
  let rows ← insertUnique
    (fun r => r.id = tx.id ∨ (r.tenantID = tx.tenantID ∧ r.businessType = tx.businessType ∧
      r.businessReference = tx.businessReference)) tx
    (stateConflict "ledger_transactions_tenant_id_business_type_business_reference_key") db.ledger
  pure { db with ledger := rows }

lemma postLedger_eq_ok {tx : LedgerTransaction} : postLedger db tx = .ok db' ↔
      (∀ r ∈ db.ledger, r.id ≠ tx.id ∧ (r.tenantID = tx.tenantID →
        r.businessType = tx.businessType → r.businessReference ≠ tx.businessReference)) ∧
        { db with ledger := db.ledger ++ [tx] } = db' := by
  simp only [postLedger,do_ok,exists_insertUnique,not_or,not_and]

def insertCallback (db : Database) (c : CallbackEvent) : Except Failure Database := do
  require (c.tenantID ≠ "" ∧ c.merchantID ≠ "") ⟨.validation,""⟩
  let rows ← insertUnique
    (fun r => r.id = c.id ∨ (c.aggregateSequence ≠ none ∧ r.intentID = c.intentID ∧
      r.aggregateSequence = c.aggregateSequence)) c
    (databaseFailure "callback_events_intent_id_aggregate_sequence_key") db.callbacks
  pure { db with callbacks := rows }

lemma insertCallback_eq_ok {c : CallbackEvent} :
    insertCallback db c = .ok db' ↔ c.tenantID ≠ "" ∧ c.merchantID ≠ "" ∧
        (∀ r ∈ db.callbacks, r.id ≠ c.id ∧ (c.aggregateSequence ≠ none →
          r.intentID = c.intentID → r.aggregateSequence ≠ c.aggregateSequence)) ∧
        { db with callbacks := db.callbacks ++ [c] } = db' := by
  simp only [insertCallback,do_ok,require_eq_ok,exists_insertUnique,exists_const,not_or,not_and,and_assoc]

def linkObservationEvent (db : Database) (observation : PaymentObservation)
    (eventType : CallbackType) : Except Failure Database := do
  let link : ObservationEvent := ⟨observation.id,observation.generation,eventType⟩
  let rows ← insertUnique (· = link) link (stateConflict "payment_observation_events_pkey")
    db.observationEvents
  pure { db with observationEvents := rows }

lemma linkObservationEvent_eq_ok {o : PaymentObservation}
    {eventType : CallbackType} : linkObservationEvent db o eventType = .ok db' ↔
      (∀ r ∈ db.observationEvents, r ≠ ⟨o.id,o.generation,eventType⟩) ∧
        { db with observationEvents :=
            db.observationEvents ++ [⟨o.id,o.generation,eventType⟩] } = db' := by
  simp only [linkObservationEvent,do_ok,exists_insertUnique]

end Ocrypt.Writes
