import Ocrypt.MatchingJobs
import Ocrypt.Observations
import Ocrypt.Scanner

/-! `RewindReorg`, the transaction of a chain reorganisation: it marks the replaced blocks,
reverses what was settled from their transfers with opposite ledger entries, and moves the
cursor back to the newest common ancestor. -/
namespace Ocrypt.Reorg
open Domain Ledger Fallible Table Store Writes Observations MatchingJobs Scanner

structure ReorgSettlement where
  (matchID tenantID merchantID intentID routeID eventID : String)
  aggregateID : Option String
  original : LedgerTransaction
  intentVersion : ℤ

def matchCorrelation (aggregateID : Option String) (eventID : String) : Correlation :=
  match aggregateID with
  | none => .transfer eventID
  | some a => .aggregate a

variable (db : Database) (lease : Lease) (eventID : String) (now : ℤ)

/-- The settlements booked under one match of the transfer, with the intent they settled. -/
def settlementsOf (m : PaymentMatch) : List ReorgSettlement :=
  (db.intents.filter fun i => i.id = m.intentID ∧ i.tenantID = m.tenantID).flatMap fun i =>
    (db.ledger.filter fun lt => lt.tenantID = m.tenantID ∧ lt.businessType = .paymentSettlement ∧
      lt.correlation = matchCorrelation m.aggregateID eventID).map fun lt =>
        ⟨m.id,m.tenantID,i.merchantID,m.intentID,m.routeID,eventID,m.aggregateID,lt,i.version⟩

def loadReorgSettlements : List ReorgSettlement :=
  if ∃ t ∈ db.transferEvents, t.id = eventID then
    (db.paymentMatches.filter fun m => m.source = .transfer eventID ∧
      m.state ≠ .reversed).flatMap (settlementsOf db eventID)
  else []

/-- The identifiers drawn while compensating, by the record they are drawn for. -/
structure ReorgIDs where
  (reversal webhook : (ledgerID : String) → String)
  observationWebhook : (eventID : String) → String

/-- The compensating transaction: every entry of the original with its direction inverted. -/
def reversalOf (s : ReorgSettlement) (reversalID : String) : LedgerTransaction where
  id := reversalID
  tenantID := s.tenantID
  businessType := .paymentSettlementReversal
  businessReference := "reorg:" ++ s.original.id
  reversalOf := some s.original.id
  correlation := matchCorrelation s.aggregateID s.eventID
  policyVersion := s.original.policyVersion
  entries := invertEntries s.original.entries

abbrev overlapping (a b : AmountReservation) : Prop :=
  a.chainID = b.chainID ∧ a.address = b.address ∧ a.assetID = b.assetID ∧
    a.exactAmount = b.exactAmount ∧ a.windowStart < b.windowEnd ∧ b.windowStart < a.windowEnd

/-- The paid route is payable again, and its reservation is restored while its window is open
and nobody else reserved the amount meanwhile. -/
def reopenRoute (routeID tenantID : String) (now : ℤ) : Database :=
  { db with
    routes := update (fun r => r.id = routeID ∧ r.tenantID = tenantID ∧ r.status = .settled)
      (fun r => { r with status := reopenedStatus r now }) db.routes
    reservations := update (fun a => a.routeID = routeID ∧ a.tenantID = tenantID ∧
        a.state = .consumed ∧ now < a.windowEnd ∧
        ∀ other ∈ db.reservations, other.id ≠ a.id → other.state = .active → ¬overlapping other a)
      (fun a => { a with state := .active }) db.reservations }

/-- `ON CONFLICT (route_id)` of the job that re-evaluates the route of a reversed aggregate. -/
def reopenJob (job : MatchingJob) (now : ℤ) : MatchingJob :=
  { job with
    status := if job.status = .leased then .leased else .pending
    rescheduleRequested := job.status = .leased
    nextAttemptAt := min job.nextAttemptAt now }

/-- The match is reversed; of an aggregate, all its matches, and its route is evaluated again. -/
def reverseMatches (s : ReorgSettlement) (now : ℤ) : Database :=
  match s.aggregateID with
  | none =>
    { db with
      paymentMatches := update (fun m => m.id = s.matchID ∧ m.state ≠ .reversed)
        (fun m => { m with state := .reversed }) db.paymentMatches }
  | some a =>
    { db with
      aggregates := update (fun g => g.id = a ∧ g.tenantID = s.tenantID ∧ g.state = .settled)
        (fun g => { g with state := .reversed }) db.aggregates
      paymentMatches := update (fun m => m.aggregateID = some a ∧ m.tenantID = s.tenantID ∧
          m.state ≠ .reversed)
        (fun m => { m with state := .reversed }) db.paymentMatches
      jobs := upsertJob db.jobs (newJob s.routeID s.tenantID s.merchantID now) (reopenJob · now) }

def insertReorgNotifications (s : ReorgSettlement) (aggregateVersion : ℤ) (webhookID : String) :
    Except Failure Database := do
  let db ← insertCallback db
    ⟨webhookID,s.tenantID,s.merchantID,s.intentID,.reorged,some aggregateVersion⟩
  match loadPaymentObservation db s.eventID with
  | none => pure db
  | some observation => linkObservationEvent db observation .reorged

def compensateSettlement (ids : ReorgIDs) (db : Database) (s : ReorgSettlement) :
    Except Failure Database := do
  let db ← postLedger db (reversalOf s (ids.reversal s.original.id))
  let intents ← updateOne (fun i => i.id = s.intentID ∧ i.tenantID = s.tenantID ∧
      i.version = s.intentVersion ∧
      i.status ∈ ([.settled,.overpaid,.confirmed] : List IntentStatus))
    (fun i => { i with status := .reorgReview, version := i.version+1 })
    (versionConflict "") db.intents
  let db := reopenRoute { db with intents } s.routeID s.tenantID now
  let db := reverseMatches db s now
  insertReorgNotifications db s (s.intentVersion+1) (ids.webhook s.original.id)

def orphanTransfer (ids : ReorgIDs) (db : Database) (eventID : String) :
    Except Failure Database := do
  let settlements := loadReorgSettlements db eventID
  let db ← reorgPaymentObservation db eventID settlements.isEmpty now
    (ids.observationWebhook eventID)
  let db ← traverse (compensateSettlement now ids) settlements db
  pure { db with
    paymentMatches := update (fun m => m.source = .transfer eventID ∧ m.state ≠ .reversed)
      (fun m => { m with state := .reversed }) db.paymentMatches
    unmatched := update (fun u => u.eventID = eventID ∧ u.status ≠ .reorged)
      (fun u => { u with status := .reorged }) db.unmatched }

abbrev agrees (chainID : String) (block : BlockRef) : Prop :=
  ∃ b ∈ db.chainBlocks, b.chainID = chainID ∧ b.height = block.height ∧ b.hash = block.hash ∧
    b.status ≠ .reorged

variable (batch : RangeBatch)

def commonAncestor : Option BlockRef :=
  (batch.blocks.takeWhile (·.height ≤ lease.height)).foldl (fun best block =>
    if agrees db lease.chainID block ∧ ∀ a ∈ best, a.height < block.height then some block
    else best) none

def rewindPoint : BlockRef :=
  match commonAncestor db lease batch with
  | some block => block
  | none =>
    if batch.fromHeight = 0 then ⟨0,""⟩
    else
      let height := batch.fromHeight - 1
      let known := (db.chainBlocks.filter fun b => b.chainID = lease.chainID ∧
        b.height = height ∧ b.status ≠ .reorged).insertionSort fun a b =>
          b.lastObservedAt ≤ a.lastObservedAt
      ⟨height,(known.head?.map (·.hash)).getD ""⟩

abbrev replaced (point : BlockRef) (b : ChainBlock) : Prop :=
  b.chainID = lease.chainID ∧ point.height < b.height ∧ b.height ≤ lease.height ∧
    b.status ≠ .reorged

def replacedHashes : List String :=
  (db.chainBlocks.filter (replaced lease (rewindPoint db lease batch))).map (·.hash)

def replacedEvents : List String :=
  (db.transferEvents.filter fun t => t.identity.chainID = lease.chainID ∧
    t.blockHash ∈ replacedHashes db lease batch ∧ t.status ≠ .reorged).map (·.id)

def markReorged (eventIDs : List String) : Database :=
  { db with
    transferEvents := update (fun t => t.id ∈ eventIDs ∧ t.status ≠ .reorged)
      (fun t => { t with status := .reorged }) db.transferEvents
    transferQueue := update (fun q => q.eventID ∈ eventIDs ∧ q.status ≠ .reorged)
      (fun q => { q with
        status := .reorged
        lockedBy := none
        lockedUntil := none
        leaseToken := none }) db.transferQueue }

/-- The INSERT of the open gap into `scanner_gaps`, which nothing here reads: its CHECK refuses a gap
that ends before it starts. -/
def insertScannerGap (fromHeight toHeight : ℕ) : Except Failure Unit :=
  require (fromHeight ≤ toHeight) (databaseFailure "scanner_gaps_check")

def rewindReorg (capability : String) (db : Database) (lease : Lease) (batch : RangeBatch)
    (incidentHeight : ℕ) (clock : ℤ) (ids : ReorgIDs) : Except Failure Database := do
  require (lease.chainID ≠ "" ∧ lease.shard ≠ "" ∧ lease.owner ≠ "" ∧ lease.hash ≠ "" ∧
      incidentHeight = lease.height ∧ batch.blocks ≠ [] ∧ batch.fromHeight ≤ lease.height)
    ⟨.unwrapped,"invalid scanner reorg rewind"⟩
  require (∃ c ∈ db.cursors, HoldsCursor capability lease clock c) leaseLost
  let point := rewindPoint db lease batch
  let eventIDs := replacedEvents db lease batch
  let chainBlocks := update (replaced lease point)
    (fun b => { b with status := .reorged, lastObservedAt := clock }) db.chainBlocks
  let db ← traverse (orphanTransfer clock ids) eventIDs { db with chainBlocks }
  insertScannerGap (point.height+1) lease.height
  moveCursor capability (markReorged db eventIDs) lease point.height point.hash clock

end Ocrypt.Reorg
