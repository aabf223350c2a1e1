import Ocrypt.Store

/-! The scanner's durable state: the leased cursor of a chain, the history of its blocks, and
the queue of transfers that settlement workers claim. -/
namespace Ocrypt.Scanner
open Domain Fallible Table Store

structure Lease where
  (chainID shard owner : String)
  height : ℕ
  hash : String
  version : ℤ
  deriving DecidableEq, Repr

structure BlockRef where
  height : ℕ
  hash : String
  deriving DecidableEq, Repr

structure RangeBatch where
  (fromHeight toHeight : ℕ)
  blocks : List BlockRef
  events : List TransferEvent
  deriving DecidableEq, Repr

variable (capability : String) (db : Database) (chainID : String) (lease : Lease) (clock : ℤ)

/-- The row of the cursor, still held by the owner under the version of the lease. -/
abbrev HoldsCursor (c : ScannerCursor) : Prop :=
  c.chainID = lease.chainID ∧ c.shard = lease.shard ∧ c.capability = capability ∧
    c.lockedBy = some lease.owner ∧ c.version = lease.version ∧ ∃ u ∈ c.lockedUntil, clock < u

def leaseLost : Failure := versionConflict "scanner lease was lost"

def second : ℤ := 1000000000

def ensureCursor (cursors : List ScannerCursor) (chainID shard capability : String) :
    List ScannerCursor :=
  if ∃ c ∈ cursors, c.chainID = chainID ∧ c.shard = shard ∧ c.capability = capability then cursors
  else cursors ++ [⟨chainID,shard,capability,0,"",none,none,1⟩]

def acquire (chainID shard owner : String) (duration now : ℤ) : Except Failure (Database × Lease) := do
  require (chainID ≠ "" ∧ shard ≠ "" ∧ owner ≠ "" ∧ second ≤ duration ∧ duration ≤ 10*minute)
    ⟨.unwrapped,"invalid scanner lease request"⟩
  let cursors := ensureCursor db.cursors chainID shard capability
  let free (c : ScannerCursor) : Prop :=
    c.chainID = chainID ∧ c.shard = shard ∧ c.capability = capability ∧
      (c.lockedUntil = none ∨ (∃ u ∈ c.lockedUntil, u < now) ∨ c.lockedBy = some owner)
  let cursor ← orFail (cursors.find? fun c => decide (free c))
    (stateConflict "scanner cursor is already leased")
  let cursors := update free (fun c => { c with
    lockedBy := some owner
    lockedUntil := some (now+duration)
    version := c.version+1 }) cursors
  pure ({ db with cursors }, ⟨chainID,shard,owner,cursor.height,cursor.hash,cursor.version+1⟩)

def renew (duration clock : ℤ) : Except Failure Database := do
  require (0 < duration) ⟨.unwrapped,"invalid scanner lease duration"⟩
  let cursors ← updateOne (HoldsCursor capability lease clock)
    (fun c => { c with lockedUntil := some (clock+duration) })
    ⟨.unwrapped,"scanner lease was lost"⟩ db.cursors
  pure { db with cursors }

def release : Except Failure Database := do
  let cursors ← updateOne (fun c => c.chainID = lease.chainID ∧ c.shard = lease.shard ∧
      c.capability = capability ∧ c.lockedBy = some lease.owner ∧ c.version = lease.version)
    (fun c => { c with lockedBy := none, lockedUntil := none, version := c.version+1 })
    leaseLost db.cursors
  pure { db with cursors }

def moveCursor (height : ℕ) (hash : String) (clock : ℤ) : Except Failure Database := do
  let cursors ← updateOne (HoldsCursor capability lease clock) (fun c => { c with
    height := height
    hash := hash
    lockedBy := none
    lockedUntil := none
    version := c.version+1 }) leaseLost db.cursors
  pure { db with cursors }

/-- The hash the batch has for a height: the last block of that height, or the empty text. -/
def RangeBatch.hashAt (batch : RangeBatch) (height : ℕ) : String :=
  ((batch.blocks.reverse.find? (·.height = height)).map (·.hash)).getD ""

variable (worker eventID claimToken : String) (block : BlockRef)

def displaceBlocks (rows : List ChainBlock) : List ChainBlock :=
  update (fun b => b.chainID = chainID ∧ b.height = block.height ∧ b.hash ≠ block.hash ∧
      b.status ≠ .reorged)
    (fun b => { b with status := .reorged, lastObservedAt := clock }) rows

def admitBlock (rows : List ChainBlock) : List ChainBlock :=
  if ∃ b ∈ rows, b.chainID = chainID ∧ b.hash = block.hash then
    update (fun b => b.chainID = chainID ∧ b.hash = block.hash) (fun b => { b with
      lastObservedAt := clock
      status := if b.status = .finalized then .finalized else .safe }) rows
  else rows ++ [⟨chainID,block.height,block.hash,.safe,clock⟩]

def commitBlock (rows : List ChainBlock) (block : BlockRef) : List ChainBlock :=
  admitBlock chainID clock block (displaceBlocks chainID clock block rows)

/-- A transfer is queued once for each identity; only a reorged row is queued again. -/
def enqueueTransfer (ext : Externals) (chainID : String) (clock : ℤ) (queue : List QueuedTransfer)
    (event : TransferEvent) : Except Failure (List QueuedTransfer) :=
  match event.identity.key ext.hashing.sha256Hex with
  | .error e => .error ⟨.unwrapped,e⟩
  | .ok identityKey =>
    if ∃ q ∈ queue, q.chainID = chainID ∧ q.identityKey = identityKey then
      .ok (update (fun q => q.chainID = chainID ∧ q.identityKey = identityKey ∧
          q.status = .reorged) (fun q => { q with
        event := event
        status := .pending
        attemptCount := 0
        nextAttemptAt := clock
        lockedBy := none
        lockedUntil := none
        leaseToken := none }) queue)
    else insertUnique (·.eventID = event.id)
      ⟨event.id,chainID,identityKey,event,.pending,0,clock,none,none,none⟩
      (databaseFailure "scanner_transfer_queue_pkey") queue

def scannerBlockHistory : ℕ := 512

def pruneBlocks (toHeight : ℕ) (rows : List ChainBlock) : List ChainBlock :=
  if scannerBlockHistory < toHeight then
    rows.filter fun b => ¬(b.chainID = chainID ∧ b.height < toHeight - scannerBlockHistory)
  else rows

abbrev Named (lease : Lease) : Prop := lease.chainID ≠ "" ∧ lease.shard ≠ "" ∧ lease.owner ≠ ""

/-- The checks of a range that `ScannerStore.Commit` makes before it opens its transaction. -/
def checkRange (lease : Lease) (batch : RangeBatch) : Except Failure Unit := do
  require (Named lease ∧ batch.fromHeight ≤ batch.toHeight ∧
      (∃ b ∈ batch.blocks.head?, b.height = batch.fromHeight) ∧
      ∃ b ∈ batch.blocks.getLast?, b.height = batch.toHeight)
    ⟨.unwrapped,"invalid scanner commit"⟩
  require (∀ e ∈ batch.events, e.identity.chainID = lease.chainID ∧
      batch.hashAt e.blockHeight = e.blockHash)
    ⟨.invariantViolation,"staged transfer is not bound to the committed block range"⟩

/-- The transaction of `ScannerStore.Commit`: the blocks become history, their transfers are
queued and the cursor moves to the end of the range. -/
def storeRange (ext : Externals) (capability : String) (db : Database) (lease : Lease)
    (batch : RangeBatch) (clock : ℤ) : Except Failure Database := do
  let chainBlocks := batch.blocks.foldl (commitBlock lease.chainID clock) db.chainBlocks
  let transferQueue ← traverse (enqueueTransfer ext lease.chainID clock) batch.events
    db.transferQueue
  let db ← moveCursor capability { db with chainBlocks, transferQueue } lease batch.toHeight
    ((batch.blocks.getLast?.map (·.hash)).getD "") clock
  pure { db with chainBlocks := pruneBlocks lease.chainID batch.toHeight db.chainBlocks }

/-- `ScannerStore.Commit` of a range that was scanned under no runtime configuration. -/
def commitRange (ext : Externals) (capability : String) (db : Database) (lease : Lease)
    (batch : RangeBatch) (clock : ℤ) : Except Failure Database := do
  checkRange lease batch
  storeRange ext capability db lease batch clock

structure ClaimedTransfer where
  event : TransferEvent
  attempt : ℕ
  claimToken : String

/-- A queue row that a worker may lease at `now`; an expired lease may be taken over. -/
abbrev Due (now : ℤ) (q : QueuedTransfer) : Prop :=
  ((q.status = .pending ∨ q.status = .retry) ∧ q.nextAttemptAt ≤ now ∧
      ∀ u ∈ q.lockedUntil, u ≤ now) ∨
    (q.status = .leased ∧ ∃ u ∈ q.lockedUntil, u ≤ now)

/-- Lease up to `limit` due rows; `token` is the identifier drawn for each of them. -/
def claimTransfers (worker : String) (now lease : ℤ) (limit : ℕ) (token : String → String) :
    Except Failure (Database × List ClaimedTransfer) := do
  require (worker ≠ "" ∧ second ≤ lease ∧ 1 ≤ limit ∧ limit ≤ 500)
    ⟨.unwrapped,"invalid transfer claim"⟩
  let due := (db.transferQueue.filter (Due now)).insertionSort fun a b =>
    a.nextAttemptAt < b.nextAttemptAt ∨ (a.nextAttemptAt = b.nextAttemptAt ∧ a.eventID ≤ b.eventID)
  let selected := due.take limit
  let ids := selected.map (·.eventID)
  let transferQueue := update (fun q => q.eventID ∈ ids ∧ Due now q) (fun q => { q with
    status := .leased
    lockedBy := some worker
    lockedUntil := some (now+lease)
    attemptCount := q.attemptCount+1
    leaseToken := some (token q.eventID) }) db.transferQueue
  pure ({ db with transferQueue }, selected.map fun q => ⟨q.event,q.attemptCount+1,token q.eventID⟩)

abbrev HoldsTransfer (q : QueuedTransfer) : Prop :=
  q.eventID = eventID ∧ q.status = .leased ∧ q.lockedBy = some worker ∧
    q.leaseToken = some claimToken

def completeTransfer : Except Failure Database := do
  require (claimToken ≠ "") (versionConflict "")
  require (db.transferQueue.countP (HoldsTransfer worker eventID claimToken) = 1)
    (versionConflict "")
  pure { db with
    transferQueue := db.transferQueue.filter fun q => ¬HoldsTransfer worker eventID claimToken q }

def retryTransfer (next : ℤ) (deadLetter : Bool) : Except Failure Database := do
  require (claimToken ≠ "") (versionConflict "")
  let transferQueue ← updateOne (HoldsTransfer worker eventID claimToken) (fun q => { q with
    status := if deadLetter then .deadLetter else .retry
    lockedBy := none
    lockedUntil := none
    leaseToken := none
    nextAttemptAt := next }) (versionConflict "") db.transferQueue
  pure { db with transferQueue }

section
variable {capability chainID shard owner worker eventID claimToken : String} {db db' : Database}
  {lease : Lease} {duration now next : ℤ}

lemma acquire_frame {r : Database × Lease}
    (h : acquire capability db chainID shard owner duration now = .ok r) :
    ∃ cursors, r.1 = { db with cursors := cursors } := by
  simp only [acquire,do_ok] at h
  obtain ⟨-,-,-,-,rfl⟩ := h
  exact ⟨_,rfl⟩

lemma release_frame (h : release capability db lease = .ok db') :
    ∃ cursors, db' = { db with cursors := cursors } := by
  simp only [release,do_ok] at h
  obtain ⟨-,-,rfl⟩ := h
  exact ⟨_,rfl⟩

lemma claimTransfers_frame {limit : ℕ} {token : String → String}
    {r : Database × List ClaimedTransfer}
    (h : claimTransfers db worker now duration limit token = .ok r) :
    ∃ queue, r.1 = { db with transferQueue := queue } := by
  simp only [claimTransfers,do_ok] at h
  obtain ⟨-,-,rfl⟩ := h
  exact ⟨_,rfl⟩

lemma completeTransfer_frame (h : completeTransfer db worker eventID claimToken = .ok db') :
    ∃ queue, db' = { db with transferQueue := queue } := by
  simp only [completeTransfer,do_ok] at h
  obtain ⟨-,-,-,-,rfl⟩ := h
  exact ⟨_,rfl⟩

lemma retryTransfer_frame {deadLetter : Bool}
    (h : retryTransfer db worker eventID claimToken next deadLetter = .ok db') :
    ∃ queue, db' = { db with transferQueue := queue } := by
  simp only [retryTransfer,do_ok] at h
  obtain ⟨-,-,-,-,rfl⟩ := h
  exact ⟨_,rfl⟩

lemma commitRange_frame {ext : Externals} {batch : RangeBatch}
    (h : commitRange ext capability db lease batch now = .ok db') : ∃ queue cursors, db' = { db with
      chainBlocks := pruneBlocks lease.chainID batch.toHeight
        (batch.blocks.foldl (commitBlock lease.chainID now) db.chainBlocks)
      transferQueue := queue
      cursors := cursors } := by
  simp only [commitRange,storeRange,moveCursor,do_ok] at h
  obtain ⟨-,-,queue,-,d,⟨cursors,-,rfl⟩,rfl⟩ := h
  exact ⟨queue,cursors,rfl⟩

end

end Ocrypt.Scanner
