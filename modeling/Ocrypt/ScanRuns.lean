import Ocrypt.BlockHistory
import Ocrypt.ScanWorker

/-! Scanners of many chains and shards over one database. A cycle leases its cursor in one step
and ends it in another, so that other cycles, lost leases and other workers come between. -/
namespace Ocrypt.ScanRuns
open Domain Fallible Table Store Scanner Reorg RangeChecks ScanWorker BlockHistory ReorgEffects
  Transactions List

structure Call where
  worker : Worker
  lease : Lease
  deriving DecidableEq

/-- A range that was committed, with the lease it was committed under. -/
structure CommittedRange where
  lease : Lease
  range : ScannedRange

/-- The database and the cycles over it. Two history variables remember the committed ranges
and, for each cursor, the height above the last point at which it was bound to no block. -/
structure World where
  db : Database
  calls : List Call := []
  commits : List CommittedRange := []
  origin : (chainID shard : String) → ℕ := fun _ _ => 1

/-- The transactions of a cycle, with the time of each and what its source answered; `other` is
any transaction of another worker, none of which writes a cursor or a block. -/
inductive Action
  | start (worker : Worker) (now : ℤ)
  | renew (call : Call) (clock : ℤ)
  | commit (call : Call) (answers : Answers) (clock : ℤ)
  | rewind (call : Call) (answers : Answers) (clock : ℤ) (ids : ReorgIDs)
  | release (call : Call)
  | other (f : Database → Database)

def notRunning : Failure := ⟨.notFound,""⟩

def notPlanned : Failure := ⟨.stateConflict,""⟩

def originAfter (s : World) (lease : Lease) (point : BlockRef) (chainID shard : String) : ℕ :=
  if chainID = lease.chainID ∧ shard = lease.shard ∧ point.hash = "" then point.height+1
  else s.origin chainID shard

def exec (ext : Externals) (capability : String) (s : World) : Action → Except Failure World
  | .start w now => do
    let (db,lease) ← w.start capability s.db now
    pure { s with db, calls := s.calls ++ [⟨w,lease⟩] }
  | .renew call clock => do
    require (call ∈ s.calls) notRunning
    let db ← renew capability s.db call.lease call.worker.leaseDuration clock
    pure { s with db }
  | .commit call answers clock => do
    require (call ∈ s.calls) notRunning
    match plan call.worker call.lease answers with
    | .commit r =>
      let db ← RangeChecks.commit ext capability s.db call.lease r clock
      pure { s with db, commits := s.commits ++ [⟨call.lease,r⟩] }
    | _ => .error notPlanned
  | .rewind call answers clock ids => do
    require (call ∈ s.calls) notRunning
    match plan call.worker call.lease answers with
    | .rewind r height _ _ =>
      let db ← rewindReorg capability s.db call.lease r.stored height clock ids
      pure { s with db, origin := originAfter s call.lease (rewindPoint s.db call.lease r.stored) }
    | _ => .error notPlanned
  | .release call => do
    require (call ∈ s.calls) notRunning
    let db ← release capability s.db call.lease
    pure { s with db }
  | .other f =>
    .ok { s with db := { f s.db with chainBlocks := s.db.chainBlocks, cursors := s.db.cursors } }

variable {capability chainID shard hash : String} {cursors cursors' : List ScannerCursor}
  {f : ScannerCursor → ScannerCursor} {db db' : Database} {lease : Lease} {duration now clock : ℤ}
  {height : ℕ}

section
variable {c : ScannerCursor} {p : ScannerCursor → Prop}

def cursorKey (c : ScannerCursor) : String × String × String := (c.chainID,c.shard,c.capability)

/-- The row of a cursor; a missing one reads as the row that `Acquire` creates. -/
def row (capability : String) (cursors : List ScannerCursor) (chainID shard : String) :
    ScannerCursor :=
  (cursors.find? fun c => cursorKey c = (chainID,shard,capability)).getD
    ⟨chainID,shard,capability,0,"",none,none,1⟩

lemma row_eq (hk : (cursors.map cursorKey).Nodup) (hc : c ∈ cursors)
    (hke : cursorKey c = (chainID,shard,capability)) : row capability cursors chainID shard = c := by
  unfold row
  rw [← hke,find?_key hk hc]
  rfl

lemma row_mem_or (capability : String) (cursors : List ScannerCursor) (chainID shard : String) :
    (row capability cursors chainID shard ∈ cursors ∧
      cursorKey (row capability cursors chainID shard) = (chainID,shard,capability)) ∨
    row capability cursors chainID shard = ⟨chainID,shard,capability,0,"",none,none,1⟩ := by
  unfold row
  cases hf : cursors.find? fun c => cursorKey c = (chainID,shard,capability) with
  | none => exact .inr rfl
  | some c => exact .inl (mem_of_find? hf)

structure RowUpdated (capability : String) (cursors cursors' : List ScannerCursor)
    (chainID shard : String) (f : ScannerCursor → ScannerCursor) : Prop where
  keys : (cursors'.map cursorKey).Nodup
  changed : row capability cursors' chainID shard = f (row capability cursors chainID shard)
  others : ∀ chainID' shard', (chainID',shard') ≠ (chainID,shard) →
    row capability cursors' chainID' shard' = row capability cursors chainID' shard'

lemma rowUpdated_update [DecidablePred p] (hk : (cursors.map cursorKey).Nodup)
    (hp : ∀ c ∈ cursors, p c → cursorKey c = (chainID,shard,capability))
    (hf : ∀ c, cursorKey (f c) = cursorKey c) (hc : c ∈ cursors) (hpc : p c) :
    p (row capability cursors chainID shard) ∧
      RowUpdated capability cursors (update p f cursors) chainID shard f := by
  have hr := row_eq hk hc (hp c hc hpc)
  have hke : (update p f cursors).map cursorKey = cursors.map cursorKey :=
    map_update fun c _ _ => hf c
  refine ⟨hr ▸ hpc,hke ▸ hk,?_,?_⟩
  · rw [hr]
    refine row_eq (hke ▸ hk) (mem_update_self hc hpc) ?_
    rw [hf,hp c hc hpc]
  · intro chainID' shard' hne
    have hfi : (update p f cursors).find? (fun c => cursorKey c = (chainID',shard',capability)) =
        (cursors.find? fun c => cursorKey c = (chainID',shard',capability)).map
          fun c => if p c then f c else c :=
      find?_update fun c _ _ => by rw [hf c]
    unfold row
    rw [hfi]
    cases hold : cursors.find? fun c => cursorKey c = (chainID',shard',capability) with
    | none => rfl
    | some c' =>
      obtain ⟨hm,hky⟩ := mem_of_find? hold
      have hn : ¬p c' := by
        intro hp'
        have := (hp c' hm hp').symm.trans hky
        simp only [Prod.mk.injEq] at this
        exact hne (by rw [this.1,this.2.1])
      simp [hn]

lemma rowUpdated_updateOne [DecidablePred p] {failure : Failure}
    (hk : (cursors.map cursorKey).Nodup) (h : updateOne p f failure cursors = .ok cursors')
    (hp : ∀ c, p c → cursorKey c = (chainID,shard,capability))
    (hf : ∀ c, cursorKey (f c) = cursorKey c) : p (row capability cursors chainID shard) ∧
      RowUpdated capability cursors cursors' chainID shard f := by
  obtain ⟨ho,rfl⟩ := updateOne_eq_ok.mp h
  have hpo : 0 < cursors.countP p := by omega
  obtain ⟨c,hc,hpc⟩ := countP_pos_iff.mp hpo
  exact rowUpdated_update hk (fun c _ => hp c) hf hc (by simpa using hpc)

lemma row_append_default (chainID' shard' : String) :
    row capability (cursors ++ [⟨chainID,shard,capability,0,"",none,none,1⟩]) chainID' shard' =
      row capability cursors chainID' shard' := by
  unfold row
  rw [find?_append]
  cases hold : cursors.find? fun c => cursorKey c = (chainID',shard',capability) with
  | some c => rfl
  | none =>
    by_cases hsame : (chainID,shard) = (chainID',shard')
    · cases hsame
      simp [cursorKey]
    · have hne : cursorKey ⟨chainID,shard,capability,0,"",none,none,1⟩ ≠
          (chainID',shard',capability) := by
        intro hk
        simp only [cursorKey,Prod.mk.injEq] at hk
        exact hsame (by rw [hk.1,hk.2.1])
      simp [hne]

lemma row_ensureCursor (capability chainID shard : String) (hk : (cursors.map cursorKey).Nodup) :
    ((ensureCursor cursors chainID shard capability).map cursorKey).Nodup ∧
      ∀ chainID' shard', row capability (ensureCursor cursors chainID shard capability) chainID' shard' =
        row capability cursors chainID' shard' := by
  unfold ensureCursor
  split_ifs with he
  · exact ⟨hk,fun _ _ => rfl⟩
  · refine ⟨nodup_map_append hk fun c hc hke => he ?_,row_append_default⟩
    simp only [cursorKey,Prod.mk.injEq] at hke
    exact ⟨c,hc,hke⟩

section
variable (hk : (db.cursors.map cursorKey).Nodup)
include hk

lemma acquire_row {owner : String}
    (h : acquire capability db chainID shard owner duration now = .ok (db',lease)) :
    let c := row capability db.cursors chainID shard
    lease = ⟨chainID,shard,owner,c.height,c.hash,c.version+1⟩ ∧
      RowUpdated capability db.cursors db'.cursors chainID shard (fun c => { c with
        lockedBy := some owner
        lockedUntil := some (now+duration)
        version := c.version+1 }) ∧
      db' = { db with cursors := db'.cursors } := by
  simp only [acquire,do_ok,orFail_eq_ok] at h
  obtain ⟨-,cursor,hfi,rfl,rfl⟩ := h
  obtain ⟨hm,hfr⟩ := mem_of_find? hfi
  obtain ⟨hk',hsame⟩ := row_ensureCursor capability chainID shard hk
  have hr : row capability db.cursors chainID shard = cursor := by
    rw [← hsame]
    refine row_eq hk' hm ?_
    rw [cursorKey,hfr.1,hfr.2.1,hfr.2.2.1]
  have hup := (rowUpdated_update (p := fun c => c.chainID = chainID ∧ c.shard = shard ∧
      c.capability = capability ∧ (c.lockedUntil = none ∨ (∃ u ∈ c.lockedUntil, u < now) ∨
        c.lockedBy = some owner)) (f := fun c => { c with
      lockedBy := some owner
      lockedUntil := some (now+duration)
      version := c.version+1 })
    hk' (fun c _ hp => by rw [cursorKey,hp.1,hp.2.1,hp.2.2.1]) (fun _ => rfl) hm hfr).2
  refine ⟨by rw [hr],⟨hup.keys,?_,?_⟩,rfl⟩
  · rw [← hsame]
    exact hup.changed
  · intro chainID' shard' hne
    rw [← hsame chainID' shard']
    exact hup.others chainID' shard' hne

lemma moveCursor_row (h : moveCursor capability db lease height hash clock = .ok db') :
    HoldsCursor capability lease clock (row capability db.cursors lease.chainID lease.shard) ∧
      RowUpdated capability db.cursors db'.cursors lease.chainID lease.shard (fun c => { c with
        height := height
        hash := hash
        lockedBy := none
        lockedUntil := none
        version := c.version+1 }) ∧ db' = { db with cursors := db'.cursors } := by
  simp only [moveCursor,do_ok] at h
  obtain ⟨cursors,hcu,rfl⟩ := h
  obtain ⟨hhe,hu⟩ := rowUpdated_updateOne hk hcu
    (fun c hc => by rw [cursorKey,hc.1,hc.2.1,hc.2.2.1]) (fun _ => rfl)
  exact ⟨hhe,hu,rfl⟩

lemma release_row (h : release capability db lease = .ok db') :
    RowUpdated capability db.cursors db'.cursors lease.chainID lease.shard (fun c => { c with
      lockedBy := none, lockedUntil := none, version := c.version+1 }) ∧
      db' = { db with cursors := db'.cursors } := by
  simp only [release,do_ok] at h
  obtain ⟨cursors,hcu,rfl⟩ := h
  refine ⟨(rowUpdated_updateOne hk hcu (fun c hc => ?_) fun _ => rfl).2,rfl⟩
  rw [cursorKey,hc.1,hc.2.1,hc.2.2.1]

lemma renew_row (h : renew capability db lease duration clock = .ok db') :
    RowUpdated capability db.cursors db'.cursors lease.chainID lease.shard (fun c => { c with
      lockedUntil := some (clock+duration) }) ∧ db' = { db with cursors := db'.cursors } := by
  simp only [renew,do_ok] at h
  obtain ⟨-,cursors,hcu,rfl⟩ := h
  refine ⟨(rowUpdated_updateOne hk hcu (fun c hc => ?_) fun _ => rfl).2,rfl⟩
  rw [cursorKey,hc.1,hc.2.1,hc.2.2.1]

end

end

/-- A position fits a `uint64`, and so does the height above a cursor bound to no block. -/
abbrev Fits (height : ℕ) (hash : String) : Prop :=
  height < 2^64 ∧ (hash = "" → height+1 < 2^64)

/-- The cycle holds a copy of its cursor that is current as long as the version is. -/
structure Leased (capability : String) (cursors : List ScannerCursor) (call : Call) : Prop where
  chainID : call.lease.chainID = call.worker.chainID
  shard : call.lease.shard = call.worker.shard
  configured : call.worker.Configured
  fits : Fits call.lease.height call.lease.hash
  version : call.lease.version ≤
    (row capability cursors call.lease.chainID call.lease.shard).version
  current : (row capability cursors call.lease.chainID call.lease.shard).version =
      call.lease.version →
    (row capability cursors call.lease.chainID call.lease.shard).height = call.lease.height ∧
      (row capability cursors call.lease.chainID call.lease.shard).hash = call.lease.hash

structure Fenced (capability : String) (s : World) : Prop where
  keys : (s.db.cursors.map cursorKey).Nodup
  calls : ∀ call ∈ s.calls, Leased capability s.db.cursors call
  fits : ∀ chainID shard, Fits (row capability s.db.cursors chainID shard).height
    (row capability s.db.cursors chainID shard).hash

variable {s t : World}

lemma Leased.update {call : Call} (h : Leased capability cursors call)
    (hu : RowUpdated capability cursors cursors' chainID shard f)
    (hf : ∀ c : ScannerCursor, c.version < (f c).version ∨
      ((f c).version = c.version ∧ (f c).height = c.height ∧ (f c).hash = c.hash)) :
    Leased capability cursors' call := by
  by_cases hsame : (call.lease.chainID,call.lease.shard) = (chainID,shard)
  · cases hsame
    have hve := h.version
    rcases hf (row capability cursors call.lease.chainID call.lease.shard) with hr | ⟨hv,hh,hx⟩
    · refine ⟨h.chainID,h.shard,h.configured,h.fits,?_,?_⟩
      · rw [hu.changed]
        omega
      · rw [hu.changed]
        omega
    · refine ⟨h.chainID,h.shard,h.configured,h.fits,?_,?_⟩
      · rw [hu.changed,hv]
        exact hve
      · rw [hu.changed,hv,hh,hx]
        exact h.current
  · have hro := hu.others _ _ hsame
    refine ⟨h.chainID,h.shard,h.configured,h.fits,?_,?_⟩
    · rw [hro]
      exact h.version
    · rw [hro]
      exact h.current

lemma Fenced.update (hs : Fenced capability s) (hca : t.calls = s.calls)
    (hu : RowUpdated capability s.db.cursors t.db.cursors chainID shard f)
    (hf : ∀ c : ScannerCursor, c.version < (f c).version ∨
      ((f c).version = c.version ∧ (f c).height = c.height ∧ (f c).hash = c.hash))
    (hfi : Fits (f (row capability s.db.cursors chainID shard)).height
      (f (row capability s.db.cursors chainID shard)).hash) : Fenced capability t := by
  refine ⟨hu.keys,?_,?_⟩
  · rw [hca]
    intro call hcl
    exact (hs.calls call hcl).update hu hf
  · intro chainID' shard'
    by_cases hsame : (chainID',shard') = (chainID,shard)
    · cases hsame
      rw [hu.changed]
      exact hfi
    · rw [hu.others _ _ hsame]
      exact hs.fits chainID' shard'

/-- The cursor of the lease stood where the lease says and moves; the others stay. -/
structure Moved (capability : String) (cursors cursors' : List ScannerCursor) (lease : Lease)
    (height : ℕ) (hash : String) : Prop where
  before : (row capability cursors lease.chainID lease.shard).height = lease.height ∧
    (row capability cursors lease.chainID lease.shard).hash = lease.hash
  after : (row capability cursors' lease.chainID lease.shard).height = height ∧
    (row capability cursors' lease.chainID lease.shard).hash = hash
  others : ∀ chainID shard, (chainID,shard) ≠ (lease.chainID,lease.shard) →
    row capability cursors' chainID shard = row capability cursors chainID shard

structure Quiet (capability : String) (s t : World) : Prop where
  stays : ∀ chainID shard,
    (row capability t.db.cursors chainID shard).height =
      (row capability s.db.cursors chainID shard).height ∧
    (row capability t.db.cursors chainID shard).hash =
      (row capability s.db.cursors chainID shard).hash
  chainBlocks : t.db.chainBlocks = s.db.chainBlocks
  commits : t.commits = s.commits
  origin : t.origin = s.origin

def lastHash (r : ScannedRange) : String := (r.blocks.getLast?.map (·.hash)).getD ""

/-- A validated range is stored and the cursor moves to its end. -/
structure Extended (capability : String) (s t : World) (lease : Lease) (r : ScannedRange)
    (clock : ℤ) : Prop where
  shaped : Shaped r r.fromHeight r.toHeight
  chain : ∀ e ∈ r.events, e.identity.chainID = lease.chainID
  fromHeight : r.fromHeight ≤ lease.height+1
  toHeight : lease.height ≤ r.toHeight
  unbound : lease.hash = "" → r.fromHeight = lease.height+1
  overlaps : lease.hash ≠ "" → Overlaps r lease
  moved : Moved capability s.db.cursors t.db.cursors lease r.toHeight (lastHash r)
  chainBlocks : t.db.chainBlocks = pruneBlocks lease.chainID r.toHeight
    ((r.blocks.map Block.ref).foldl (commitBlock lease.chainID clock) s.db.chainBlocks)
  commits : t.commits = s.commits ++ [⟨lease,r⟩]
  origin : t.origin = s.origin

/-- A range has another block at the cursor, and the cursor moves to the rewind point. -/
structure Rewound (capability : String) (s t : World) (lease : Lease) (r : ScannedRange)
    (clock : ℤ) : Prop where
  shaped : Shaped r r.fromHeight r.toHeight
  bound : lease.hash ≠ ""
  fromHeight : r.fromHeight ≤ lease.height
  lower : (rewindPoint s.db lease r.stored).height < lease.height
  conflict : ∃ b ∈ r.blocks, b.height = lease.height ∧ b.hash ≠ lease.hash
  moved : Moved capability s.db.cursors t.db.cursors lease
    (rewindPoint s.db lease r.stored).height (rewindPoint s.db lease r.stored).hash
  chainBlocks : t.db.chainBlocks = rewoundBlocks s.db lease r.stored clock
  commits : t.commits = s.commits
  origin : t.origin = originAfter s lease (rewindPoint s.db lease r.stored)

section
variable {ext : Externals} {call : Call} {batch : RangeBatch} {answers : Answers} {ids : ReorgIDs}

section
variable (hs : Fenced capability s)
include hs

lemma quiet_of_row (hu : RowUpdated capability s.db.cursors t.db.cursors chainID shard f)
    (hv : ∀ c : ScannerCursor, c.version ≤ (f c).version)
    (hp : ∀ c : ScannerCursor, (f c).height = c.height ∧ (f c).hash = c.hash)
    (hbl : t.db.chainBlocks = s.db.chainBlocks) (hca : t.calls = s.calls)
    (hco : t.commits = s.commits) (ho : t.origin = s.origin) :
    Fenced capability t ∧ Quiet capability s t := by
  refine ⟨hs.update hca hu (fun c => ?_) ?_,fun chainID' shard' => ?_,hbl,hco,
    ho⟩
  · have hle := hv c
    have hsame := hp c
    by_cases heq : (f c).version = c.version
    · exact .inr ⟨heq,hsame⟩
    · exact .inl (by omega)
  · rw [(hp _).1,(hp _).2]
    exact hs.fits chainID shard
  · by_cases hsame : (chainID',shard') = (chainID,shard)
    · cases hsame
      rw [hu.changed]
      exact hp _
    · rw [hu.others _ _ hsame]
      exact ⟨rfl,rfl⟩

lemma exec_start {w : Worker} (h : exec ext capability s (.start w now) = .ok t) :
    Fenced capability t ∧ Quiet capability s t := by
  simp only [exec,do_ok,Prod.exists] at h
  obtain ⟨db,lease,hst,rfl⟩ := h
  obtain ⟨hco,-,hac,-⟩ := start_eq_ok.mp hst
  obtain ⟨rfl,hu,hdb⟩ := acquire_row hs.keys hac
  have hbl : db.chainBlocks = s.db.chainBlocks := by rw [hdb]
  obtain ⟨hf,hq⟩ := quiet_of_row (t := { s with db := db }) hs hu
    (fun c => by dsimp only; omega) (fun _ => ⟨rfl,rfl⟩) hbl rfl rfl rfl
  refine ⟨⟨hf.keys,?_,hf.fits⟩,hq.stays,hbl,rfl,rfl⟩
  -- The new lease is the row as it was, under the version that the row has now.
  refine forall_snoc hf.calls ⟨rfl,rfl,hco,hs.fits w.chainID w.shard,?_,?_⟩
  · rw [hu.changed]
  · intro _
    rw [hu.changed]
    exact ⟨rfl,rfl⟩

lemma exec_renew (h : exec ext capability s (.renew call clock) = .ok t) :
    Fenced capability t ∧ Quiet capability s t := by
  simp only [exec,do_ok] at h
  obtain ⟨-,db,hr,rfl⟩ := h
  obtain ⟨hu,hdb⟩ := renew_row hs.keys hr
  exact quiet_of_row hs hu (fun _ => le_rfl) (fun _ => ⟨rfl,rfl⟩) (by rw [hdb]) rfl rfl rfl

lemma exec_release (h : exec ext capability s (.release call) = .ok t) :
    Fenced capability t ∧ Quiet capability s t := by
  simp only [exec,do_ok] at h
  obtain ⟨-,db,hr,rfl⟩ := h
  obtain ⟨hu,hdb⟩ := release_row hs.keys hr
  exact quiet_of_row hs hu (fun c => by dsimp only; omega) (fun _ => ⟨rfl,rfl⟩)
    (by rw [hdb]) rfl rfl rfl

lemma exec_other {f : Database → Database} (h : exec ext capability s (.other f) = .ok t) :
    Fenced capability t ∧ Quiet capability s t := by
  cases h
  exact ⟨⟨hs.keys,hs.calls,hs.fits⟩,fun _ _ => ⟨rfl,rfl⟩,rfl,rfl,rfl⟩

lemma moved_of_row (hcl : call ∈ s.calls) (hca : t.calls = s.calls)
    (hcu : db.cursors = s.db.cursors) (hf : Fits height hash)
    (h : moveCursor capability db call.lease height hash clock =
      .ok { db with cursors := t.db.cursors }) :
    Fenced capability t ∧ Moved capability s.db.cursors t.db.cursors call.lease height hash := by
  have hk := hcu ▸ hs.keys
  obtain ⟨hhe,hu,-⟩ := moveCursor_row hk h
  rw [hcu] at hhe hu
  have hl := hs.calls call hcl
  refine ⟨hs.update hca hu (fun c => .inl (by dsimp only; omega)) hf,
    hl.current hhe.2.2.2.2.1,?_,hu.others⟩
  rw [hu.changed]
  exact ⟨rfl,rfl⟩

end

lemma storeRange_moves
    (h : storeRange ext capability db lease batch clock = .ok db') : ∃ d, d.cursors = db.cursors ∧
      moveCursor capability d lease batch.toHeight ((batch.blocks.getLast?.map (·.hash)).getD "")
        clock = .ok { d with cursors := db'.cursors } ∧
      db'.chainBlocks = pruneBlocks lease.chainID batch.toHeight
        (batch.blocks.foldl (commitBlock lease.chainID clock) db.chainBlocks) := by
  simp only [storeRange,do_ok] at h
  obtain ⟨queue,-,d,hm,rfl⟩ := h
  refine ⟨{ db with
    chainBlocks := batch.blocks.foldl (commitBlock lease.chainID clock) db.chainBlocks
    transferQueue := queue },rfl,?_⟩
  rw [hm]
  simp only [moveCursor,do_ok] at hm
  obtain ⟨cursors,-,rfl⟩ := hm
  exact ⟨rfl,rfl⟩

lemma exec_commit (hs : Fenced capability s)
    (h : exec ext capability s (.commit call answers clock) = .ok t) :
    Fenced capability t ∧ ∃ r, plan call.worker call.lease answers = .commit r ∧
      Extended capability s t call.lease r clock := by
  simp only [exec,do_ok] at h
  obtain ⟨hca,h⟩ := h
  split at h
  swap
  · cases h
  rename_i r hp
  simp only [RangeChecks.commit,do_ok] at h
  obtain ⟨db,⟨-,-,hco⟩,rfl⟩ := h
  have hl := hs.calls call hca
  obtain ⟨-,ho,-⟩ := hl.configured
  obtain ⟨safe,hsa,hj⟩ := plan_eq_judge hp (.inl ⟨r,rfl⟩)
  obtain ⟨-,hch,hac⟩ := judge_commit hj
  have hbo := hac.bounds
  have hla := hac.ends
  have hfr : call.worker.scanFrom call.lease ≤ call.lease.height+1 := (scanFrom_le ho).1
  have hto := scanTo_lt (w := call.worker) (call.worker.scanFrom call.lease) safe
  have hu : call.lease.hash = "" → r.fromHeight = call.lease.height+1 := by
    intro hha
    rw [hbo.1,scanFrom_of_empty hha (hl.fits.2 hha)]
  have hha : lastHash r ≠ "" := by
    obtain ⟨b,hb,-⟩ := hla
    have hme := hac.mem (mem_of_getLast? hb)
    simpa [lastHash,Option.mem_def.mp hb] using hme.2.2
  have hre : call.lease.height ≤ r.toHeight := by
    by_cases he : call.lease.hash = ""
    · have := hu he
      omega
    · obtain ⟨b,hb,hhe⟩ := (hac.cursor ho he).1
      have := hac.mem hb
      omega
  obtain ⟨d,hcu,hm,hbl⟩ := storeRange_moves hco
  have hti : ((r.stored.blocks.getLast?.map (·.hash)).getD "") = lastHash r := by
    simp only [ScannedRange.stored,getLast?_map,Option.map_map]
    rfl
  rw [hti] at hm
  have hfi : Fits r.toHeight (lastHash r) := ⟨by omega,fun he => absurd he hha⟩
  obtain ⟨hf,hmo⟩ := moved_of_row
    (t := { s with db := db, commits := s.commits ++ [⟨call.lease,r⟩] }) hs hca rfl hcu hfi
    hm
  refine ⟨hf,r,hp,hac.own,?_,by omega,hre,hu,
    hac.cursor ho,hmo,hbl,rfl,rfl⟩
  rw [hl.chainID]
  exact hch

lemma rewindReorg_moves (h : rewindReorg capability db lease batch height clock ids = .ok db') :
    (batch.fromHeight ≤ lease.height ∧ (rewindPoint db lease batch).height < lease.height) ∧
      ∃ d, d.cursors = db.cursors ∧
      moveCursor capability d lease (rewindPoint db lease batch).height
        (rewindPoint db lease batch).hash clock = .ok { d with cursors := db'.cursors } ∧
      db'.chainBlocks = rewoundBlocks db lease batch clock := by
  simp only [rewindReorg,insertScannerGap,do_ok] at h
  obtain ⟨hg,-,d,ho,hlo,hm⟩ := h
  obtain ⟨has,-⟩ := traverse_orphaned ho
  refine ⟨⟨hg.2.2.2.2.2.2,hlo⟩,markReorged d (replacedEvents db lease batch),has.cursors,?_⟩
  rw [hm]
  simp only [moveCursor,do_ok] at hm
  obtain ⟨cursors,-,rfl⟩ := hm
  exact ⟨rfl,has.chainBlocks⟩

lemma exec_rewind (hs : Fenced capability s)
    (h : exec ext capability s (.rewind call answers clock ids) = .ok t) :
    Fenced capability t ∧ ∃ r height committedHash newHash,
      plan call.worker call.lease answers = .rewind r height committedHash newHash ∧
      Rewound capability s t call.lease r clock := by
  simp only [exec,do_ok] at h
  obtain ⟨hca,h⟩ := h
  split at h
  swap
  · cases h
  rename_i r height committedHash newHash hpl
  simp only [do_ok] at h
  obtain ⟨db,hre,rfl⟩ := h
  have hl := hs.calls call hca
  obtain ⟨safe,-,hj⟩ := plan_eq_judge hpl (.inr ⟨r,height,committedHash,newHash,rfl⟩)
  obtain ⟨-,-,hro⟩ := judge_rewind hj
  obtain ⟨hsh,-,hbo,-,hco⟩ := validateRange_eq_reorg hro
  obtain ⟨⟨hf,hlo⟩,d,hcu,hmo,hbl⟩ := rewindReorg_moves hre
  have hfi : Fits (rewindPoint s.db call.lease r.stored).height
      (rewindPoint s.db call.lease r.stored).hash := by
    have hhe := hl.fits.1
    change r.fromHeight ≤ call.lease.height at hf
    rcases rewindPoint_cases s.db call.lease r.stored with han | ⟨-,-,hp⟩ |
      ⟨-,hpo,hp,-⟩
    · obtain ⟨hme,hbe,-⟩ := commonAncestor_some han
      obtain ⟨b,hb,hrf⟩ := mem_map.mp hme
      have hn := (hsh.mem hb).2.2
      refine ⟨by omega,fun he => absurd ?_ hn⟩
      rw [← he,← hrf]
      rfl
    · rw [hp]
      exact ⟨by norm_num,fun _ => by norm_num⟩
    · change _ = r.fromHeight - 1 at hp
      exact ⟨by omega,fun _ => by omega⟩
  obtain ⟨hfe,hm⟩ := moved_of_row
    (t := { s with
      db := db
      origin := originAfter s call.lease (rewindPoint s.db call.lease r.stored) })
    hs hca rfl hcu hfi hmo
  exact ⟨hfe,r,height,committedHash,newHash,hpl,hsh.own,hbo,hf,hlo,hco, hm,hbl,rfl,rfl⟩

/-- What a committed action did: it left the blocks and positions alone, it committed the range
that its cycle had planned, or it rewound a shard. -/
inductive Stepped (capability : String) (s : World) : Action → World → Prop
  | quiet {a : Action} {t : World} (hquiet : Quiet capability s t) : Stepped capability s a t
  | extended {r : ScannedRange} {t : World} (call : Call) (answers : Answers) (clock : ℤ)
      (hplan : plan call.worker call.lease answers = .commit r)
      (hextended : Extended capability s t call.lease r clock) :
      Stepped capability s (.commit call answers clock) t
  | rewound {r : ScannedRange} {height : ℕ} {committedHash newHash : String} {t : World}
      (call : Call) (answers : Answers) (clock : ℤ) (ids : ReorgIDs)
      (hplan : plan call.worker call.lease answers = .rewind r height committedHash newHash)
      (hrewound : Rewound capability s t call.lease r clock) :
      Stepped capability s (.rewind call answers clock ids) t

lemma exec_stepped {a : Action} (hs : Fenced capability s) (h : exec ext capability s a = .ok t) :
    Fenced capability t ∧ Stepped capability s a t := by
  cases a with
  | start w now => exact (exec_start hs h).imp_right .quiet
  | renew call clock => exact (exec_renew hs h).imp_right .quiet
  | commit call answers clock =>
    obtain ⟨hfe,r,hp,he⟩ := exec_commit hs h
    exact ⟨hfe,.extended call answers clock hp he⟩
  | rewind call answers clock ids =>
    obtain ⟨hfe,r,height,committedHash,newHash,hp,hre⟩ := exec_rewind hs h
    exact ⟨hfe,.rewound call answers clock ids hp hre⟩
  | release call => exact (exec_release hs h).imp_right .quiet
  | other f => exact (exec_other hs h).imp_right .quiet

end

end Ocrypt.ScanRuns
