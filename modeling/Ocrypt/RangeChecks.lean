import Ocrypt.Scanner

/-! A scanned range is checked twice: `validateRange` compares the answer of a source with the
range that was asked for, and `ScannerStore.Commit` checks the shape of what it is to store. -/
namespace Ocrypt.RangeChecks
open Domain Fallible Table Store Scanner List

structure Block where
  height : ℕ
  (hash parentHash : String)
  time : ℤ
  deriving DecidableEq, Repr

structure ConfigEvidence where
  (kind logicalKey snapshotID payloadHash : String)
  (version fenceToken : ℤ)
  deriving DecidableEq, Repr

/-- `scanner.RangeBatch` as a source reports it. Slots without a block are left out of a sparse
range; a checkpoint may also leave out blocks that hold no payable transfer. -/
structure ScannedRange where
  (fromHeight toHeight : ℕ)
  blocks : List Block
  events : List TransferEvent
  runtimeEvidence : List ConfigEvidence := []
  sparseBlocks : Bool := false
  indexedCheckpoint : Bool := false
  idleCheckpoint : Bool := false
  deriving DecidableEq, Repr

def Block.ref (b : Block) : BlockRef := ⟨b.height,b.hash⟩

variable (r : ScannedRange) (fromHeight toHeight : ℕ) (lease : Lease)

def ScannedRange.stored : RangeBatch :=
  ⟨r.fromHeight,r.toHeight,r.blocks.map Block.ref,r.events⟩

/-- An error of `validateRange`: a `ReorgError` rewinds the cursor, any other is a gap. -/
inductive RangeFault
  | invalid (text : String)
  | reorg (height : ℕ) (committedHash newHash : String)
  deriving DecidableEq, Repr

def ScannedRange.hashAt? (height : ℕ) : Option String :=
  (r.blocks.reverse.find? (·.height = height)).map (·.hash)

abbrev Placed (fromHeight i : ℕ) (b : Block) : Prop :=
  (r.sparseBlocks = true ∨ b.height = fromHeight+i) ∧ fromHeight ≤ b.height ∧
    b.height ≤ r.toHeight ∧ b.hash ≠ "" ∧ b.time ≠ 0

abbrev gapAllowed (previous b : Block) : Prop :=
  (r.idleCheckpoint = true ∨ r.indexedCheckpoint = true) ∧ previous.height+1 < b.height

def validateLink (b : Block) : Option Block → Except String Unit
  | none => .ok ()
  | some previous => do
    require (previous.height < b.height) ("block order mismatch at " ++ toString b.height)
    require (b.parentHash = previous.hash ∨ gapAllowed r previous b)
      ("parent hash mismatch at " ++ toString b.height)

/-- The loop over the blocks, at offset `i` after the block `previous`. -/
def validateBlocks (r : ScannedRange) (fromHeight : ℕ) :
    ℕ → Option Block → List Block → Except String Unit
  | _, _, [] => .ok ()
  | i, previous, b::rest => do
    require (Placed r fromHeight i b) ("block gap at offset " ++ toString i)
    validateLink r b previous
    validateBlocks r fromHeight (i+1) (some b) rest

def validateEvents : Except String Unit :=
  match r.events.find? (fun e => r.hashAt? e.blockHeight ≠ some e.blockHash) with
  | none => .ok ()
  | some e => .error ("event " ++ e.id ++ " is not bound to a covered block")

/-- The checks of `validateRange` that do not depend on the cursor. The `int` conversion of the
number of heights is exact: no slice has `2 ^ 63` elements. -/
def validateShape : Except String Unit := do
  require (r.idleCheckpoint = true →
      r.sparseBlocks = true ∧ r.events = [] ∧ r.blocks.length ≤ 3) "invalid idle checkpoint range"
  require (r.indexedCheckpoint = true → r.sparseBlocks = true ∧ r.idleCheckpoint = false)
    "invalid indexed checkpoint range"
  require (r.fromHeight = fromHeight ∧ r.toHeight ≤ toHeight ∧ fromHeight ≤ r.toHeight ∧
      r.blocks ≠ []) "range coverage mismatch"
  require (r.sparseBlocks = true ∨
      (r.toHeight = toHeight ∧ r.blocks.length = toHeight - fromHeight+1))
    "range coverage mismatch"
  validateBlocks r fromHeight 0 none r.blocks
  require (∃ b ∈ r.blocks.getLast?, b.height = r.toHeight)
    "range cursor is not bound to the final block"
  validateEvents r

def validateCursor (lease : Lease) : Bool → List Block → Except RangeFault Unit
  | foundCursor, [] =>
    require (foundCursor = true) (.invalid "overlap does not include committed cursor")
  | foundCursor, b::rest =>
    if b.height = lease.height then
      if b.hash = lease.hash then validateCursor lease true rest
      else .error (.reorg b.height lease.hash b.hash)
    else validateCursor lease foundCursor rest

def validateRange (overlap : ℕ) : Except RangeFault Unit :=
  match validateShape r fromHeight toHeight with
  | .error text => .error (.invalid text)
  | .ok () =>
    if 0 < overlap ∧ lease.hash ≠ "" then validateCursor lease false r.blocks
    else .ok ()

/-- The range continues: a higher block, and the child of the one before it unless a checkpoint
leaves out the blocks between them. -/
def Follows (previous b : Block) : Prop :=
  previous.height < b.height ∧ (b.parentHash = previous.hash ∨ gapAllowed r previous b)

/-- The block at the height of the cursor, which the range has, is the committed one. -/
def Overlaps : Prop :=
  (∃ b ∈ r.blocks, b.height = lease.height) ∧
    ∀ b ∈ r.blocks, b.height = lease.height → b.hash = lease.hash

structure Shaped : Prop where
  idle : r.idleCheckpoint = true → r.sparseBlocks = true ∧ r.events = [] ∧ r.blocks.length ≤ 3
  indexed : r.indexedCheckpoint = true → r.sparseBlocks = true ∧ r.idleCheckpoint = false
  bounds : r.fromHeight = fromHeight ∧ r.toHeight ≤ toHeight ∧ fromHeight ≤ r.toHeight ∧
    r.blocks ≠ []
  dense : r.sparseBlocks = true ∨
    (r.toHeight = toHeight ∧ r.blocks.length = toHeight - fromHeight+1)
  placed : ∀ j b, r.blocks[j]? = some b → Placed r fromHeight j b
  linked : r.blocks.IsChain (Follows r)
  ends : ∃ b ∈ r.blocks.getLast?, b.height = r.toHeight
  bound : ∀ e ∈ r.events, r.hashAt? e.blockHeight = some e.blockHash

structure Accepted (overlap : ℕ) :
    Prop extends Shaped r fromHeight toHeight where
  cursor : 0 < overlap → lease.hash ≠ "" → Overlaps r lease

variable {r : ScannedRange} {fromHeight toHeight overlap height : ℕ} {lease : Lease}

section
variable {i : ℕ} {previous : Option Block} {b : Block} {bs : List Block} {found : Bool}
  {committedHash newHash : String}

lemma validateLink_eq_ok : validateLink r b previous = .ok () ↔ ∀ p ∈ previous, Follows r p b := by
  cases previous with
  | none => simp [validateLink]
  | some p => simp [validateLink,Follows]

lemma validateBlocks_eq_ok : validateBlocks r fromHeight i previous bs = .ok () ↔
      (∀ j b, bs[j]? = some b → Placed r fromHeight (i+j) b) ∧
        (previous.toList ++ bs).IsChain (Follows r) := by
  induction bs generalizing i previous with
  | nil => cases previous <;> simp [validateBlocks]
  | cons b rest ih =>
    have hpl : (∀ j c, (b::rest)[j]? = some c → Placed r fromHeight (i+j) c) ↔
        Placed r fromHeight i b ∧
          ∀ j c, rest[j]? = some c → Placed r fromHeight (i+1+j) c := by
      constructor
      · intro h
        refine ⟨h 0 b rfl,fun j c hc => ?_⟩
        have := h (j+1) c hc
        rwa [show i+1+j = i+(j+1) by omega]
      · rintro ⟨hf,hre⟩ j c hc
        cases j with
        | zero =>
          cases hc
          exact hf
        | succ j =>
          rw [show i+(j+1) = i+1+j by omega]
          exact hre j c hc
    have hch : (previous.toList ++ b::rest).IsChain (Follows r) ↔
        (∀ p ∈ previous, Follows r p b) ∧ (b::rest).IsChain (Follows r) := by
      cases previous <;> simp
    simp only [validateBlocks,do_ok,require_eq_ok,exists_const,exists_and_right,exists_unit_ok,
      validateLink_eq_ok,ih]
    tauto

lemma validateEvents_eq_ok :
    validateEvents r = .ok () ↔ ∀ e ∈ r.events, r.hashAt? e.blockHeight = some e.blockHash := by
  unfold validateEvents
  cases hf : r.events.find? (fun e => r.hashAt? e.blockHeight ≠ some e.blockHash) with
  | none =>
    have hal := find?_eq_none.mp hf
    simpa using hal
  | some e =>
    have hn := find?_some hf
    have hm := mem_of_find?_eq_some hf
    simp only [reduceCtorEq,false_iff]
    intro hal
    simp [hal e hm] at hn

lemma validateCursor_eq_ok :
    validateCursor lease found bs = .ok () ↔ (found = true ∨ ∃ b ∈ bs, b.height = lease.height) ∧
        ∀ b ∈ bs, b.height = lease.height → b.hash = lease.hash := by
  induction bs generalizing found with
  | nil => simp [validateCursor]
  | cons b rest ih =>
    unfold validateCursor
    split_ifs with hh hha
    · simp [ih,hh,hha]
    · simp [hh,hha]
    · simp [ih,hh]

lemma validateShape_eq_ok :
    validateShape r fromHeight toHeight = .ok () ↔ Shaped r fromHeight toHeight := by
  simp only [validateShape,do_ok,require_eq_ok,exists_const,exists_and_right,exists_unit_ok,
    validateBlocks_eq_ok,validateEvents_eq_ok,Nat.zero_add]
  constructor
  · rintro ⟨h1,h2,h3,h4,⟨h5,h6⟩,h7,h8⟩
    exact ⟨h1,h2,h3,h4,h5,h6,h7,h8⟩
  · rintro ⟨h1,h2,h3,h4,h5,h6,h7,h8⟩
    exact ⟨h1,h2,h3,h4,⟨h5,h6⟩,h7,h8⟩

lemma validateRange_eq_ok : validateRange r fromHeight toHeight lease overlap = .ok () ↔
    Accepted r fromHeight toHeight lease overlap := by
  unfold validateRange
  cases hsa : validateShape r fromHeight toHeight with
  | error text =>
    have hn : ¬Shaped r fromHeight toHeight := by
      rw [← validateShape_eq_ok,hsa]
      simp
    simp only [reduceCtorEq,false_iff]
    exact fun hac => hn hac.toShaped
  | ok u =>
    have hsh := validateShape_eq_ok.mp hsa
    by_cases h : 0 < overlap ∧ lease.hash ≠ ""
    · simp only [if_pos h,validateCursor_eq_ok,Bool.false_eq_true,false_or]
      exact ⟨fun hcu => ⟨hsh,fun _ _ => hcu⟩,fun hac => hac.cursor h.1 h.2⟩
    · simp only [if_neg h,true_iff]
      exact ⟨hsh,fun hp hha => absurd ⟨hp,hha⟩ h⟩

lemma validateCursor_eq_reorg
    (h : validateCursor lease found bs = .error (.reorg height committedHash newHash)) :
    height = lease.height ∧ committedHash = lease.hash ∧
      ∃ b ∈ bs, b.height = lease.height ∧ b.hash = newHash ∧ newHash ≠ lease.hash := by
  induction bs generalizing found with
  | nil => simp [validateCursor] at h
  | cons b rest ih =>
    unfold validateCursor at h
    split_ifs at h with hhe hha
    · obtain ⟨h1,h2,c,hc,hf⟩ := ih h
      exact ⟨h1,h2,c,mem_cons_of_mem b hc,hf⟩
    · obtain ⟨rfl,rfl,rfl⟩ := h
      exact ⟨hhe,rfl,b,mem_cons_self,hhe,rfl,hha⟩
    · obtain ⟨h1,h2,c,hc,hf⟩ := ih h
      exact ⟨h1,h2,c,mem_cons_of_mem b hc,hf⟩

/-- A reorganisation is reported only for a range with another block at the cursor. -/
theorem validateRange_eq_reorg (h : validateRange r fromHeight toHeight lease overlap =
      .error (.reorg height committedHash newHash)) :
    Shaped r fromHeight toHeight ∧ 0 < overlap ∧ lease.hash ≠ "" ∧ height = lease.height ∧
      ∃ b ∈ r.blocks, b.height = lease.height ∧ b.hash ≠ lease.hash := by
  unfold validateRange at h
  split at h
  · simp at h
  rename_i hsh
  split_ifs at h with hco
  obtain ⟨hhe,-,b,hb,hbh,rfl,hne⟩ := validateCursor_eq_reorg h
  exact ⟨validateShape_eq_ok.mp hsh,hco.1,hco.2,hhe,b,hb,hbh,hne⟩

section
variable (h : Shaped r fromHeight toHeight)
include h

lemma Shaped.head_of_dense
    (hd : r.sparseBlocks = false) : ∃ b ∈ r.blocks.head?, b.height = fromHeight := by
  cases hbl : r.blocks with
  | nil => exact absurd hbl h.bounds.2.2.2
  | cons b rest =>
    have hp := h.placed 0 b (by rw [hbl]; rfl)
    simpa [hd] using hp.1

lemma Shaped.own : Shaped r r.fromHeight r.toHeight := by
  obtain ⟨hf,hto,hlo,hne⟩ := h.bounds
  subst hf
  refine ⟨h.idle,h.indexed,⟨rfl,le_rfl,hlo,hne⟩,?_,h.placed,h.linked,h.ends,h.bound⟩
  rcases h.dense with hsp | ⟨he,hl⟩
  · exact .inl hsp
  · exact .inr ⟨rfl,he ▸ hl⟩

lemma Shaped.mem (hb : b ∈ r.blocks) :
    fromHeight ≤ b.height ∧ b.height ≤ r.toHeight ∧ b.hash ≠ "" := by
  obtain ⟨j,hj⟩ := getElem?_of_mem hb
  have hp := h.placed j b hj
  exact ⟨hp.2.1,hp.2.2.1,hp.2.2.2.1⟩

lemma Shaped.ordered : r.blocks.Pairwise fun p b => p.height < b.height := by
  have hch := h.linked.imp fun _ _ hf => hf.1
  exact isChain_iff_pairwise.mp hch

lemma Shaped.block_at (hd : r.sparseBlocks = false) {k : ℕ}
    (hl : fromHeight ≤ k) (hu : k ≤ r.toHeight) : ∃ b ∈ r.blocks, b.height = k := by
  have hf : r.toHeight = toHeight ∧ r.blocks.length = toHeight - fromHeight+1 := by
    simpa [hd] using h.dense
  have hk : k - fromHeight < r.blocks.length := by omega
  have hg := getElem?_eq_getElem hk
  have hp := (h.placed _ _ hg).1
  refine ⟨r.blocks[k - fromHeight],getElem_mem hk,?_⟩
  simp only [hd,Bool.false_eq_true,false_or] at hp
  omega

end

end

def isLowerHex (c : Char) : Bool := ('0' ≤ c && c ≤ '9') || ('a' ≤ c && c ≤ 'f')

/-- `ids.Valid`, the canonical lowercase text of a UUID. A text that passes has one byte for each
character. -/
def validID (value : String) : Bool :=
  let cs := value.toList
  let dashes := [8,13,18,23]
  value.utf8ByteSize = 36 && dashes.all (fun i => cs[i]? = some '-') &&
    cs.zipIdx.all (fun ci => ci.2 ∈ dashes || isLowerHex ci.1) &&
    cs[19]?.any (· ∈ ['8','9','a','b']) && cs[14]?.any fun c => '1' ≤ c && c ≤ '8'

abbrev ConfigEvidence.Valid (e : ConfigEvidence) : Prop :=
  e.kind ≠ "" ∧ e.logicalKey ≠ "" ∧ validID e.snapshotID = true ∧
    e.payloadHash.utf8ByteSize = 64 ∧ 1 ≤ e.version ∧ 1 ≤ e.fenceToken

/-- The checks that `ScannerStore.Commit` makes before it opens its transaction. -/
def commitShape (lease : Lease) (r : ScannedRange) : Except Failure Unit := do
  checkRange lease r.stored
  require (∀ e ∈ r.runtimeEvidence, e.Valid)
    ⟨.invariantViolation,"invalid scanner runtime evidence"⟩

/-- `ScannerStore.Commit` of a whole range. -/
def commit (ext : Externals) (capability : String) (db : Database) (lease : Lease)
    (r : ScannedRange) (clock : ℤ) : Except Failure Database := do
  commitShape lease r
  storeRange ext capability db lease r.stored clock

section
variable {failure : Failure} {clock : ℤ} {ext : Externals} {capability : String} {db : Database}

lemma hashAt_stored (height : ℕ) : r.stored.hashAt height = (r.hashAt? height).getD "" := by
  simp only [RangeBatch.hashAt,ScannedRange.stored,← map_reverse,find?_map,Option.map_map]
  rfl

lemma commitShape_eq_ok : commitShape lease r = .ok () ↔ (Named lease ∧ r.fromHeight ≤ r.toHeight ∧
      (∃ b ∈ r.blocks.head?, b.height = r.fromHeight) ∧
      ∃ b ∈ r.blocks.getLast?, b.height = r.toHeight) ∧
    (∀ e ∈ r.events, e.identity.chainID = lease.chainID ∧
      (r.hashAt? e.blockHeight).getD "" = e.blockHash) ∧ ∀ e ∈ r.runtimeEvidence, e.Valid := by
  have hre : ∀ (o : Option Block) (height : ℕ),
      (∃ b ∈ o.map Block.ref, b.height = height) ↔ ∃ b ∈ o, b.height = height := by
    simp [Block.ref]
  simp only [commitShape,checkRange,do_eq_ok,require_eq_ok,exists_const,hashAt_stored]
  simp only [ScannedRange.stored,head?_map,getLast?_map,hre,and_assoc]

lemma enqueueTransfer_error {chainID : String} {queue : List QueuedTransfer} {event : TransferEvent}
    (hk : event.identity.validate = .ok ())
    (h : enqueueTransfer ext chainID clock queue event = .error failure) :
    failure.kind = .database := by
  have hd : event.identity.key ext.hashing.sha256Hex =
      .ok (ext.hashing.sha256Hex event.identity.payload) :=
    EventIdentity.key_eq_ok.mpr ⟨hk,rfl⟩
  simp only [enqueueTransfer,hd] at h
  split_ifs at h
  rw [← insertUnique_eq_error h]
  rfl

lemma moveCursor_error {hash : String}
    (h : moveCursor capability db lease height hash clock = .error failure) :
    failure = leaseLost := by
  rcases do_eq_error.mp h with h | ⟨cursors,-,h⟩
  · exact (updateOne_eq_error h).symm
  · cases h

lemma storeRange_error (hk : ∀ e ∈ r.events, e.identity.validate = .ok ())
    (h : storeRange ext capability db lease r.stored clock = .error failure) :
    failure = leaseLost ∨ failure.kind = .database := by
  rcases do_eq_error.mp h with h | ⟨queue,-,h⟩
  · obtain ⟨t,e,he,hfa⟩ := exists_of_traverse_eq_error h
    exact .inr (enqueueTransfer_error (hk e he) hfa)
  rcases do_eq_error.mp h with h | ⟨d,-,h⟩
  · exact .inl (moveCursor_error h)
  · cases h

/-- A validated range of the chain of its lease passes the shape checks of the commit exactly if
the lease is named, the configuration it was scanned under is in order and, for a sparse range,
its first slot has a block; it then fails to commit on the lease or in the database only. -/
theorem validated_range_commits_iff
    (hvalid : validateRange r fromHeight toHeight lease overlap = .ok ())
    (hchain : ∀ e ∈ r.events, e.identity.chainID = lease.chainID) :
    (commitShape lease r = .ok () ↔ Named lease ∧ (∀ e ∈ r.runtimeEvidence, e.Valid) ∧
      (r.sparseBlocks = true → ∃ b ∈ r.blocks.head?, b.height = fromHeight)) ∧
    (commitShape lease r = .ok () → (∀ e ∈ r.events, e.identity.validate = .ok ()) →
      ∀ ext capability db clock failure, commit ext capability db lease r clock = .error failure →
          failure = leaseLost ∨ failure.kind = .database) := by
  have hac := validateRange_eq_ok.mp hvalid
  have hbo := hac.bounds
  constructor
  · rw [commitShape_eq_ok]
    constructor
    · rintro ⟨⟨hn,-,hhe,-⟩,-,hev⟩
      refine ⟨hn,hev,fun _ => ?_⟩
      rwa [hbo.1] at hhe
    · rintro ⟨hn,hev,hsp⟩
      have hhe : ∃ b ∈ r.blocks.head?, b.height = r.fromHeight := by
        rw [hbo.1]
        cases hm : r.sparseBlocks with
        | true => exact hsp hm
        | false => exact hac.head_of_dense hm
      refine ⟨⟨hn,by omega,hhe,hac.ends⟩,fun e he => ?_,hev⟩
      rw [hac.bound e he]
      exact ⟨hchain e he,rfl⟩
  · intro hsh hk ext capability db clock failure h
    rcases do_eq_error.mp h with h | ⟨-,-,h⟩
    · rw [hsh] at h
      cases h
    · exact storeRange_error hk h

end

def sampleSlots : List Block :=
  [⟨9,"slot-9","slot-7",90⟩,⟨10,"slot-10","slot-9",100⟩,⟨11,"slot-11","slot-10",110⟩]

def sampleSparse (fromHeight : ℕ) : ScannedRange :=
  { fromHeight := fromHeight, toHeight := 11, blocks := sampleSlots, events := [],
    sparseBlocks := true }

def sampleSlotLease : Lease := ⟨"solana","shard","scanner",10,"slot-10",5⟩

theorem validated_range_commits_iff_slots :
    validateRange (sampleSparse 9) 9 11 sampleSlotLease 2 = .ok () ∧
      commitShape sampleSlotLease (sampleSparse 9) = .ok () := by
  have hv : validateRange (sampleSparse 9) 9 11 sampleSlotLease 2 = .ok () := by decide
  have hch : ∀ e ∈ (sampleSparse 9).events, e.identity.chainID = sampleSlotLease.chainID := by
    decide
  exact ⟨hv,(validated_range_commits_iff hv hch).1.mpr (by decide)⟩

/-- The overlap of three slots below the cursor at slot 10 starts at slot 8, which has no block:
the range is validated and the commit refuses it. -/
theorem skipped_slot_refused : validateRange (sampleSparse 8) 8 11 sampleSlotLease 3 = .ok () ∧
      (∀ e ∈ (sampleSparse 8).events, e.identity.chainID = sampleSlotLease.chainID) ∧
      commitShape sampleSlotLease (sampleSparse 8) =
        .error ⟨.unwrapped,"invalid scanner commit"⟩ := by
  decide

end Ocrypt.RangeChecks
