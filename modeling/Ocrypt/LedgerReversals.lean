import Ocrypt.Ledger

/-! Ledger transactions as they are handed to the checks, with entries in any direction: what
`ValidateBalanced` accepts, and what `NewLedgerReversal` makes of it. -/
namespace Ocrypt.LedgerReversals
open Money Domain Fallible Ledger List

/-- An entry; its direction is nothing when it is another text than debit or credit. -/
structure Posting where
  (accountID assetID : String)
  direction : Option EntryDirection
  amount : Amount
  sequence : ℕ
  deriving DecidableEq

structure LedgerTransaction where
  (id businessType businessRef reversalOf : String)
  (effectiveAt bookedAt : ℤ)
  correlationID : String
  entries : List Posting
  deriving DecidableEq

def post (byAsset : List (String × Totals)) (indexed : Posting × ℕ) :
    Except Failure (List (String × Totals)) :=
  let p := indexed.1
  match p.direction with
  | some d => postEntry byAsset (⟨p.accountID,p.assetID,d,p.amount,p.sequence⟩,indexed.2)
  | none => .error (invariantFailure (if p.assetID = "" ∨ p.accountID = "" ∨ p.amount.isZero then
        "invalid ledger entry " ++ toString indexed.2 else "invalid ledger direction"))

def LedgerTransaction.validateBalanced (t : LedgerTransaction) : Except Failure Unit := do
  require (2 ≤ t.entries.length)
    (invariantFailure "a ledger transaction requires at least two entries")
  let byAsset ← traverse post t.entries.zipIdx []
  checkTotals byAsset

def Posting.reversed (p : Posting) : Posting :=
  { p with direction := if p.direction = some .debit then some .credit else some .debit }

def newLedgerReversal (original : LedgerTransaction) (id businessReference correlationID : String)
    (now : ℤ) : Except Failure LedgerTransaction := do
  original.validateBalanced
  require (original.id ≠ "" ∧ original.reversalOf = "" ∧ id ≠ "" ∧ businessReference ≠ "")
    ⟨.validation,"invalid ledger reversal request"⟩
  let reversal : LedgerTransaction := ⟨id,original.businessType ++ ".reversal",businessReference,
    original.id,now,now,correlationID,original.entries.map Posting.reversed⟩
  reversal.validateBalanced
  pure reversal

/-- At least two proper entries, whose totals agree for every asset and fit 256 bits. -/
structure Balanced (es : List LedgerEntry) : Prop where
  two : 2 ≤ es.length
  proper : ∀ e ∈ es, e.accountID ≠ "" ∧ e.assetID ≠ "" ∧ 0 < e.amount.n
  equal : ∀ asset, total .debit asset es = total .credit asset es
  fits : ∀ d asset, total d asset es ≤ 2^256 - 1

def Posting.signed (p : Posting) : ℤ :=
  match p.direction with
  | some .debit => p.amount.n
  | some .credit => -p.amount.n
  | none => 0

variable (account asset : String)

def net (ps : List Posting) : ℤ :=
  ((ps.filter fun p => p.accountID = account ∧ p.assetID = asset).map Posting.signed).sum

def posting (e : LedgerEntry) : Posting :=
  ⟨e.accountID,e.assetID,some e.direction,e.amount,e.sequence⟩

variable {es : List LedgerEntry} {ps : List Posting} {t : LedgerTransaction} {k : ℕ}
  {m m' : List (String × Totals)}

lemma exists_entries_of_traverse (h : traverse post (ps.zipIdx k) m = .ok m') :
    ∃ es : List LedgerEntry, ps = es.map posting := by
  induction ps generalizing k m with
  | nil => exact ⟨[],rfl⟩
  | cons p ps ih =>
    obtain ⟨n,hn,hr⟩ := traverse_cons_eq_ok.mp h
    obtain ⟨es,rfl⟩ := ih hr
    cases hd : p.direction with
    | none => simp [post,hd] at hn
    | some d => exact ⟨⟨p.accountID,p.assetID,d,p.amount,p.sequence⟩::es,by simp [posting,← hd]⟩

lemma traverse_post_posting :
    traverse post ((es.map posting).zipIdx k) m = traverse postEntry (es.zipIdx k) m := by
  induction es generalizing k m with
  | nil => rfl
  | cons e es ih =>
    exact congrArg _ (funext fun n => ih)

lemma validateBalanced_posting (h : t.entries = es.map posting) :
    t.validateBalanced = .ok () ↔ Balanced es := by
  have hv : t.validateBalanced = Ledger.validateBalanced es := by
    simp only [LedgerTransaction.validateBalanced,h,traverse_post_posting,length_map]
    rfl
  rw [hv,validateBalanced_eq_ok]
  constructor
  · rintro ⟨ht,hw,hf,he⟩
    exact ⟨ht,fun e he => ⟨(hw e he).2.1,(hw e he).1,Nat.pos_of_ne_zero (hw e he).2.2⟩,he,
      fun d asset => Nat.le_sub_one_of_lt (hf d asset)⟩
  · rintro ⟨ht,hw,he,hf⟩
    exact ⟨ht,fun e he => ⟨(hw e he).2.1,(hw e he).1,(hw e he).2.2.ne'⟩,
      fun d asset => Nat.lt_of_le_sub_one (by decide) (hf d asset),he⟩

lemma validateBalanced_iff :
    t.validateBalanced = .ok () ↔ ∃ es, t.entries = es.map posting ∧ Balanced es := by
  constructor
  · intro h
    obtain ⟨es,he⟩ : ∃ es : List LedgerEntry, t.entries = es.map posting := by
      simp only [LedgerTransaction.validateBalanced,do_ok] at h
      obtain ⟨-,m,hm,-⟩ := h
      exact exists_entries_of_traverse hm
    exact ⟨es,he,(validateBalanced_posting he).mp h⟩
  · rintro ⟨es,he,hb⟩
    exact (validateBalanced_posting he).mpr hb

lemma map_reversed_posting :
    (es.map posting).map Posting.reversed = (invertEntries es).map posting := by
  simp only [invertEntries,map_map]
  refine map_congr_left fun e _ => ?_
  cases hd : e.direction <;> simp [posting,Posting.reversed,EntryDirection.flip,hd]

lemma Balanced.inverted (h : Balanced es) : Balanced (invertEntries es) := by
  refine ⟨by simpa [invertEntries] using h.two,fun e he => ?_,fun asset => ?_,fun d asset => ?_⟩
  · obtain ⟨e₀,he₀,rfl⟩ := mem_map.mp he
    exact h.proper e₀ he₀
  · rw [total_invertEntries,total_invertEntries]
    exact (h.equal asset).symm
  · rw [total_invertEntries]
    exact h.fits _ asset

lemma net_append (ps qs : List Posting) :
    net account asset (ps ++ qs) = net account asset ps+net account asset qs := by
  simp [net]

lemma net_inverted (es : List LedgerEntry) :
    net account asset ((invertEntries es).map posting) = -net account asset (es.map posting) := by
  induction es with
  | nil => rfl
  | cons e es ih =>
    have hs : net account asset [posting { e with direction := e.direction.flip }] =
        -net account asset [posting e] := by
      by_cases hk : e.accountID = account ∧ e.assetID = asset <;>
        cases hd : e.direction <;> simp [net,posting,Posting.signed,EntryDirection.flip,hk,hd]
    have hl := net_append account asset [posting { e with direction := e.direction.flip }]
      ((invertEntries es).map posting)
    have hr := net_append account asset [posting e] (es.map posting)
    simp only [singleton_append] at hl hr
    rw [map_cons,hr,neg_add,← hs,← ih]
    exact hl

/-- What the balance check accepts. An accepted transaction with an identifier that is no reversal
itself can be reversed under any identifier and reference; the reversal is balanced, and the two
together leave nothing on any account. -/
theorem ledger_reversal_nets (t : LedgerTransaction) :
    (t.validateBalanced = .ok () ↔ ∃ es, t.entries = es.map posting ∧ Balanced es) ∧
    ∀ id businessReference correlationID now,
      ((∃ r, newLedgerReversal t id businessReference correlationID now = .ok r) ↔
        t.validateBalanced = .ok () ∧ t.id ≠ "" ∧ t.reversalOf = "" ∧ id ≠ "" ∧
          businessReference ≠ "") ∧
      ∀ r, newLedgerReversal t id businessReference correlationID now = .ok r →
        r.validateBalanced = .ok () ∧
          ∀ account asset, net account asset (t.entries ++ r.entries) = 0 := by
  refine ⟨validateBalanced_iff,fun id ref correlationID now => ⟨?_,fun r hr => ?_⟩⟩
  · simp only [newLedgerReversal,do_eq_ok,exists_require]
    constructor
    · rintro ⟨r,_,hb,hq,-⟩
      exact ⟨hb,hq⟩
    · rintro ⟨hb,hq⟩
      obtain ⟨es,he,hes⟩ := validateBalanced_iff.mp hb
      refine ⟨_,(),hb,hq,(),validateBalanced_iff.mpr ⟨invertEntries es,?_,hes.inverted⟩,rfl⟩
      rw [he,map_reversed_posting]
  · simp only [newLedgerReversal,do_eq_ok,exists_require,pure_eq_ok] at hr
    obtain ⟨_,hb,-,_,hv,rfl⟩ := hr
    obtain ⟨es,he,-⟩ := validateBalanced_iff.mp hb
    refine ⟨hv,fun account asset => ?_⟩
    rw [he,map_reversed_posting,net_append,net_inverted]
    ring

end Ocrypt.LedgerReversals
