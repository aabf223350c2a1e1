import Ocrypt.Domain

/-! Double-entry ledger transactions: the balance check of `LedgerTransaction`, what it
accepts, and compensating reversals. -/
namespace Ocrypt.Ledger
open Money Domain Fallible List

inductive EntryDirection
  | debit
  | credit
  deriving DecidableEq, Repr

def EntryDirection.flip : EntryDirection → EntryDirection
  | .debit => .credit
  | .credit => .debit

structure LedgerEntry where
  (accountID assetID : String)
  direction : EntryDirection
  amount : Amount
  sequence : ℕ
  deriving DecidableEq, Repr

structure Totals where
  debit : Amount := .zero
  credit : Amount := .zero
  deriving DecidableEq, Repr

variable (d : EntryDirection) (entries : List LedgerEntry) (v : Totals)

@[simp] lemma EntryDirection.flip_flip : d.flip.flip = d := by
  cases d <;> rfl

variable (byAsset : List (String × Totals)) (asset : String)

/-- The totals recorded for an asset; an asset not seen yet has the zero value. -/
def totalsOf : Totals :=
  (byAsset.lookup asset).getD {}

def setTotals (v : Totals) : List (String × Totals) :=
  (asset,v)::byAsset.filter (fun p => p.1 ≠ asset)

def Totals.post (entry : LedgerEntry) : Except String Totals :=
  match entry.direction with
  | .debit => (v.debit.add entry.amount).map fun d => { v with debit := d }
  | .credit => (v.credit.add entry.amount).map fun c => { v with credit := c }

def postEntry (indexed : LedgerEntry × ℕ) : Except Failure (List (String × Totals)) :=
  let entry := indexed.1
  if entry.assetID = "" ∨ entry.accountID = "" ∨ entry.amount.isZero then
    .error (invariantFailure ("invalid ledger entry " ++ toString indexed.2))
  else
    match (totalsOf byAsset entry.assetID).post entry with
    | .error e => .error (invariantFailure e)
    | .ok v => .ok (setTotals byAsset entry.assetID v)

/-- The last step of the balance check: every asset is debited as much as it is credited. -/
def checkTotals : Except Failure Unit :=
  match byAsset.find? (fun p => p.2.debit.cmp p.2.credit != .eq) with
  | some p => .error (invariantFailure ("debits and credits differ for asset " ++ p.1))
  | none => pure ()

def validateBalanced : Except Failure Unit := do
  require (2 ≤ entries.length)
    (invariantFailure "a ledger transaction requires at least two entries")
  let byAsset ← traverse postEntry entries.zipIdx []
  checkTotals byAsset

def total (direction : EntryDirection) (asset : String) (entries : List LedgerEntry) : ℕ :=
  ((entries.filter fun e => e.direction = direction ∧ e.assetID = asset).map (·.amount.n)).sum

@[simp] lemma total_nil : total d asset [] = 0 := rfl

lemma total_cons (e : LedgerEntry) (es : List LedgerEntry) : total d asset (e::es) =
      (if e.direction = d ∧ e.assetID = asset then e.amount.n else 0)+total d asset es := by
  by_cases h : e.direction = d ∧ e.assetID = asset <;> simp [total,h]

lemma total_append (es fs : List LedgerEntry) :
    total d asset (es ++ fs) = total d asset es+total d asset fs := by
  simp [total]

def Totals.get : EntryDirection → Amount
  | .debit => v.debit
  | .credit => v.credit

lemma Totals.post_eq_ok {v w : Totals} {entry : LedgerEntry} : v.post entry = .ok w ↔
      ∀ d, (w.get d).n = (v.get d).n+if entry.direction = d then entry.amount.n else 0 := by
  have het : ∀ {a b : Totals}, a = b ↔ a.debit.n = b.debit.n ∧ a.credit.n = b.credit.n := by
    rintro ⟨⟨a,_⟩,⟨b,_⟩⟩ ⟨⟨c,_⟩,⟨d,_⟩⟩
    simp
  have hf : ∀ {p : EntryDirection → Prop}, (∀ d, p d) ↔ p .debit ∧ p .credit :=
    ⟨fun h => ⟨h _,h _⟩,fun h d => by cases d; exacts [h.1,h.2]⟩
  rw [hf]
  cases hd : entry.direction with
  | debit =>
    simp only [post,hd,Totals.get,if_true,reduceCtorEq,if_false]
    refine map_eq_ok.trans ⟨?_,fun h => ⟨w.debit,Amount.add_eq_ok.mpr h.1.symm,?_⟩⟩
    · rintro ⟨d,hn,rfl⟩
      exact ⟨(Amount.add_eq_ok.mp hn).symm,rfl⟩
    · exact het.mpr ⟨rfl,h.2.symm⟩
  | credit =>
    simp only [post,hd,Totals.get,if_true,reduceCtorEq,if_false]
    refine map_eq_ok.trans ⟨?_,fun h => ⟨w.credit,Amount.add_eq_ok.mpr h.2.symm,?_⟩⟩
    · rintro ⟨c,hn,rfl⟩
      exact ⟨rfl,(Amount.add_eq_ok.mp hn).symm⟩
    · exact het.mpr ⟨h.1.symm,rfl⟩

def LedgerEntry.WellFormed (e : LedgerEntry) : Prop :=
  e.assetID ≠ "" ∧ e.accountID ≠ "" ∧ e.amount.n ≠ 0

private lemma lookup_filter_ne {β : Type} (m : List (String × β)) {a b : String} (h : b ≠ a) :
    (m.filter (fun p => p.1 ≠ a)).lookup b = m.lookup b := by
  induction m with
  | nil => rfl
  | cons p m ih =>
    obtain ⟨k,v⟩ := p
    by_cases hk : k = a
    · have hb : (b == k) = false := by simp [hk,h]
      rw [filter_cons_of_neg (by simp [hk]),ih,lookup_cons,hb]
    · rw [filter_cons_of_pos (by simp [hk]),lookup_cons,lookup_cons,ih]

lemma totalsOf_setTotals (m : List (String × Totals)) (a b : String) (v : Totals) :
    totalsOf (setTotals m a v) b = if b = a then v else totalsOf m b := by
  unfold totalsOf setTotals
  by_cases h : b = a
  · simp [h]
  · have hb : (b == a) = false := by simp [h]
    rw [lookup_cons,hb,lookup_filter_ne m h,if_neg h]

def Consistent (m : List (String × Totals)) : Prop :=
  ∀ p ∈ m, totalsOf m p.1 = p.2

lemma Consistent.setTotals {m : List (String × Totals)} (hm : Consistent m) (a : String)
    (v : Totals) : Consistent (setTotals m a v) := by
  intro p hp
  rw [totalsOf_setTotals]
  rcases mem_cons.mp hp with rfl | hp
  · exact if_pos rfl
  · obtain ⟨hme,hne⟩ := mem_filter.mp hp
    rw [if_neg (by simpa using hne)]
    exact hm p hme

variable {m m' : List (String × Totals)} {e : LedgerEntry} {i : ℕ} {es : List LedgerEntry} {k : ℕ}

lemma postEntry_eq_ok :
    postEntry m (e,i) = .ok m' ↔ e.WellFormed ∧ ∃ v, (totalsOf m e.assetID).post e = .ok v ∧
        setTotals m e.assetID v = m' := by
  have hwf : e.WellFormed ↔ ¬(e.assetID = "" ∨ e.accountID = "" ∨ e.amount.isZero = true) := by
    rw [Amount.isZero_iff,LedgerEntry.WellFormed]
    tauto
  simp only [postEntry]
  split_ifs with h
  · have hno : ¬e.WellFormed := fun hy => hwf.mp hy h
    simp [hno]
  · have hy : e.WellFormed := hwf.mpr h
    cases (totalsOf m e.assetID).post e <;> simp [hy]

lemma totalsOf_postEntry (h : postEntry m (e,i) = .ok m') (d : EntryDirection) (asset : String) :
    ((totalsOf m' asset).get d).n = ((totalsOf m asset).get d).n+total d asset [e] := by
  obtain ⟨-,v,hv,rfl⟩ := postEntry_eq_ok.mp h
  rw [totalsOf_setTotals,total_cons,total_nil,add_zero]
  by_cases ha : asset = e.assetID
  · rw [if_pos ha,Totals.post_eq_ok.mp hv d,← ha]
    simp
  · rw [if_neg ha,if_neg (fun hc => ha hc.2.symm),add_zero]

lemma traverse_postEntry_spec
    (hm : Consistent m) (h : traverse postEntry (es.zipIdx k) m = .ok m') :
    Consistent m' ∧ (∀ e ∈ es, e.WellFormed) ∧ ∀ d asset,
      ((totalsOf m' asset).get d).n = ((totalsOf m asset).get d).n+total d asset es := by
  induction es generalizing k m with
  | nil =>
    cases h
    simp [hm]
  | cons e es ih =>
    obtain ⟨n,hn,hr⟩ := traverse_cons_eq_ok.mp h
    obtain ⟨hwf,v,-,hse⟩ := postEntry_eq_ok.mp hn
    obtain ⟨hco,hal,hto⟩ := ih (hse ▸ hm.setTotals e.assetID v) hr
    refine ⟨hco,forall_mem_cons.mpr ⟨hwf,hal⟩,fun d asset => ?_⟩
    rw [hto d asset,totalsOf_postEntry hn d asset,total_cons d asset e es,total_cons]
    simp only [total_nil]
    omega

/-- Well-formed entries whose totals fit are all posted. -/
theorem exists_traverse_postEntry {m : List (String × Totals)} (hwf : ∀ e ∈ es, e.WellFormed)
    (hf : ∀ d asset, ((totalsOf m asset).get d).n+total d asset es < 2^256) :
    ∃ m', traverse postEntry (es.zipIdx k) m = .ok m' := by
  induction es generalizing k m with
  | nil => exact ⟨m,rfl⟩
  | cons e es ih =>
    obtain ⟨he,hes⟩ := forall_mem_cons.mp hwf
    have had : ∀ d, ((totalsOf m e.assetID).get d).n +
        (if e.direction = d then e.amount.n else 0) < 2^256 := by
      intro d
      have := hf d e.assetID
      rw [total_cons] at this
      split_ifs with hd <;> simp_all <;> omega
    let v : Totals := ⟨⟨_,had .debit⟩,⟨_,had .credit⟩⟩
    have hv : (totalsOf m e.assetID).post e = .ok v := by
      rw [Totals.post_eq_ok]
      rintro (_ | _) <;> rfl
    have hst : postEntry m (e,k) = .ok (setTotals m e.assetID v) :=
      postEntry_eq_ok.mpr ⟨he,v,hv,rfl⟩
    obtain ⟨m',hm'⟩ := ih (k := k+1) (m := setTotals m e.assetID v) hes (fun d asset => by
      have := hf d asset
      rw [total_cons] at this
      rw [totalsOf_postEntry hst d asset,total_cons,total_nil]
      omega)
    exact ⟨m',traverse_cons_eq_ok.mpr ⟨_,hst,hm'⟩⟩

lemma checkTotals_eq_ok (hm : Consistent m) : checkTotals m = .ok () ↔
      ∀ asset, (totalsOf m asset).debit = (totalsOf m asset).credit := by
  unfold checkTotals
  cases hf : m.find? (fun p => p.2.debit.cmp p.2.credit != .eq) with
  | some p =>
    have hp := mem_of_find?_eq_some hf
    have hne := find?_some hf
    simp only [reduceCtorEq,false_iff,not_forall]
    exact ⟨p.1,by rw [hm p hp]; simpa using hne⟩
  | none =>
    rw [find?_eq_none] at hf
    simp only [pure_eq_ok,true_iff]
    intro asset
    cases hlo : m.lookup asset with
    | none => simp [totalsOf,hlo]
    | some v =>
      obtain ⟨l,r,rfl,-⟩ := lookup_eq_some_iff.mp hlo
      have hme : (asset,v) ∈ l ++ (asset,v)::r := by simp
      simpa [totalsOf,hlo] using hf (asset,v) hme

/-- What the balance check accepts: at least two well-formed entries whose totals fit
256 bits and agree for every asset. -/
theorem validateBalanced_eq_ok {entries : List LedgerEntry} : validateBalanced entries = .ok () ↔
      2 ≤ entries.length ∧ (∀ e ∈ entries, e.WellFormed) ∧
        (∀ d asset, total d asset entries < 2^256) ∧
        ∀ asset, total .debit asset entries = total .credit asset entries := by
  have hem : Consistent [] := fun p hp => absurd hp not_mem_nil
  have hz : ∀ d asset, ((totalsOf [] asset).get d).n = 0 := by
    rintro (_ | _) asset <;> rfl
  simp only [validateBalanced,do_ok]
  refine and_congr_right fun _ => ⟨?_,?_⟩
  · rintro ⟨m,hm,hch⟩
    obtain ⟨hco,hwf,hto⟩ := traverse_postEntry_spec hem hm
    simp only [hz,zero_add] at hto
    refine ⟨hwf,fun d asset => hto d asset ▸ Amount.fits _,fun asset => ?_⟩
    rw [← hto .debit,← hto .credit]
    exact congrArg Amount.n ((checkTotals_eq_ok hco).mp hch asset)
  · rintro ⟨hwf,hfi,hba⟩
    obtain ⟨m,hm⟩ := exists_traverse_postEntry (k := 0) (m := []) hwf (by simpa [hz] using hfi)
    obtain ⟨hco,-,hto⟩ := traverse_postEntry_spec hem hm
    simp only [hz,zero_add] at hto
    refine ⟨m,hm,(checkTotals_eq_ok hco).mpr fun asset => Amount.ext ?_⟩
    exact (hto .debit asset).trans ((hba asset).trans (hto .credit asset).symm)

def invertEntries : List LedgerEntry :=
  entries.map fun e => { e with direction := e.direction.flip }

lemma total_invertEntries (entries : List LedgerEntry) :
    total d asset (invertEntries entries) = total d.flip asset entries := by
  induction entries with
  | nil => rfl
  | cons e es ih =>
    have hf : e.direction.flip = d ↔ e.direction = d.flip := by
      cases e.direction <;> cases d <;> simp [EntryDirection.flip]
    simp only [invertEntries,map_cons] at ih ⊢
    rw [total_cons,total_cons,ih]
    simp [hf]

end Ocrypt.Ledger
