import Ocrypt.DecimalText

/-! The totals of a reconciliation report: amounts of any length are added digit by digit, for each
asset and direction. -/
namespace Ocrypt.ReportTotals
open Money Fallible DecimalText List

-- A condition on the elements of a list is decided on the list, also where the type is finite.
attribute [local instance (high)] List.decidableBAll

abbrev UintString := List Char

def parseUintString (value : String) : Except String UintString := do
  require (¬(value = "" ∨ value ≠ "0" ∧ value.toList.head? = some '0')) "invalid uint string"
  require (Digits value.toList) "invalid uint string"
  pure value.toList

/-- The digit at an offset from the right, zero beyond the first. -/
def digitAt (digits : UintString) (offset : ℕ) : ℕ :=
  if offset < digits.length then (digits.getD (digits.length - 1 - offset) '0').toNat - '0'.toNat else 0

/-- One turn of the loop on the digits written so far and the carry. -/
def addDigit (left right : UintString) (state : UintString × ℕ) (offset : ℕ) : UintString × ℕ :=
  let sum := digitAt left offset+digitAt right offset+state.2
  ((sum % 10).digitChar::state.1,sum / 10)

def addUintString (left right : UintString) : UintString :=
  let left := if left = [] then ['0'] else left
  let (result,carry) := (range (max left.length right.length)).foldl (addDigit left right) ([],0)
  if 0 < carry then carry.digitChar::result else result

def UintString.text (v : UintString) : String := if v = [] then "0" else String.ofList v

/-- The columns of a row that are added up, and the length of the line that all its columns make. -/
structure ReportEntry where
  (assetId direction amountAtomic : String)
  size : ℕ

structure Pair where
  (debit credit : UintString)

structure Running where
  assets : List String
  totals : String → Pair
  count : ℕ
  bytes : ℕ

def Pair.add (total : Pair) (direction : String) (amount : UintString) : Except String Pair :=
  if direction = "debit" then .ok { total with debit := addUintString total.debit amount }
  else if direction = "credit" then .ok { total with credit := addUintString total.credit amount }
  else .error "invalid ledger direction"

structure ReportTotal where
  (assetId debitAtomic creditAtomic : String)

structure ReportFooter where
  entryCount : String
  totals : List ReportTotal

/-- What the worker admits of a report, and the lengths of its first and its last line. -/
structure Quota where
  (maxEntries maxBytes header : ℕ)
  footer : ReportFooter → ℕ

def errReportQuota : String := "reconciliation report exceeds admitted quota"

/-- `countWriter.Write`. -/
def Quota.write (q : Quota) (count size : ℕ) : Except String ℕ := do
  require (count+size ≤ q.maxBytes) errReportQuota
  pure (count+size)

def addEntry (q : Quota) (s : Running) (entry : ReportEntry) : Except String Running := do
  require (s.count < q.maxEntries) errReportQuota
  let bytes ← q.write s.bytes entry.size
  let amount ← parseUintString entry.amountAtomic
  let total ← (s.totals entry.assetId).add entry.direction amount
  pure ⟨if entry.assetId ∈ s.assets then s.assets else s.assets ++ [entry.assetId],
    Function.update s.totals entry.assetId total,s.count+1,bytes⟩

def Running.footer (s : Running) : ReportFooter :=
  ⟨s.count.repr,(s.assets.mergeSort (· ≤ ·)).map fun asset =>
    ⟨asset,UintString.text (s.totals asset).debit,UintString.text (s.totals asset).credit⟩⟩

/-- The query asks for one row more than the quota, which the loop then refuses. -/
def generate (q : Quota) (rows : List ReportEntry) : Except String (ReportFooter × ℕ) := do
  let bytes ← q.write 0 q.header
  let s ← traverse (addEntry q) (rows.take (q.maxEntries+1)) ⟨[],fun _ => ⟨[],[]⟩,0,bytes⟩
  let bytes ← q.write s.bytes (q.footer s.footer)
  pure (s.footer,bytes)

section
variable {l left right : UintString} {value : String} {k : ℕ}

lemma parseUintString_eq_ok : parseUintString value = .ok l ↔ Canonical value.toList ∧ value.toList = l := by
  simp only [parseUintString,do_ok]
  rw [← and_assoc]
  refine and_congr_left fun _ => ⟨fun h => ⟨?_,h.2,fun hz => ?_⟩,fun h => ⟨?_,h.digits⟩⟩
  · exact fun hn => h.1 (.inl (by simpa using hn))
  · by_contra hne
    exact h.1 (.inr ⟨fun he => hne (by rw [he]; rfl),hz⟩)
  · rintro (rfl | ⟨hne,hz⟩)
    · exact h.ne_nil rfl
    · exact hne (String.toList_inj.mp (h.zero hz))

lemma decimalValue_cons {c : Char} :
    decimalValue (c::l) = (c.toNat - '0'.toNat)*10^l.length+decimalValue l := by
  have h : decimalValue [c] = c.toNat - '0'.toNat := by simp [decimalValue]
  rw [← h]
  exact decimalValue_append (l := [c])

/-- The number the last digits stand for. -/
def low (l : UintString) (k : ℕ) : ℕ := decimalValue (l.drop (l.length - k))

lemma low_succ : low l (k+1) = digitAt l k*10^k+low l k := by
  unfold low digitAt
  split_ifs with h
  · have hlt : l.length - 1 - k < l.length := by omega
    rw [show l.length - (k+1) = l.length - 1 - k by omega,drop_eq_getElem_cons hlt,decimalValue_cons,
      show l.length - 1 - k+1 = l.length - k by omega,length_drop,getD_eq_getElem?_getD,
      getElem?_eq_getElem hlt,Option.getD_some,
      show l.length - (l.length - k) = k by omega]
  · rw [show l.length - (k+1) = l.length - k by omega,Nat.zero_mul,Nat.zero_add]

lemma digitAt_le (h : Digits l) : digitAt l k ≤ 9 := by
  unfold digitAt
  split_ifs with hk
  · have hlt : l.length - 1 - k < l.length := by omega
    rw [getD_eq_getElem?_getD,getElem?_eq_getElem hlt]
    have := (Char.isDigit_iff_toNat.mp (h _ (getElem_mem hlt))).2
    exact Nat.sub_le_sub_right this _
  · exact Nat.zero_le _

lemma digitChar_digit {n : ℕ} (h : n ≤ 9) :
    n.digitChar.isDigit = true ∧ n.digitChar.toNat - '0'.toNat = n := by
  interval_cases n <;> decide

/-- After some turns the digits written and the carry make up the sum of the last digits. -/
lemma addDigit_loop (hl : Digits left) (hr : Digits right) (k : ℕ) :
    let state := (range k).foldl (addDigit left right) ([],0)
    state.1.length = k ∧ (Digits state.1) ∧ state.2 ≤ 1 ∧
      state.2*10^k+decimalValue state.1 = low left k+low right k := by
  induction k with
  | zero => simp [low,decimalValue,Digits]
  | succ k ih =>
    rw [range_succ,foldl_append]
    obtain ⟨hlen,hd,hc,hv⟩ := ih
    generalize (range k).foldl (addDigit left right) ([],0) = state at *
    have h9 := digitAt_le (k := k) hl
    have h9' := digitAt_le (k := k) hr
    simp only [foldl_cons,foldl_nil,addDigit]
    set sum := digitAt left k+digitAt right k+state.2
    obtain ⟨hdig,hval⟩ := digitChar_digit (n := sum % 10) (by omega)
    refine ⟨by rw [length_cons,hlen],forall_mem_cons.mpr ⟨hdig,hd⟩,by omega,?_⟩
    rw [decimalValue_cons,hval,hlen,low_succ,low_succ]
    have hs := Nat.div_add_mod' sum 10
    calc sum / 10*(10^k*10)+(sum % 10*10^k+decimalValue state.1)
        = (sum / 10*10+sum % 10)*10^k+decimalValue state.1 := by ring
      _ = (digitAt left k+digitAt right k)*10^k+(state.2*10^k+decimalValue state.1) := by
          rw [hs]
          ring
      _ = _ := by
          rw [hv]
          ring

lemma decimalValue_lt (h : Digits l) : decimalValue l < 10^l.length := by
  induction l with
  | nil => simp [decimalValue]
  | cons c l ih =>
    obtain ⟨hc,hl⟩ := forall_mem_cons.mp h
    have h9 : c.toNat - '0'.toNat ≤ 9 := Nat.sub_le_sub_right (Char.isDigit_iff_toNat.mp hc).2 _
    rw [decimalValue_cons,length_cons,pow_succ]
    nlinarith [ih hl]

/-- A canonical number of several digits is as large as its length says. -/
lemma Canonical.pow_le (h : Canonical l) (hl : 1 < l.length) : 10^(l.length - 1) ≤ decimalValue l := by
  cases l with
  | nil => simp at hl
  | cons c l =>
    have hne : c ≠ '0' := by
      rintro rfl
      simp [h.zero rfl] at hl
    have hd := Char.isDigit_iff_toNat.mp (h.digits c mem_cons_self)
    have hn : c.toNat ≠ '0'.toNat := fun he => hne (Char.toNat_inj.mp he)
    rw [decimalValue_cons,length_cons,Nat.add_sub_cancel]
    nlinarith [show 1 ≤ c.toNat - '0'.toNat by omega,Nat.zero_le (10^l.length)]

lemma low_of_length_le (h : l.length ≤ k) : low l k = decimalValue l := by
  rw [low,Nat.sub_eq_zero_of_le h,drop_zero]

/-- A running total: empty before the first amount, canonical from then on. -/
def Holds (total : UintString) (n : ℕ) : Prop :=
  (total = [] ∨ Canonical total) ∧ decimalValue total = n

lemma addUintString_canonical {n : ℕ} (hl : Holds left n) (hr : Canonical right) :
    Canonical (addUintString left right) ∧
      decimalValue (addUintString left right) = n+decimalValue right := by
  obtain ⟨left',hleft,hc,hn⟩ : ∃ left', (if left = [] then ['0'] else left) = left' ∧
      Canonical left' ∧ decimalValue left' = n := by
    refine ⟨_,rfl,?_⟩
    rcases hl with ⟨rfl | hc,hn⟩
    · exact ⟨canonical_zero,hn⟩
    · rw [if_neg hc.ne_nil]
      exact ⟨hc,hn⟩
  obtain ⟨hlen,hd,hcarry,hv⟩ := addDigit_loop hc.digits hr.digits (max left'.length right.length)
  rw [low_of_length_le (le_max_left _ _),low_of_length_le (le_max_right _ _)] at hv
  simp only [addUintString,hleft]
  generalize (range (max left'.length right.length)).foldl (addDigit left' right) ([],0) = state at *
  obtain ⟨result,carry⟩ := state
  have hpos := length_pos_iff.mpr hc.ne_nil
  split_ifs with h0
  · obtain rfl : carry = 1 := by omega
    rw [decimalValue_cons,hlen,← hn]
    exact ⟨⟨nofun,forall_mem_cons.mpr ⟨rfl,hd⟩,by simp⟩,hv⟩
  obtain rfl : carry = 0 := by omega
  rw [Nat.zero_mul,Nat.zero_add] at hv
  refine ⟨⟨fun h => ?_,hd,fun hz => ?_⟩,hn ▸ hv⟩
  · rw [h,length_nil] at hlen
    omega
  -- a zero in front leaves too few digits for the longer operand
  obtain ⟨digits,rfl⟩ := head?_eq_some_iff.mp hz
  have hlt := decimalValue_lt (forall_mem_cons.mp hd).2
  rw [decimalValue_cons,Nat.sub_self] at hv
  rw [length_cons] at hlen
  have hone : max left'.length right.length ≤ 1 := by
    by_contra hm
    rcases max_cases left'.length right.length with ⟨hmax,-⟩ | ⟨hmax,-⟩
    · have := Canonical.pow_le hc (by omega)
      rw [← hmax,← hlen,Nat.add_sub_cancel] at this
      omega
    · have := Canonical.pow_le hr (by omega)
      rw [← hmax,← hlen,Nat.add_sub_cancel] at this
      omega
  rw [length_eq_zero_iff.mp (show digits.length = 0 by omega)]

lemma text_canonical {n : ℕ} (h : Holds l n) :
    Canonical (UintString.text l).toList ∧ decimalValue (UintString.text l).toList = n := by
  obtain ⟨rfl | hc,hn⟩ := h
  · exact ⟨canonical_zero,hn⟩
  · rw [UintString.text,if_neg hc.ne_nil,String.toList_ofList]
    exact ⟨hc,hn⟩

end

/-- The exact sum of the entries' amounts for an asset and a direction. -/
def total (rows : List ReportEntry) (asset direction : String) : ℕ :=
  ((rows.filter fun e => e.assetId = asset ∧ e.direction = direction).map fun e =>
    decimalValue e.amountAtomic.toList).sum

/-- An entry the loop accepts. -/
def Valid (e : ReportEntry) : Prop :=
  Canonical e.amountAtomic.toList ∧ (e.direction = "debit" ∨ e.direction = "credit")

/-- What the loop has after some rows. -/
structure Summed (rows : List ReportEntry) (s : Running) : Prop where
  debit : ∀ asset, Holds (s.totals asset).debit (total rows asset "debit")
  credit : ∀ asset, Holds (s.totals asset).credit (total rows asset "credit")
  assets : ∀ asset, asset ∈ s.assets ↔ asset ∈ rows.map (·.assetId)
  nodup : s.assets.Nodup
  count : s.count = rows.length

section
variable {q : Quota} {rows : List ReportEntry} {s t : Running} {e : ReportEntry}

lemma total_snoc {asset direction : String} : total (rows ++ [e]) asset direction =
    total rows asset direction+
      if e.assetId = asset ∧ e.direction = direction then decimalValue e.amountAtomic.toList else 0 := by
  unfold total
  split_ifs with h <;> simp [h]

lemma Pair.add_eq_ok {p q : Pair} {direction : String} {amount : UintString} :
    p.add direction amount = .ok q ↔ (direction = "debit" ∨ direction = "credit") ∧
      q = ⟨if direction = "debit" then addUintString p.debit amount else p.debit,
        if direction = "credit" then addUintString p.credit amount else p.credit⟩ := by
  unfold Pair.add
  split_ifs <;> simp_all [eq_comm]

/-- The entry added to the totals, whatever the quota. -/
def Running.add (s : Running) (e : ReportEntry) : Running :=
  ⟨if e.assetId ∈ s.assets then s.assets else s.assets ++ [e.assetId],
    Function.update s.totals e.assetId ⟨if e.direction = "debit"
      then addUintString (s.totals e.assetId).debit e.amountAtomic.toList
      else (s.totals e.assetId).debit,if e.direction = "credit"
      then addUintString (s.totals e.assetId).credit e.amountAtomic.toList
      else (s.totals e.assetId).credit⟩,s.count+1,s.bytes+e.size⟩

def tally (header : ℕ) (rows : List ReportEntry) : Running :=
  rows.foldl Running.add ⟨[],fun _ => ⟨[],[]⟩,0,header⟩

lemma write_eq_ok {m n k : ℕ} : q.write m n = .ok k ↔ m+n ≤ q.maxBytes ∧ m+n = k := by
  simp only [Quota.write,do_ok]

lemma addEntry_eq_ok : addEntry q s e = .ok t ↔
    s.count < q.maxEntries ∧ s.bytes+e.size ≤ q.maxBytes ∧ Valid e ∧ t = s.add e := by
  simp only [addEntry,do_ok,write_eq_ok,parseUintString_eq_ok,Pair.add_eq_ok]
  constructor
  · rintro ⟨hc,_,⟨hb,rfl⟩,_,⟨ha,rfl⟩,_,⟨hd,rfl⟩,rfl⟩
    exact ⟨hc,hb,⟨ha,hd⟩,rfl⟩
  · rintro ⟨hc,hb,⟨ha,hd⟩,rfl⟩
    exact ⟨hc,_,⟨hb,rfl⟩,_,⟨ha,rfl⟩,_,⟨hd,rfl⟩,rfl⟩

lemma Holds.add {l r : UintString} {n : ℕ} {c : Prop} [Decidable c] (h : Holds l n) (hr : Canonical r) :
    Holds (if c then addUintString l r else l) (n+if c then decimalValue r else 0) := by
  split_ifs
  · obtain ⟨hc,hv⟩ := addUintString_canonical h hr
    exact ⟨.inr hc,hv⟩
  · exact h

lemma Summed.step (h : Summed rows s) (he : Valid e) : Summed (rows ++ [e]) (s.add e) := by
  have ha := he.1
  unfold Running.add
  refine ⟨fun asset => ?_,fun asset => ?_,fun asset => ?_,?_,by simp [h.count]⟩
  · rw [total_snoc]
    by_cases he : e.assetId = asset
    · subst he
      simpa using (h.debit e.assetId).add ha
    · simpa [he,Function.update_of_ne (Ne.symm he)] using h.debit asset
  · rw [total_snoc]
    by_cases he : e.assetId = asset
    · subst he
      simpa using (h.credit e.assetId).add ha
    · simpa [he,Function.update_of_ne (Ne.symm he)] using h.credit asset
  · have := h.assets asset
    split_ifs <;> grind
  · dsimp only
    split_ifs with hm
    · exact h.nodup
    · exact nodup_append.mpr ⟨h.nodup,nodup_singleton _,by grind⟩

lemma tally_snoc {header : ℕ} : tally header (rows ++ [e]) = (tally header rows).add e :=
  foldl_append

lemma summed_tally {header : ℕ} (h : ∀ e ∈ rows, Valid e) : Summed rows (tally header rows) := by
  induction rows using List.reverseRecOn with
  | nil => exact ⟨fun _ => ⟨.inl rfl,rfl⟩,fun _ => ⟨.inl rfl,rfl⟩,by simp [tally],nodup_nil,rfl⟩
  | append_singleton rows e ih =>
    rw [tally_snoc]
    exact (ih fun r hr => h r (mem_append_left _ hr)).step (h e (by simp))

lemma tally_bytes {header : ℕ} :
    (tally header rows).bytes = header+(rows.map (·.size)).sum := by
  induction rows using List.reverseRecOn with
  | nil => rfl
  | append_singleton rows e ih => simp [tally_snoc,Running.add,ih,Nat.add_assoc]

/-- The length of the report. -/
def Quota.bytes (q : Quota) (rows : List ReportEntry) : ℕ :=
  q.header+(rows.map (·.size)).sum+q.footer (tally q.header rows).footer

lemma traverse_iff (hq : q.header ≤ q.maxBytes) :
    traverse (addEntry q) rows ⟨[],fun _ => ⟨[],[]⟩,0,q.header⟩ = .ok t ↔
      rows.length ≤ q.maxEntries ∧ (∀ e ∈ rows, Valid e) ∧
        (tally q.header rows).bytes ≤ q.maxBytes ∧ t = tally q.header rows := by
  induction rows using List.reverseRecOn generalizing t with
  | nil => simp [tally,hq,eq_comm]
  | append_singleton rows e ih =>
    simp only [traverse_append_eq_ok,traverse_cons_eq_ok,ih,addEntry_eq_ok,tally_snoc,forall_mem_append,
      length_append]
    constructor
    · rintro ⟨_,⟨hl,hv,-,rfl⟩,_,⟨hc,hb,he,rfl⟩,ht⟩
      cases ht
      rw [(summed_tally hv).count] at hc
      exact ⟨hc,⟨hv,by simpa using he⟩,hb,rfl⟩
    · rintro ⟨hl,⟨hv,he⟩,hb,rfl⟩
      refine ⟨_,⟨Nat.le_of_succ_le hl,hv,(Nat.le_add_right _ e.size).trans hb,rfl⟩,_,
        ⟨?_,hb,he e (by simp),rfl⟩,rfl⟩
      rw [(summed_tally hv).count]
      exact hl

lemma generate_eq_ok {r : ReportFooter × ℕ} : generate q rows = .ok r ↔
    (rows.length ≤ q.maxEntries ∧ (∀ e ∈ rows, Valid e) ∧ q.bytes rows ≤ q.maxBytes) ∧
      r = ((tally q.header rows).footer,q.bytes rows) := by
  simp only [generate,do_ok,write_eq_ok,Nat.zero_add]
  constructor
  · rintro ⟨_,⟨hq,rfl⟩,s,hs,_,⟨hb,rfl⟩,rfl⟩
    obtain ⟨hl,hv,-,rfl⟩ := (traverse_iff hq).mp hs
    have hle : rows.length ≤ q.maxEntries := by
      rw [length_take] at hl
      omega
    rw [take_of_length_le (by omega)] at hb hv ⊢
    rw [tally_bytes] at hb ⊢
    exact ⟨⟨hle,hv,hb⟩,rfl⟩
  · rintro ⟨⟨hl,hv,hb⟩,rfl⟩
    have hq : q.header+(rows.map (·.size)).sum ≤ q.maxBytes := (Nat.le_add_right _ _).trans hb
    rw [take_of_length_le (by omega)]
    refine ⟨_,⟨(Nat.le_add_right _ _).trans hq,rfl⟩,tally q.header rows,?_,_,⟨?_,rfl⟩,?_⟩
    · exact (traverse_iff ((Nat.le_add_right _ _).trans hq)).mpr ⟨hl,hv,tally_bytes ▸ hq,rfl⟩
    · rw [tally_bytes]
      exact hb
    · rw [tally_bytes]
      rfl

end

/-- The footer has each asset of the rows once, with the exact sums of its debits and credits. It is
written for all rows within the quota whose amounts and directions are well formed. -/
theorem footer_totals_exact (q : Quota) (rows : List ReportEntry) :
    ((∃ r, generate q rows = .ok r) ↔ rows.length ≤ q.maxEntries ∧ (∀ e ∈ rows, Valid e) ∧
      q.bytes rows ≤ q.maxBytes) ∧
    ∀ footer bytes, generate q rows = .ok (footer,bytes) →
      footer.entryCount = rows.length.repr ∧ (footer.totals.map (·.assetId)).Nodup ∧
      (∀ asset, asset ∈ footer.totals.map (·.assetId) ↔ asset ∈ rows.map (·.assetId)) ∧
      ∀ r ∈ footer.totals, (Canonical r.debitAtomic.toList ∧
          decimalValue r.debitAtomic.toList = total rows r.assetId "debit") ∧
        Canonical r.creditAtomic.toList ∧
          decimalValue r.creditAtomic.toList = total rows r.assetId "credit" := by
  refine ⟨by simp [generate_eq_ok],fun footer bytes h => ?_⟩
  obtain ⟨⟨-,hv,-⟩,heq⟩ := generate_eq_ok.mp h
  cases heq
  have hsum : Summed rows (tally q.header rows) := summed_tally hv
  generalize tally q.header rows = s at hsum ⊢
  have hassets : (s.assets.mergeSort (· ≤ ·)).Perm s.assets := mergeSort_perm _ _
  simp only [Running.footer,map_map,Function.comp_def,map_id']
  refine ⟨congrArg Nat.repr hsum.count,hassets.nodup_iff.mpr hsum.nodup,
    fun asset => hassets.mem_iff.trans (hsum.assets asset),?_⟩
  simp only [mem_map]
  rintro _ ⟨asset,-,rfl⟩
  exact ⟨text_canonical (hsum.debit asset),text_canonical (hsum.credit asset)⟩

end Ocrypt.ReportTotals
