import Mathlib.Data.List.DropRight
import Ocrypt.Authentication

/-! Amounts as decimal texts: what `ParseDecimal` accepts, and the two renderings of atomic amounts,
which it reads back. -/
namespace Ocrypt.DecimalText
open Money Fallible Requests List

-- A condition on the elements of a list is decided on the list, also where the type is finite.
attribute [local instance (high)] List.decidableBAll

/-- The digits without the zeros in front. -/
def trimZeros (l : List Char) : List Char :=
  let atomic := l.dropWhile (· = '0')
  if atomic = [] then ['0'] else atomic

variable (value : String)

def parseDecimal (scale : ℕ) : Except String Amount := do
  require (value ≠ "" ∧ trimSpace value = value ∧ ∀ c ∈ value.toList, c ∉ ['+','-','e','E'])
    "amount must be a canonical decimal string"
  let parts := value.toList.splitOn '.'
  let whole := parts.headD []
  let point := parts[1]?
  require (parts.length ≤ 2 ∧ Amount.unsignedInteger (String.ofList whole))
    "amount must be a canonical decimal string"
  require (∀ f ∈ point, f ≠ [] ∧ (String.ofList f).utf8ByteSize ≤ scale)
    "amount has more fractional digits than currency scale"
  require (∀ f ∈ point, ∀ c ∈ f, c.isDigit) "amount must contain only decimal digits"
  require (scale = 0 → point = none) "amount has a fraction for a zero-scale currency"
  let fraction := point.getD []
  let atomic := trimZeros (whole ++ fraction ++ List.replicate (scale - fraction.length) '0')
  let parsed ← (Amount.parse (String.ofList atomic)).mapError
    fun _ => "amount must be positive and fit uint256"
  require (¬parsed.isZero) "amount must be positive and fit uint256"
  pure parsed

/-- The zeros in front give a digit before the point. -/
def formatAtomic (decimals : ℕ) : String :=
  if decimals = 0 then value
  else
    let padded := value.toList.leftpad (decimals+1) '0'
    let cut := padded.length - decimals
    String.ofList (padded.take cut ++ '.'::padded.drop cut)

def displayAtomic (decimals : ℕ) : String :=
  if decimals = 0 then value
  else
    let display := (formatAtomic value decimals).toList.rdropWhile (· = '0')
    String.ofList (if display.getLast? = some '.' then display.dropLast else display)

abbrev Digits (l : List Char) : Prop := ∀ c ∈ l, c.isDigit

/-- Digits without a superfluous zero in front. -/
structure Canonical (l : List Char) : Prop where
  ne_nil : l ≠ []
  digits : Digits l
  zero : l.head? = some '0' → l = ['0']

section
variable {l : List Char} {s : String} {a : Amount}

lemma canonical_zero : Canonical ['0'] := ⟨nofun,forall_mem_singleton.mpr rfl,fun _ => rfl⟩

lemma unsignedInteger_iff : Amount.unsignedInteger s = true ↔ Canonical s.toList := by
  unfold Amount.unsignedInteger
  split
  · rename_i h
    exact iff_of_false nofun fun hc => hc.ne_nil h
  · rename_i h
    rw [h]
    exact iff_of_true rfl canonical_zero
  · rename_i c digits hne h
    rw [h]
    simp only [Bool.and_eq_true,decide_eq_true_eq,all_eq_true]
    refine ⟨fun hc => ⟨nofun,hc.2,fun hz => absurd (Option.some.inj hz) hc.1⟩,fun hc => ⟨?_,hc.digits⟩⟩
    rintro rfl
    exact hne rfl (List.cons.inj (hc.zero rfl)).2

lemma parse_eq_ok : Amount.parse s = .ok a ↔ Canonical s.toList ∧ decimalValue s.toList = a.n := by
  rw [← unsignedInteger_iff]
  unfold Amount.parse
  by_cases hu : Amount.unsignedInteger s = true
  · by_cases hf : decimalValue s.toList < 2^256
    · simp only [hu,hf,not_true,if_false,dite_true,true_and,Except.ok.injEq,Amount.ext_iff]
    · simp only [hu,hf,true_and]
      exact iff_of_false (by simp) fun h => hf (h ▸ a.fits)
  · simp [hu]

lemma canonical_trimZeros (h : Digits l) :
    Canonical (trimZeros l) ∧ decimalValue (trimZeros l) = decimalValue l := by
  have hz : l.takeWhile (· = '0') = List.replicate (l.takeWhile (· = '0')).length '0' :=
    eq_replicate_of_mem fun c hc => by simpa using mem_takeWhile_imp hc
  have hv : decimalValue l = decimalValue (l.dropWhile (· = '0')) := by
    have := decimalValue_append (l := l.takeWhile (· = '0')) (m := l.dropWhile (· = '0'))
    rwa [takeWhile_append_dropWhile,hz,decimalValue_zeros,Nat.zero_mul,Nat.zero_add] at this
  rw [hv,trimZeros]
  split_ifs with he
  · rw [he]
    exact ⟨canonical_zero,rfl⟩
  · refine ⟨⟨he,fun c hc => h c ((dropWhile_suffix _).subset hc),fun hh => ?_⟩,rfl⟩
    have hn := head_dropWhile_not (· = '0') he
    rw [head?_eq_some_head he] at hh
    simp [Option.some.inj hh] at hn

end

/-- The text has the whole digits and, behind a point, at least one digit and no more than the scale
has. Without a point there is no fraction. -/
structure Decimal (scale : ℕ) (whole fraction : List Char) : Prop where
  canonical : Canonical whole
  digits : Digits fraction
  short : fraction.length ≤ scale
  text : value.toList = whole ++ if fraction = [] then [] else '.'::fraction

def ratio (whole fraction : List Char) : ℚ :=
  decimalValue whole+decimalValue fraction / 10^fraction.length

section
variable {value : String} {scale : ℕ} {whole fraction : List Char} {a : Amount} {c : Char}

lemma mapError_eq_ok {ε ε' α : Type} {f : ε → ε'} {x : Except ε α} {a : α} :
    x.mapError f = .ok a ↔ x = .ok a := by
  cases x <;> simp [Except.mapError]

lemma ratio_scaled (h : fraction.length ≤ scale) : ratio whole fraction*10^scale =
    decimalValue (whole ++ fraction ++ List.replicate (scale - fraction.length) '0') := by
  have hp : (10 : ℚ)^scale = 10^fraction.length*10^(scale - fraction.length) := by
    rw [← pow_add,Nat.add_sub_cancel' h]
  rw [decimalValue_append,decimalValue_append,decimalValue_zeros,length_replicate,hp,ratio]
  push_cast
  field_simp
  ring

lemma utf8Len_digits (h : Digits fraction) : String.utf8Len fraction = fraction.length := by
  induction fraction with
  | nil => rfl
  | cons c l ih =>
    obtain ⟨hc,hl⟩ := forall_mem_cons.mp h
    have hs : c.utf8Size = 1 := Char.utf8Size_eq_one_iff.mpr (by
      have := (Char.isDigit_iff_toNat.mp hc).2
      exact UInt32.le_iff_toNat_le.mpr (this.trans (by decide)))
    rw [String.utf8Len_cons,ih hl,hs,length_cons]

lemma plain_char (h : c.isDigit = true ∨ c = '.') : isSpace c = false ∧ c ∉ ['+','-','e','E'] := by
  rcases h with h | rfl
  · have hb := Char.isDigit_iff_toNat.mp h
    constructor
    · have h0 : 48 ≤ c.toNat := hb.1
      have h9 : c.toNat ≤ 57 := hb.2
      simp [isSpace]
      omega
    · simp only [mem_cons,not_mem_nil,or_false]
      rintro (rfl | rfl | rfl | rfl) <;> simp [Char.isDigit] at h
  · decide

lemma Decimal.char (h : Decimal value scale whole fraction) (hc : c ∈ value.toList) :
    c.isDigit = true ∨ c = '.' := by
  rw [h.text,mem_append] at hc
  rcases hc with hc | hc
  · exact .inl (h.canonical.digits c hc)
  · split_ifs at hc
    · cases hc
    · exact (mem_cons.mp hc).symm.imp_left (h.digits c)

lemma trimSpace_plain (h : ∀ c ∈ value.toList, isSpace c = false) : trimSpace value = value := by
  have hd : value.toList.dropWhile isSpace = value.toList :=
    dropWhile_eq_self_iff.mpr fun hl => by simp [h _ (getElem_mem hl)]
  have hr : value.toList.rdropWhile isSpace = value.toList :=
    rdropWhile_eq_self_iff.mpr fun hl => by simp [h _ (getLast_mem hl)]
  rw [trimSpace,hd]
  exact (congrArg String.ofList hr).trans String.ofList_toList

lemma Decimal.split (h : Decimal value scale whole fraction) : let parts := value.toList.splitOn '.'
    parts.length ≤ 2 ∧ parts.headD [] = whole ∧ parts[1]?.getD [] = fraction ∧
      ∀ f ∈ parts[1]?, f ≠ [] ∧ f = fraction := by
  have hn {l : List Char} (hl : Digits l) : '.' ∉ l := fun hc => by simpa using hl _ hc
  have h1 : ∀ l ∈ [whole], '.' ∉ l := by simpa using hn h.canonical.digits
  have h2 : ∀ l ∈ [whole,fraction], '.' ∉ l := by simpa using ⟨hn h.canonical.digits,hn h.digits⟩
  rw [h.text]
  split_ifs with hf
  · have hs := splitOn_intercalate '.' h1 nofun
    simp_all
  · have hs := splitOn_intercalate '.' h2 nofun
    simp_all

lemma parseDecimal_eq_ok (h : Decimal value scale whole fraction) :
    parseDecimal value scale = .ok a ↔ 0 < a.n ∧ ratio whole fraction*10^scale = a.n := by
  have hd : Digits (whole ++ fraction ++ List.replicate (scale - fraction.length) '0') := by
    simp only [Digits,mem_append,mem_replicate]
    rintro c ((hc | hc) | ⟨-,rfl⟩)
    · exact h.canonical.digits c hc
    · exact h.digits c hc
    · rfl
  obtain ⟨hc,hv⟩ := canonical_trimZeros hd
  obtain ⟨hlen,hhead,hget,hpoint⟩ := h.split
  have hne : value ≠ "" := by
    rintro rfl
    exact h.canonical.ne_nil (append_eq_nil_iff.mp h.text.symm).1
  have hplain {c} (hc : c ∈ value.toList) := plain_char (h.char hc)
  have hsize : (String.ofList fraction).utf8ByteSize ≤ scale := by
    rw [String.utf8ByteSize_ofList,utf8Len_digits h.digits]
    exact h.short
  have hw : Amount.unsignedInteger (String.ofList whole) = true :=
    unsignedInteger_iff.mpr (String.toList_ofList ▸ h.canonical)
  have hscale : scale = 0 → (value.toList.splitOn '.')[1]? = none := by
    rintro rfl
    refine Option.eq_none_iff_forall_not_mem.mpr fun f hf => (hpoint f hf).1 ?_
    rw [(hpoint f hf).2]
    exact length_eq_zero_iff.mp (Nat.le_zero.mp h.short)
  simp only [parseDecimal,do_ok,hhead,hget,mapError_eq_ok,parse_eq_ok,String.toList_ofList,hv]
  rw [ratio_scaled h.short,Nat.cast_inj]
  constructor
  · rintro ⟨-,-,-,-,-,p,⟨-,hp⟩,hz,rfl⟩
    exact ⟨Nat.pos_of_ne_zero fun h0 => hz (by simpa [Amount.isZero] using h0),hp⟩
  · rintro ⟨hpos,hval⟩
    exact ⟨⟨hne,trimSpace_plain fun c hc => (hplain hc).1,fun c hc => (hplain hc).2⟩,⟨hlen,hw⟩,
      fun f hf => ⟨(hpoint f hf).1,(hpoint f hf).2 ▸ hsize⟩,
      fun f hf => (hpoint f hf).2 ▸ h.digits,hscale,a,⟨hc,hval⟩,
      by simpa [Amount.isZero] using hpos.ne',rfl⟩

/-- Every accepted text has the shape. -/
lemma parseDecimal_shape (h : parseDecimal value scale = .ok a) :
    ∃ whole fraction, Decimal value scale whole fraction := by
  simp only [parseDecimal,do_ok] at h
  obtain ⟨-,⟨hl,hw⟩,hf,hd,-⟩ := h
  rw [unsignedInteger_iff,String.toList_ofList] at hw
  have ht : ['.'].intercalate (value.toList.splitOn '.') = value.toList := intercalate_splitOn '.'
  generalize value.toList.splitOn '.' = parts at *
  rcases parts with - | ⟨whole,- | ⟨fraction,- | ⟨rest,more⟩⟩⟩
  · cases hw.ne_nil rfl
  · exact ⟨whole,[],hw,fun c hc => absurd hc not_mem_nil,Nat.zero_le _,by simpa using ht.symm⟩
  · obtain ⟨hne,hlen⟩ := hf fraction rfl
    rw [String.utf8ByteSize_ofList,utf8Len_digits (hd fraction rfl)] at hlen
    exact ⟨whole,fraction,hw,hd fraction rfl,hlen,by simpa [hne] using ht.symm⟩
  · simp at hl

end

section
variable {a : Amount} {scale : ℕ} {text : String}

lemma canonical_repr (n : ℕ) : Canonical n.repr.toList := by
  refine ⟨by rw [Nat.toList_repr]; exact Nat.toDigits_ne_nil,fun c hc => digit_of_mem_repr hc,?_⟩
  rw [Nat.toList_repr]
  induction n using Nat.strong_induction_on with
  | _ n ih =>
    rcases Nat.lt_or_ge n 10 with hn | hn
    · rw [Nat.toDigits_of_lt_base hn]
      simp
    · rw [Nat.toDigits_of_base_le (by decide) hn]
      intro h
      rw [head?_append_of_ne_nil _ Nat.toDigits_ne_nil] at h
      have hv := decimalValue_repr (n / 10)
      rw [Nat.toList_repr,ih _ (by omega) h] at hv
      exact absurd (Nat.div_eq_zero_iff.mp (hv.symm.trans rfl)) (by omega)

lemma rdropWhile_point {l m : List Char} : (l ++ '.'::m).rdropWhile (· = '0') =
    l ++ '.'::m.rdropWhile (· = '0') := by
  induction m using List.reverseRecOn with
  | nil => simp
  | append_singleton m c ih =>
    rw [← cons_append,← append_assoc,rdropWhile_concat,rdropWhile_concat,ih]
    split_ifs <;> simp

lemma drop_point {l m : List Char} (h : Digits m) :
    (if (l ++ '.'::m).getLast? = some '.' then (l ++ '.'::m).dropLast else l ++ '.'::m) =
      l ++ if m = [] then [] else '.'::m := by
  by_cases he : m = []
  · simp [he]
  · rw [if_neg,if_neg he]
    rw [append_cons,getLast?_append_of_ne_nil _ he]
    exact fun hl => by simpa using h _ (mem_of_getLast? hl)

/-- The amount's digits, with zeros in front of those of a number below one. -/
def padded (a : Amount) (scale : ℕ) : List Char := a.n.repr.toList.leftpad (scale+1) '0'

lemma padded_digits : Digits (padded a scale) := by
  intro c hc
  rcases mem_append.mp hc with hc | hc
  · rw [eq_of_mem_replicate hc]
    rfl
  · exact digit_of_mem_repr hc

lemma decimalValue_padded : decimalValue (padded a scale) = a.n := by
  rw [padded,leftpad,decimalValue_append,decimalValue_zeros,decimalValue_repr,Nat.zero_mul,Nat.zero_add]

lemma scale_lt_padded (a : Amount) (scale : ℕ) : scale < (padded a scale).length := by
  rw [padded,length_leftpad]
  omega

lemma padded_eq_repr (h : scale < a.n.repr.toList.length) : padded a scale = a.n.repr.toList := by
  rw [padded,leftpad,Nat.sub_eq_zero_of_le h,replicate_zero,nil_append]

lemma canonical_whole (hpos : 0 < a.n) :
    Canonical ((padded a scale).take ((padded a scale).length - scale)) := by
  have hlt := scale_lt_padded a scale
  refine ⟨fun h => ?_,fun c hc => padded_digits c (mem_of_mem_take hc),fun h => ?_⟩
  · rcases take_eq_nil_iff.mp h with h | h
    · omega
    · simp [h] at hlt
  rw [head?_take,if_neg (by omega)] at h
  rcases Nat.lt_or_ge scale a.n.repr.toList.length with hl | hl
  · have hp := padded_eq_repr hl
    have hv := decimalValue_repr a.n
    rw [(canonical_repr a.n).zero (hp ▸ h)] at hv
    exact absurd (hv.symm.trans rfl) hpos.ne'
  · have hlen : (padded a scale).length - scale = 1 := by
      rw [padded,length_leftpad]
      omega
    rw [hlen,take_one,h]
    rfl

lemma parse_rendered (rest : List Char) (k : ℕ) (hpos : 0 < a.n) (hrest : rest ++ List.replicate k '0' =
      (padded a scale).drop ((padded a scale).length - scale))
    (htext : text.toList = (padded a scale).take ((padded a scale).length - scale) ++
      if rest = [] then [] else '.'::rest) : parseDecimal text scale = .ok a := by
  have hlen : rest.length+k = scale := by
    have := congrArg length hrest
    have hlt := scale_lt_padded a scale
    rw [length_append,length_replicate,length_drop] at this
    omega
  have hdec : Decimal text scale _ rest :=
    ⟨canonical_whole hpos,fun c hc => padded_digits c (mem_of_mem_drop (hrest ▸ mem_append_left _ hc)),
      by omega,htext⟩
  rw [parseDecimal_eq_ok hdec,ratio_scaled hdec.short,show scale - rest.length = k by omega,
    append_assoc,hrest,take_append_drop,decimalValue_padded]
  exact ⟨hpos,rfl⟩

/-- Without decimals both renderings are the amount's digits. -/
lemma parse_repr (hpos : 0 < a.n) : parseDecimal a.n.repr 0 = .ok a := by
  have hp : padded a 0 = _ := padded_eq_repr (length_pos_iff.mpr (canonical_repr a.n).ne_nil)
  exact parse_rendered [] 0 hpos (by simp) (by simp [hp])

lemma parse_formatAtomic (hpos : 0 < a.n) :
    parseDecimal (formatAtomic a.n.repr scale) scale = .ok a := by
  rcases Nat.eq_zero_or_pos scale with rfl | hs
  · exact parse_repr hpos
  have hlt := scale_lt_padded a scale
  refine parse_rendered _ 0 hpos (append_nil _) ?_
  rw [formatAtomic,if_neg hs.ne',String.toList_ofList,if_neg]
  · rfl
  · rw [drop_eq_nil_iff]
    omega

lemma parse_displayAtomic (hpos : 0 < a.n) :
    parseDecimal (displayAtomic a.n.repr scale) scale = .ok a := by
  rcases Nat.eq_zero_or_pos scale with rfl | hs
  · exact parse_repr hpos
  set digits := (padded a scale).drop ((padded a scale).length - scale)
  have hz : digits.rtakeWhile (· = '0') = List.replicate (digits.rtakeWhile (· = '0')).length '0' :=
    eq_replicate_of_mem fun c hc => by simpa using mem_rtakeWhile_imp hc
  have hd : Digits (digits.rdropWhile (· = '0')) := fun c hc =>
    padded_digits c (mem_of_mem_drop ((List.rdropWhile_prefix _ _).subset hc))
  refine parse_rendered (digits.rdropWhile (· = '0')) _ hpos
    ((congrArg _ hz.symm).trans rdropWhile_append_rtakeWhile) ?_
  rw [displayAtomic,if_neg hs.ne',formatAtomic,if_neg hs.ne']
  simp only [String.toList_ofList,rdropWhile_point]
  exact drop_point hd

end

/-- `ParseDecimal` accepts exactly the canonical decimals of a positive amount, and reads both
renderings of an amount back. -/
theorem parseDecimal_exact (scale : ℕ) :
    (∀ value a, parseDecimal value scale = .ok a ↔ 0 < a.n ∧ ∃ whole fraction,
      Decimal value scale whole fraction ∧ ratio whole fraction*10^scale = a.n) ∧
    ∀ a : Amount, 0 < a.n → parseDecimal (displayAtomic a.n.repr scale) scale = .ok a ∧
      parseDecimal (formatAtomic a.n.repr scale) scale = .ok a := by
  refine ⟨fun value a => ⟨fun h => ?_,fun ⟨hpos,whole,fraction,hd,hv⟩ =>
    (parseDecimal_eq_ok hd).mpr ⟨hpos,hv⟩⟩,fun a hpos =>
    ⟨parse_displayAtomic hpos,parse_formatAtomic hpos⟩⟩
  obtain ⟨whole,fraction,hd⟩ := parseDecimal_shape h
  obtain ⟨hpos,hv⟩ := (parseDecimal_eq_ok hd).mp h
  exact ⟨hpos,whole,fraction,hd,hv⟩

end Ocrypt.DecimalText
