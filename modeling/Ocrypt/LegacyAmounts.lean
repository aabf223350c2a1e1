import Ocrypt.LegacyRequests
import Mathlib.Data.List.DropRight
import Mathlib.Data.List.TakeWhile

/-! The amounts of legacy requests: decimal texts, read once as minor units and written again as a
raw JSON number or as a fixed decimal. -/
namespace Ocrypt.LegacyAmounts
open Fallible Requests LegacyRequests List

def isDigit (b : UInt8) : Bool := byte '0' ≤ b && b ≤ byte '9'

def digitsValue (digits : Bytes) : ℕ := digits.foldl (fun n d => 10*n+(d.toNat - 48)) 0

/-- `decimalPattern`: digits, and further digits after a point. -/
def decimalParts (text : Bytes) : Option (Bytes × Bytes) :=
  let whole := text.takeWhile isDigit
  match text.dropWhile isDigit with
  | [] => if whole = [] then none else some (whole,[])
  | point::fraction =>
    if point = byte '.' ∧ whole ≠ [] ∧ fraction ≠ [] ∧ fraction.all isDigit then
      some (whole,fraction)
    else none

def decimalText (whole fraction : Bytes) : Bytes :=
  whole ++ if fraction = [] then [] else byte '.'::fraction

def decimalValue (whole fraction : Bytes) : ℚ :=
  mkRat (digitsValue (whole ++ fraction)) (10^fraction.length)

/-- `big.Rat.SetString`, of which only its reading of decimal texts is known. It refuses fractions
of more than a million digits. -/
structure Rationals where
  setString : Bytes → Option ℚ
  setString_decimal : ∀ text whole fraction, decimalParts text = some (whole,fraction) →
    fraction.length ≤ 1000000 → setString text = some (decimalValue whole fraction)

section
variable (rats : Rationals)

variable (value : Bytes)

def decimalToMinor (scale : ℕ) : Except LegacyError Bytes := do
  require ((decimalParts value).isSome = true) (.invalid "")
  let rat ← orFail (rats.setString value) (.invalid "")
  require (0 < rat) (.invalid "")
  let numerator := rat.num*10^scale
  let quotient := numerator / rat.den
  let remainder := numerator % rat.den
  require (remainder = 0 ∧ quotient < 2^256) (.invalid "")
  pure (utf8 (toString quotient))

/-- `strings.TrimRight` of one byte. -/
def trimRight (b : UInt8) (text : Bytes) : Bytes := text.rdropWhile (· = b)

/-- The zeros after a point are dropped, and the point if nothing is left behind it. -/
def trimmed : Bytes :=
  let short := if byte '.' ∈ value then trimRight (byte '.') (trimRight (byte '0') value) else value
  if short = [] then utf8 "0" else short

def normalizedDecimal : Except LegacyError Bytes := do
  let rat ← orFail (rats.setString value) (.invalid "")
  require (0 ≤ rat) (.invalid "")
  let _ ← orFail (rats.setString (trimmed value)) (.invalid "")
  pure (trimmed value)

def fixedDecimal (scale : ℕ) : Except LegacyError Bytes := do
  let rat ← orFail (rats.setString value) (.invalid "")
  require (0 ≤ rat) (.invalid "")
  let n := rat.num*10^scale
  let q := n / rat.den
  let r := n % rat.den
  require (r = 0) (.invalid "")
  let digits := utf8 (toString q)
  let padded := List.replicate (scale+1 - digits.length) (byte '0') ++ digits
  pure (padded.take (padded.length - scale) ++ byte '.'::padded.drop (padded.length - scale))

end

/-- What follows the integer part of a JSON number: no zero stands in front of another digit. -/
def jsonInteger : Bytes → Option Bytes
  | [] => none
  | d::rest =>
    if d = byte '0' then some rest else if isDigit d then some (rest.dropWhile isDigit) else none

def jsonFraction : Bytes → Option Bytes
  | [] => some []
  | point::rest =>
    if point = byte '.' then
      if rest.takeWhile isDigit = [] then none else some (rest.dropWhile isDigit)
    else some (point::rest)

def jsonExponent : Bytes → Option Bytes
  | [] => some []
  | e::rest =>
    if e = byte 'e' ∨ e = byte 'E' then
      let digits := match rest with
        | sign::digits => if sign = byte '+' ∨ sign = byte '-' then digits else sign::digits
        | [] => []
      if digits.takeWhile isDigit = [] then none else some (digits.dropWhile isDigit)
    else some (e::rest)

/-- The encoder accepts a raw number that follows the grammar of JSON to its end. -/
def jsonNumber (text : Bytes) : Bool :=
  let unsigned := match text with
    | sign::rest => if sign = byte '-' then rest else sign::rest
    | [] => []
  ((jsonInteger unsigned).bind jsonFraction).bind jsonExponent = some []

def leadingZero : Bytes → Bool
  | a::b::_ => a = byte '0' && isDigit b
  | _ => false

/-- The digits of a plain decimal number. -/
structure Numeral (whole fraction : Bytes) : Prop where
  nonempty : whole ≠ []
  whole : ∀ d ∈ whole, isDigit d = true
  fraction : ∀ d ∈ fraction, isDigit d = true

section
variable {rats : Rationals} {text whole fraction : Bytes} {b : UInt8} {scale : ℕ} {minor : Bytes}

lemma not_digit_point : isDigit (byte '.') = false := by decide

lemma decimalParts_decimalText (h : Numeral whole fraction) :
    decimalParts (decimalText whole fraction) = some (whole,fraction) := by
  obtain ⟨hw,hdi,hf⟩ := h
  unfold decimalParts decimalText
  by_cases he : fraction = []
  · subst he
    have hta := takeWhile_eq_self_iff.mpr hdi
    have hdr := dropWhile_eq_nil_iff.mpr hdi
    simp [hta,hdr,hw]
  · have hta : (whole ++ byte '.'::fraction).takeWhile isDigit = whole := by
      rw [takeWhile_append_of_pos hdi]
      simp [not_digit_point]
    have hdr : (whole ++ byte '.'::fraction).dropWhile isDigit = byte '.'::fraction := by
      rw [dropWhile_append_of_pos hdi]
      simp [not_digit_point]
    simp only [if_neg he,hta,hdr]
    simpa [hw,he] using hf

lemma decimalParts_eq_some (h : decimalParts text = some (whole,fraction)) :
    Numeral whole fraction ∧ text = decimalText whole fraction := by
  have hsp := takeWhile_append_dropWhile (p := isDigit) (l := text)
  have hdi : ∀ d ∈ text.takeWhile isDigit, isDigit d = true := fun d hd =>
    mem_takeWhile_imp hd
  unfold decimalParts at h
  unfold decimalText
  cases hr : text.dropWhile isDigit with
  | nil =>
    rw [hr] at hsp
    simp only [hr] at h
    split_ifs at h with he
    cases h
    exact ⟨⟨he,hdi,by simp⟩,by simpa using hsp.symm⟩
  | cons point rest =>
    rw [hr] at hsp
    simp only [hr] at h
    split_ifs at h with hpa
    cases h
    obtain ⟨rfl,hw,hne,hal⟩ := hpa
    rw [if_neg hne]
    exact ⟨⟨hw,hdi,by simpa using hal⟩,hsp.symm⟩

lemma trimRight_append_cons {c : UInt8} (hne : c ≠ b) (l r : Bytes) :
    trimRight b (l ++ c::r) = l ++ c::trimRight b r := by
  unfold trimRight
  induction r using reverseRecOn with
  | nil => simp [hne]
  | append_singleton r x ih =>
    rw [← cons_append,← append_assoc,rdropWhile_concat,rdropWhile_concat,ih]
    split_ifs <;> simp

lemma trimRight_append {r : Bytes} (hne : r ≠ []) (hr : b ∉ r) (l : Bytes) :
    trimRight b (l ++ r) = l ++ r := by
  refine rdropWhile_eq_self_iff.mpr fun hl => ?_
  rw [getLast_append_of_ne_nil hl hne]
  exact fun hb => hr (of_decide_eq_true hb ▸ getLast_mem hne)

lemma point_not_mem {digits : Bytes} (h : ∀ d ∈ digits, isDigit d = true) : byte '.' ∉ digits := by
  intro hm
  have hp := h _ hm
  cases hp

lemma Numeral.trimRight (h : Numeral whole fraction) : Numeral whole (trimRight b fraction) :=
  ⟨h.nonempty,h.whole,fun d hd => h.fraction d ((List.rdropWhile_prefix _ _).subset hd)⟩

lemma trimmed_decimalText (h : Numeral whole fraction) :
    trimmed (decimalText whole fraction) = decimalText whole (trimRight (byte '0') fraction) := by
  have hw := h.nonempty
  have hp := point_not_mem h.whole
  unfold trimmed
  by_cases he : fraction = []
  · subst he
    have htr : trimRight (byte '0') [] = [] := rdropWhile_nil _
    simp [decimalText,htr,hp,hw]
  · have hte : decimalText whole fraction = whole ++ byte '.'::fraction := by
      simp [decimalText,he]
    rw [hte,trimRight_append_cons (by decide)]
    by_cases hz : trimRight (byte '0') fraction = []
    · have hdr : trimRight (byte '.') (whole ++ [byte '.']) = whole := by
        unfold trimRight
        rw [rdropWhile_concat_pos _ _ _ (by simp)]
        exact trimRight_append hw hp []
      simp [decimalText,hz,hdr,hw]
    · have hk : trimRight (byte '.') (whole ++ byte '.'::trimRight (byte '0') fraction) =
          whole ++ byte '.'::trimRight (byte '0') fraction := by
        have hl := trimRight_append hz (point_not_mem h.trimRight.fraction) (whole ++ [byte '.'])
        simpa using hl
      simp [decimalText,hz,hk]

lemma decimalValue_nonneg (whole fraction : Bytes) : 0 ≤ decimalValue whole fraction := by
  exact Rat.mkRat_nonneg (by positivity) _

lemma setString_decimalText (h : Numeral whole fraction) (hl : fraction.length ≤ 1000000) :
    rats.setString (decimalText whole fraction) = some (decimalValue whole fraction) :=
  rats.setString_decimal _ _ _ (decimalParts_decimalText h) hl

lemma normalizedDecimal_eq (h : decimalParts text = some (whole,fraction))
    (hl : fraction.length ≤ 1000000) :
    normalizedDecimal rats text = .ok (decimalText whole (trimRight (byte '0') fraction)) := by
  obtain ⟨hd,rfl⟩ := decimalParts_eq_some h
  have hsh : (trimRight (byte '0') fraction).length ≤ 1000000 :=
    ((List.rdropWhile_prefix _ _).length_le).trans hl
  simp only [normalizedDecimal,trimmed_decimalText hd,setString_decimalText hd hl,
    setString_decimalText hd.trimRight hsh,orFail,ok_bind,require_pos (decimalValue_nonneg _ _)]
  rfl

lemma jsonFraction_tail (hf : ∀ d ∈ fraction, isDigit d = true) :
    (jsonFraction (if fraction = [] then [] else byte '.'::fraction)).bind jsonExponent =
      some [] := by
  by_cases he : fraction = []
  · simp [he,jsonFraction,jsonExponent]
  · have hta := takeWhile_eq_self_iff.mpr hf
    have hdr := dropWhile_eq_nil_iff.mpr hf
    simp [he,jsonFraction,hta,hdr,jsonExponent]

lemma jsonNumber_decimalText (h : Numeral whole fraction) :
    jsonNumber (decimalText whole fraction) = !leadingZero (decimalText whole fraction) := by
  obtain ⟨hwh,hdi,hf⟩ := h
  obtain ⟨d,ws,rfl⟩ := exists_cons_of_ne_nil hwh
  have hd := hdi d mem_cons_self
  have hm : d ≠ byte '-' := by
    rintro rfl
    revert hd
    decide
  have hti := jsonFraction_tail hf
  unfold decimalText
  set tail := if fraction = [] then [] else byte '.'::fraction with hta
  simp only [jsonNumber,cons_append,if_neg hm,jsonInteger]
  by_cases hz : d = byte '0'
  · subst hz
    cases ws with
    | nil =>
      have hno : leadingZero (byte '0'::tail) = false := by
        rw [hta]
        split_ifs
        · rfl
        · simp [leadingZero,not_digit_point]
      simp [hti,hno]
    | cons w ws =>
      have hw := hdi w (by simp)
      have hp : w ≠ byte '.' := by
        rintro rfl
        cases hw
      have he : w ≠ byte 'e' ∧ w ≠ byte 'E' := by
        constructor <;>
        · rintro rfl
          revert hw
          decide
      simp [jsonFraction,hp,jsonExponent,he,leadingZero,hw]
  · have hst : (ws ++ tail).dropWhile isDigit = tail := by
      rw [dropWhile_append_of_pos fun x hx => hdi x (by simp [hx]),hta]
      split_ifs
      · rfl
      · simp [not_digit_point]
    have hno : leadingZero (d::(ws ++ tail)) = false := by
      cases ws ++ tail <;> simp [leadingZero,hz]
    simp [hz,hd,hst,hti,hno]

lemma decimalToMinor_eq_ok (h : decimalToMinor rats text scale = .ok minor) :
    ∃ whole fraction rat, decimalParts text = some (whole,fraction) ∧
      rats.setString text = some rat ∧ 0 < rat ∧ rat.num*10^scale % rat.den = 0 := by
  simp only [decimalToMinor,do_ok,orFail_eq_ok] at h
  obtain ⟨hp,rat,hr,hpo,⟨hre,-⟩,-⟩ := h
  obtain ⟨⟨whole,fraction⟩,hp⟩ := Option.isSome_iff_exists.mp hp
  exact ⟨whole,fraction,rat,hp,hr,hpo,hre⟩

lemma fixedDecimal_ok {places : ℕ} (h : decimalToMinor rats text scale = .ok minor)
    (hsc : scale ≤ places) : ∃ money, fixedDecimal rats text places = .ok money := by
  obtain ⟨-,-,rat,-,hr,hp,hre⟩ := decimalToMinor_eq_ok h
  have hm : rat.num*10^places % rat.den = 0 := by
    rw [← Nat.sub_add_cancel hsc,pow_add,mul_comm (10^(places - scale) : ℤ),← mul_assoc]
    exact Int.emod_eq_zero_of_dvd (Dvd.dvd.mul_right (Int.dvd_of_emod_eq_zero hre) _)
  simp only [fixedDecimal,hr,orFail,ok_bind,require_pos hp.le,require_pos hm]
  exact ⟨_,rfl⟩

end

end Ocrypt.LegacyAmounts
