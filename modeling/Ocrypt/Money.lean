import Ocrypt.Fallible

/-! Exact non-negative atomic amounts of at most 256 bits, with the checked
arithmetic of package money. -/
namespace Ocrypt.Money

def decimalValue (digits : List Char) : ℕ :=
  digits.foldl (fun n c => 10*n+(c.toNat - '0'.toNat)) 0

lemma decimalValue_append {l m : List Char} :
    decimalValue (l ++ m) = decimalValue l*10^m.length+decimalValue m := by
  rw [Nat.mul_comm]
  exact (Nat.ofDigitChars_append 0).trans Nat.ofDigitChars_eq_ofDigitChars_zero

lemma decimalValue_zeros {n : ℕ} : decimalValue (List.replicate n '0') = 0 :=
  Nat.ofDigitChars_replicate_zero

lemma decimalValue_repr (n : ℕ) : decimalValue n.repr.toList = n := by
  rw [Nat.toList_repr]
  exact Nat.ofDigitChars_toDigits (by decide) (by decide)

lemma digit_of_mem_repr {n : ℕ} {c : Char} (h : c ∈ n.repr.toList) : c.isDigit = true :=
  Nat.isDigit_of_mem_toDigits (by decide) (by decide) (Nat.toList_repr ▸ h)

lemma ceil_le_iff {a d n : ℕ} (hd : 0 < d) : (a / d+if 0 < a % d then 1 else 0) ≤ n ↔ a ≤ d*n := by
  have hdi := Nat.div_add_mod a d
  split_ifs with hr
  · rw [Nat.add_one_le_iff,Nat.div_lt_iff_lt_mul hd,Nat.mul_comm n d]
    constructor
    · exact fun h => h.le
    · intro h
      refine lt_of_le_of_ne h fun heq => ?_
      rw [heq,Nat.mul_mod_right] at hr
      omega
  · rw [Nat.add_zero]
    constructor
    · intro h
      have hmu := Nat.mul_le_mul_left d h
      omega
    · intro h
      exact Nat.div_le_of_le_mul h

lemma quotient_fits {a d : ℕ} (h : a < 2^256) : (a / d+if 0 < a % d then 1 else 0) < 2^256 := by
  rcases Nat.eq_zero_or_pos d with rfl | hd
  · split_ifs <;> omega
  · refine lt_of_le_of_lt ((ceil_le_iff hd).mpr ?_) h
    exact Nat.le_mul_of_pos_left a hd

@[ext]
structure Amount where
  n : ℕ
  fits : n < 2^256
  deriving DecidableEq, Repr

namespace Amount

/-- A numeral is the amount of its low 256 bits. -/
instance (n : ℕ) : OfNat Amount n := ⟨n % 2^256,Nat.mod_lt n (Nat.two_pow_pos 256)⟩

def zero : Amount := ⟨0,by decide⟩

/-- The value `n` when its bit length is at most 256. -/
def ofNat? (n : ℕ) : Option Amount :=
  if h : n < 2^256 then some ⟨n,h⟩ else none

/-- The canonical texts of an unsigned integer: digits without a leading zero. -/
def unsignedInteger (s : String) : Bool :=
  match s.toList with
  | [] => false
  | ['0'] => true
  | c::digits => c ≠ '0' && (c::digits).all Char.isDigit

def parse (s : String) : Except String Amount :=
  if ¬unsignedInteger s then .error "amount must be a canonical unsigned integer string"
  else if h : decimalValue s.toList < 2^256 then .ok ⟨_,h⟩
  else .error "amount exceeds 256 bits"

def isZero (a : Amount) : Bool := a.n == 0

variable (a b : Amount)

def cmp : Ordering := compare a.n b.n

def add : Except String Amount :=
  if h : a.n+b.n < 2^256 then .ok ⟨a.n+b.n,h⟩ else .error "amount overflow"

def sub : Except String Amount :=
  if a.cmp b = .lt then .error "amount underflow"
  else .ok ⟨a.n - b.n,lt_of_le_of_lt (Nat.sub_le _ _) a.fits⟩

/-- `floor (a * multiplier / divisor)` with an unbounded intermediate product. -/
def mulDivFloor (a multiplier divisor : Amount) : Except String Amount :=
  if divisor.isZero then .error "division by zero"
  else if h : a.n*multiplier.n / divisor.n < 2^256 then .ok ⟨_,h⟩
  else .error "amount overflow"

def mul : Except String Amount :=
  if h : a.n*b.n < 2^256 then .ok ⟨a.n*b.n,h⟩ else .error "amount overflow"

/-- `ceil (a / divisor)`; no check follows, the quotient is not above the amount. -/
def divCeil (a divisor : Amount) : Except String Amount :=
  if divisor.isZero then .error "division by zero"
  else .ok ⟨a.n / divisor.n+if 0 < a.n % divisor.n then 1 else 0,quotient_fits a.fits⟩

@[simp] lemma ofNat_n {n : ℕ} : (OfNat.ofNat n : Amount).n = n % 2^256 := rfl

@[simp] lemma zero_n : zero.n = 0 := rfl

lemma basis_fits : 10000 < 2^256 := by decide

lemma uint32_fits (n : UInt32) : n.toNat < 2^256 := lt_trans n.toNat_lt (by decide)

@[simp] lemma isZero_iff {a : Amount} : a.isZero = true ↔ a.n = 0 := by
  simp [isZero]

@[simp] lemma isZero_eq_false_iff {a : Amount} : a.isZero = false ↔ a.n ≠ 0 := by
  simp [isZero]

variable {a b : Amount}

@[simp] lemma cmp_eq_lt : a.cmp b = .lt ↔ a.n < b.n := by
  simp [cmp,compare_lt_iff_lt]

@[simp] lemma cmp_eq_eq : a.cmp b = .eq ↔ a = b := by
  simp [cmp,Amount.ext_iff]

@[simp] lemma cmp_eq_gt : a.cmp b = .gt ↔ b.n < a.n := by
  simp [cmp,compare_gt_iff_gt]

lemma ofNat?_eq_some {n : ℕ} : ofNat? n = some a ↔ n = a.n := by
  unfold ofNat?
  split_ifs with h
  · simp [Amount.ext_iff]
  · exact iff_of_false nofun fun hn => h (hn ▸ a.fits)

lemma add_eq_ok {a b c : Amount} : a.add b = .ok c ↔ a.n+b.n = c.n := by
  unfold add
  split_ifs with h
  · simp [Amount.ext_iff]
  · have := c.fits
    simp only [false_iff]
    omega

lemma add_eq_error {e : String} : a.add b = .error e ↔ 2^256 ≤ a.n+b.n ∧ e = "amount overflow" := by
  unfold add
  split_ifs with h
  · simp only [false_iff]
    omega
  · simp only [Except.error.injEq]
    constructor
    · rintro rfl
      exact ⟨Nat.le_of_not_lt h,rfl⟩
    · exact fun ⟨_,he⟩ => he.symm

lemma mul_eq_ok {a b c : Amount} : a.mul b = .ok c ↔ a.n*b.n = c.n := by
  unfold mul
  split_ifs with h
  · simp [Amount.ext_iff]
  · exact iff_of_false nofun fun hn => h (hn ▸ c.fits)

lemma sub_eq_ok {a b c : Amount} : a.sub b = .ok c ↔ b.n ≤ a.n ∧ a.n - b.n = c.n := by
  unfold sub
  split_ifs with h
  · rw [cmp_eq_lt] at h
    simp only [false_iff]
    omega
  · rw [cmp_eq_lt] at h
    simp only [Except.ok.injEq,Amount.ext_iff]
    omega

lemma mulDivFloor_eq_ok {a multiplier divisor : Amount} (hp : 0 < divisor.n)
    (hle : multiplier.n ≤ divisor.n) : ∃ c, a.mulDivFloor multiplier divisor = .ok c ∧
      c.n = a.n*multiplier.n / divisor.n := by
  have hbo : a.n*multiplier.n / divisor.n ≤ a.n :=
    Nat.div_le_of_le_mul (by rw [mul_comm divisor.n]; exact Nat.mul_le_mul_left _ hle)
  have hf := lt_of_le_of_lt hbo a.fits
  have hne : ¬ divisor.isZero = true := by
    rw [isZero_iff]
    omega
  simp only [mulDivFloor,hne,hf]
  simp

end Amount

end Ocrypt.Money
