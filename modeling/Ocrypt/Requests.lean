import Ocrypt.Money

/-! Signed HTTP requests: bytes and headers, integers and digests as texts, and the instants and
durations that a timestamp is compared with. -/
namespace Ocrypt.Requests
open Money

abbrev Bytes := List UInt8

variable (text : String)

def utf8 : Bytes := text.toUTF8.data.toList

lemma utf8_append (a b : String) : utf8 (a ++ b) = utf8 a ++ utf8 b := by
  simp [utf8]

lemma utf8_injective : Function.Injective utf8 := by
  intro a b h
  have hd := Array.toList_inj.mp h
  exact String.toByteArray_inj.mp (ByteArray.ext hd)

structure Crypto where
  sha256 : Bytes → Bytes
  hmacSHA256 : (key message : Bytes) → Bytes

/-- The function gives different results on these two arguments, or they are one. -/
def NoCollision {α β : Type*} (f : α → β) (a b : α) : Prop := f a = f b → a = b

abbrev Header := String → List String

def Header.get (h : Header) (name : String) : String := (h name).headD ""

/-- `unicode.IsSpace`. -/
def isSpace (c : Char) : Bool :=
  c.toNat ∈ [9,10,11,12,13,32,0x85,0xA0,0x1680,0x2028,0x2029,0x202F,0x205F,0x3000] ||
    (0x2000 ≤ c.toNat && c.toNat ≤ 0x200A)

/-- `strings.TrimSpace`. -/
def trimSpace : String :=
  String.ofList ((text.toList.dropWhile isSpace).reverse.dropWhile isSpace).reverse

/-- `strings.TrimSpace(text) == ""`. -/
def isBlank : Bool := text.toList.all isSpace

def hexDigit (n : ℕ) : Char := (['0','1','2','3','4','5','6','7','8','9','a','b','c','d',
  'e','f'])[n]?.getD '0'

/-- `hex.EncodeToString`. -/
def hexEncode (bytes : Bytes) : String :=
  String.ofList (bytes.flatMap fun b => [hexDigit (b.toNat / 16),hexDigit (b.toNat % 16)])

lemma hexDigit_injective {m n : ℕ} (hm : m < 16) (hn : n < 16) (h : hexDigit m = hexDigit n) :
    m = n := by
  have hal : ∀ m < 16, ∀ n < 16, hexDigit m = hexDigit n → m = n := by decide
  exact hal m hm n hn h

lemma hexEncode_injective : Function.Injective hexEncode := by
  intro a b h
  have hl := String.ofList_injective h
  clear h
  induction a generalizing b with
  | nil => cases b with
    | nil => rfl
    | cons y ys => simp at hl
  | cons x xs ih => cases b with
    | nil => simp at hl
    | cons y ys =>
      simp only [List.flatMap_cons,List.cons_append,List.cons.injEq] at hl
      obtain ⟨hhi,hlo,hr⟩ := hl
      have hx := x.toNat_lt
      have hy := y.toNat_lt
      have hd := hexDigit_injective (by omega) (by omega) hhi
      have hm := hexDigit_injective (Nat.mod_lt _ (by omega)) (Nat.mod_lt _ (by omega)) hlo
      have hbyte : x = y := UInt8.toNat_inj.mp (by omega)
      rw [hbyte,ih hr]

def hexValue (c : Char) : Option ℕ :=
  if '0' ≤ c ∧ c ≤ '9' then some (c.toNat - '0'.toNat)
  else if 'a' ≤ c ∧ c ≤ 'f' then some (c.toNat - 'a'.toNat+10)
  else if 'A' ≤ c ∧ c ≤ 'F' then some (c.toNat - 'A'.toNat+10)
  else none

/-- `hex.DecodeString`. -/
def hexDecode : Option Bytes := go text.toList
where
  go : List Char → Option Bytes
    | [] => some []
    | [_] => none
    | high::low::rest => do
      let h ← hexValue high
      let l ← hexValue low
      let bytes ← go rest
      pure (UInt8.ofNat (16*h+l)::bytes)

/-- `strconv.ParseInt(text, 10, 64)`: an optional sign, at least one digit, and a value that
fits 64 bits. -/
def parseInt64 : Option ℤ :=
  let (negative,digits) := match text.toList with
    | '-'::rest => (true,rest)
    | '+'::rest => (false,rest)
    | chars => (false,chars)
  let value : ℤ := if negative then -(decimalValue digits) else decimalValue digits
  if digits ≠ [] ∧ digits.all Char.isDigit ∧ -2^63 ≤ value ∧ value < 2^63 then some value
  else none

def second : ℤ := 1000000000

def wrap64 (n : ℤ) : ℤ := (n+2^63) % 2^64 - 2^63

/-- `time.Unix(seconds, 0)`: the seconds are counted from the year 1, in 64 bits. -/
def unixTime (seconds : ℤ) : ℤ :=
  (wrap64 (seconds+62135596800) - 62135596800)*second

/-- `t.Sub(u)`, which stops at the ends of the range of a duration. -/
def durationBetween (t u : ℤ) : ℤ := max (-2^63) (min (t - u) (2^63 - 1))

/-- `if delta < 0 { delta = -delta }` in 64 bits. -/
def magnitude (delta : ℤ) : ℤ := if delta < 0 then wrap64 (-delta) else delta

-- The most negative duration has no opposite, so its magnitude is negative as well.
example : magnitude (durationBetween 0 (unixTime 100000000000)) < 0 := by decide

end Ocrypt.Requests
