import Mathlib.Algebra.Order.Floor.Div
import Ocrypt.Authentication
import Ocrypt.Store

/-! What a payer is charged: the conversion of a fiat amount at a market price, and the quotes
that the quote service issues at an atomic rate. -/
namespace Ocrypt.Quotes
open Money Domain Fallible Requests Authentication Store

/-- The arguments of a conversion. The price is in units of fiat for one whole asset. -/
structure Conversion where
  fiatMinor : Amount
  (fiatScale assetDecimals : ℕ)
  (priceNumerator priceDenominator : Amount)
  spreadBPS : ℕ

namespace Conversion

def numerator (c : Conversion) : ℕ :=
  c.fiatMinor.n*c.priceDenominator.n*10^c.assetDecimals*(10000+c.spreadBPS)

def denominator (c : Conversion) : ℕ := c.priceNumerator.n*10^c.fiatScale*10000

abbrev Valid (c : Conversion) : Prop :=
  0 < c.fiatMinor.n ∧ 0 < c.priceNumerator.n ∧ 0 < c.priceDenominator.n ∧ c.fiatScale ≤ 77 ∧
    c.assetDecimals ≤ 77 ∧ c.spreadBPS ≤ 10000

end Conversion

def fiatMinorToAssetAtomic (c : Conversion) : Except String Amount := do
  require (¬c.fiatMinor.isZero ∧ ¬c.priceNumerator.isZero ∧ ¬c.priceDenominator.isZero ∧
    c.fiatScale ≤ 77 ∧ c.assetDecimals ≤ 77 ∧ c.spreadBPS ≤ 10000)
    "invalid fiat-to-asset conversion"
  let quotient := c.numerator / c.denominator+if 0 < c.numerator % c.denominator then 1 else 0
  require (0 < quotient) "fiat-to-asset conversion outside uint256"
  orFail (Amount.ofNat? quotient) "fiat-to-asset conversion outside uint256"

/-- The charges that cover the fiat amount at the price and the spread. -/
def covering (c : Conversion) : Set ℕ :=
  {n | 0 < n ∧ c.fiatMinor.n*c.priceDenominator.n*10^c.assetDecimals*(10000+c.spreadBPS) ≤
    n*c.priceNumerator.n*10^c.fiatScale*10000}

section
variable {c c' : Conversion} {a a' : Amount} {n : ℕ}

lemma Conversion.Valid.pos (h : c.Valid) : 0 < c.numerator ∧ 0 < c.denominator := by
  obtain ⟨hf,hn,hd,-⟩ := h
  unfold Conversion.numerator Conversion.denominator
  constructor <;> positivity

lemma mem_covering (h : c.Valid) : n ∈ covering c ↔ c.numerator ≤ c.denominator*n := by
  have hd : c.denominator*n = n*c.priceNumerator.n*10^c.fiatScale*10000 := by
    unfold Conversion.denominator
    ring
  rw [hd]
  refine ⟨And.right,fun hn => ⟨Nat.pos_of_ne_zero ?_,hn⟩⟩
  rintro rfl
  simp [h.pos.1.ne'] at hn

lemma conversion_eq_ok : fiatMinorToAssetAtomic c = .ok a ↔ c.Valid ∧ IsLeast (covering c) a.n := by
  have hv : (¬c.fiatMinor.isZero ∧ ¬c.priceNumerator.isZero ∧ ¬c.priceDenominator.isZero ∧
      c.fiatScale ≤ 77 ∧ c.assetDecimals ≤ 77 ∧ c.spreadBPS ≤ 10000) ↔ c.Valid := by
    simp only [Amount.isZero_iff]
    omega
  simp only [fiatMinorToAssetAtomic,do_ok,orFail_eq_ok,hv,Amount.ofNat?_eq_some]
  refine and_congr_right fun hv => ?_
  have hle : ∀ n, _ ≤ n ↔ n ∈ covering c := fun n => (ceil_le_iff hv.pos.2).trans
    (mem_covering hv).symm
  set q := c.numerator / c.denominator+if 0 < c.numerator % c.denominator then 1 else 0
  have hq : IsLeast (covering c) q := ⟨(hle q).mp le_rfl,fun n hn => (hle n).mpr hn⟩
  exact ⟨fun h => h.2 ▸ hq,fun h => ⟨hq.1.1,hq.unique h⟩⟩

/-- The price, as quote units for one whole asset. -/
def Conversion.price (c : Conversion) : ℚ := c.priceNumerator.n / c.priceDenominator.n

lemma charge_le (hc : fiatMinorToAssetAtomic c = .ok a) (hc' : fiatMinorToAssetAtomic c' = .ok a')
    (h : c.numerator*c'.denominator ≤ c'.numerator*c.denominator) : a.n ≤ a'.n := by
  obtain ⟨hv,hl⟩ := conversion_eq_ok.mp hc
  obtain ⟨hv',hl'⟩ := conversion_eq_ok.mp hc'
  refine hl.2 ((mem_covering hv).mpr ?_)
  have hle := (mem_covering hv').mp hl'.1
  refine Nat.le_of_mul_le_mul_right (h.trans ?_) hv'.pos.2
  calc c'.numerator*c.denominator ≤ c'.denominator*a'.n*c.denominator :=
        Nat.mul_le_mul_right _ hle
    _ = c.denominator*a'.n*c'.denominator := by ring

end

/-- The conversion gives the least charge that covers the amount, and fails when there is none of
256 bits. More fiat, a larger spread or a lower price never cost less, and two parts never cost
less than their sum. -/
theorem fiat_conversion_exact (c : Conversion) :
    (∀ a, fiatMinorToAssetAtomic c = .ok a ↔ c.Valid ∧ IsLeast (covering c) a.n) ∧
    (∀ c' a a', fiatMinorToAssetAtomic c = .ok a → fiatMinorToAssetAtomic c' = .ok a' →
      c'.fiatScale = c.fiatScale → c'.assetDecimals = c.assetDecimals →
      c.fiatMinor.n ≤ c'.fiatMinor.n → c.spreadBPS ≤ c'.spreadBPS → c'.price ≤ c.price →
      a.n ≤ a'.n) ∧ ∀ x y a a₁ a₂, c.fiatMinor.n = x.n+y.n → fiatMinorToAssetAtomic c = .ok a →
      fiatMinorToAssetAtomic { c with fiatMinor := x } = .ok a₁ →
      fiatMinorToAssetAtomic { c with fiatMinor := y } = .ok a₂ → a.n ≤ a₁.n+a₂.n := by
  refine ⟨fun a => conversion_eq_ok,?_,?_⟩
  · intro c' a a' hc hc' hfs had hfi hsp hpr
    refine charge_le hc hc' ?_
    have hv := (conversion_eq_ok.mp hc).1
    have hv' := (conversion_eq_ok.mp hc').1
    unfold Conversion.price at hpr
    rw [div_le_div_iff₀ (by exact_mod_cast hv'.2.2.1) (by exact_mod_cast hv.2.2.1)] at hpr
    have hpr : c'.priceNumerator.n*c.priceDenominator.n ≤
        c.priceNumerator.n*c'.priceDenominator.n := by exact_mod_cast hpr
    unfold Conversion.numerator Conversion.denominator
    rw [hfs,had]
    calc c.fiatMinor.n*c.priceDenominator.n*10^c.assetDecimals*(10000+c.spreadBPS) *
          (c'.priceNumerator.n*10^c.fiatScale*10000)
        = c.fiatMinor.n*(c'.priceNumerator.n*c.priceDenominator.n)*10^c.assetDecimals *
          (10000+c.spreadBPS)*10^c.fiatScale*10000 := by ring
      _ ≤ c'.fiatMinor.n*(c.priceNumerator.n*c'.priceDenominator.n)*10^c.assetDecimals *
          (10000+c'.spreadBPS)*10^c.fiatScale*10000 := by gcongr
      _ = _ := by ring
  · intro x y a a₁ a₂ hxy hc hx hy
    obtain ⟨hv,hl⟩ := conversion_eq_ok.mp hc
    have h₁ := (conversion_eq_ok.mp hx).2.1.2
    have h₂ := (conversion_eq_ok.mp hy).2.1.2
    have hp := (conversion_eq_ok.mp hx).2.1.1
    refine hl.2 ⟨by omega,?_⟩
    simp only [hxy,Nat.add_mul] at h₁ h₂ ⊢
    omega

structure AtomicRate where
  (numerator denominator : Amount)
  spreadBPS : ℕ
  source : String
  (policyVersion observedAt maxAge : ℤ)

structure RateQuote where
  (id tenantID merchantID paymentIntentID : String)
  fiatAmountMinor : Amount
  fiatCurrency : String
  fiatScale : ℕ
  assetID : String
  (cryptoAmountAtomic rateNumerator rateDenominator : Amount)
  spreadBPS : ℕ
  source : String
  (policyVersion issuedAt expiresAt : ℤ)

/-- The service with what the clock and the generator of identifiers answer next. -/
structure QuoteService where
  rate : Principal → PaymentIntent → String → Except Failure AtomicRate
  saveQuote : RateQuote → Except Failure Unit
  now : ℤ
  newID : String

/-- An error of package money, which wraps no sentinel. -/
def plain {α : Type} : Except String α → Except Failure α
  | .ok a => .ok a
  | .error e => .error ⟨.unwrapped,e⟩

def issue (s : QuoteService) (p : Principal) (intent : PaymentIntent) (assetID : String) (ttl : ℤ) :
    Except Failure RateQuote := do
  require (minute ≤ ttl ∧ ttl ≤ 60*minute)
    ⟨.validation,"quote TTL must be between one minute and one hour"⟩
  let rate ← s.rate p intent assetID
  require (¬rate.denominator.isZero ∧ ¬rate.numerator.isZero ∧ rate.source ≠ "" ∧
    1 ≤ rate.policyVersion) ⟨.invariantViolation,"invalid rate"⟩
  require (rate.spreadBPS ≤ 10000) ⟨.invariantViolation,"spread exceeds 10000 basis points"⟩
  require (0 < rate.maxAge ∧ durationBetween s.now rate.observedAt ≤ rate.maxAge ∧
    rate.observedAt ≤ s.now+30*second) ⟨.stateConflict,"rate is stale"⟩
  let base ← plain (intent.amountMinor.mul rate.numerator)
  -- `MustParse` would panic, which the bound on the spread excludes.
  let spread ← orFail (Amount.ofNat? (10000+rate.spreadBPS)) ⟨.unwrapped,"amount exceeds 256 bits"⟩
  let base ← plain (base.mul spread)
  let denominator ← plain (rate.denominator.mul ⟨10000,Amount.basis_fits⟩)
  let atomic ← plain (base.divCeil denominator)
  let quote : RateQuote := {
    id := s.newID, tenantID := p.tenantID, merchantID := p.merchantID,
    paymentIntentID := intent.id, fiatAmountMinor := intent.amountMinor,
    fiatCurrency := intent.currency, fiatScale := intent.currencyScale, assetID,
    cryptoAmountAtomic := atomic, rateNumerator := rate.numerator,
    rateDenominator := rate.denominator, spreadBPS := rate.spreadBPS, source := rate.source,
    policyVersion := rate.policyVersion, issuedAt := s.now, expiresAt := s.now+ttl }
  s.saveQuote quote
  pure quote

/-- The rate is admissible and fresh, and nothing but the amounts can refuse the quote. -/
structure Quotable (s : QuoteService) (p : Principal) (intent : PaymentIntent) (assetID : String)
    (ttl : ℤ) (rate : AtomicRate) : Prop where
  ttl : minute ≤ ttl ∧ ttl ≤ 60*minute
  found : s.rate p intent assetID = .ok rate
  valid : 0 < rate.denominator.n ∧ 0 < rate.numerator.n ∧ rate.source ≠ "" ∧ 1 ≤ rate.policyVersion
  spread : rate.spreadBPS ≤ 10000
  fresh : 0 < rate.maxAge ∧ durationBetween s.now rate.observedAt ≤ rate.maxAge ∧
    rate.observedAt ≤ s.now+30*second
  stored : ∀ quote, s.saveQuote quote = .ok ()

lemma plain_eq_ok {α : Type} {x : Except String α} {a : α} : plain x = .ok a ↔ x = .ok a := by
  cases x <;> simp [plain]

lemma divCeil_eq_ok {a d : Amount} (hd : 0 < d.n) :
    ∃ c, a.divCeil d = .ok c ∧ c.n = a.n ⌈/⌉ d.n := by
  have hz : ¬d.isZero = true := by
    rw [Amount.isZero_iff]
    omega
  refine ⟨_,by rw [Amount.divCeil,if_neg hz],?_⟩
  exact eq_of_forall_ge_iff fun n => (ceil_le_iff hd).trans (ceilDiv_le_iff_le_mul hd).symm

section
variable {s : QuoteService} {p : Principal} {intent : PaymentIntent} {assetID : String} {ttl : ℤ}
  {rate : AtomicRate} {quote : RateQuote}

lemma issue_charge (hr : s.rate p intent assetID = .ok rate)
    (h : issue s p intent assetID ttl = .ok quote) :
    intent.amountMinor.n*rate.numerator.n*(10000+rate.spreadBPS) < 2^256 ∧
    rate.denominator.n*10000 < 2^256 ∧ quote.cryptoAmountAtomic.n =
      (intent.amountMinor.n*rate.numerator.n*(10000+rate.spreadBPS)) ⌈/⌉
        (rate.denominator.n*10000) := by
  simp only [issue,do_ok,hr,Except.ok.injEq,exists_eq_left',plain_eq_ok,orFail_eq_ok,
    Amount.ofNat?_eq_some,Amount.mul_eq_ok,Amount.isZero_iff] at h
  obtain ⟨-,⟨hz,-⟩,-,-,base,hb,spread,hs,product,hp,divisor,hd,atomic,ha,-,-,rfl⟩ := h
  obtain ⟨c,hc,hn⟩ := divCeil_eq_ok (a := product) (show 0 < divisor.n by omega)
  rw [hc] at ha
  cases ha
  rw [hb,hs,hp,hd]
  exact ⟨product.fits,divisor.fits,hn⟩

lemma issue_succeeds (h : Quotable s p intent assetID ttl rate)
    (hp : intent.amountMinor.n*rate.numerator.n*(10000+rate.spreadBPS) < 2^256)
    (hd : rate.denominator.n*10000 < 2^256) :
    ∃ quote, issue s p intent assetID ttl = .ok quote := by
  have hb := lt_of_le_of_lt (Nat.le_mul_of_pos_right _ (by omega)) hp
  have hs : 10000+rate.spreadBPS < 2^256 := by
    have := h.spread
    omega
  obtain ⟨hden,hnum,hso,hpo⟩ := h.valid
  have hz : ¬rate.denominator.isZero ∧ ¬rate.numerator.isZero ∧ rate.source ≠ "" ∧
      1 ≤ rate.policyVersion := by
    simp only [Amount.isZero_iff]
    exact ⟨hden.ne',hnum.ne',hso,hpo⟩
  obtain ⟨c,hc,-⟩ := divCeil_eq_ok (a := ⟨_,hp⟩) (d := ⟨_,hd⟩) (Nat.mul_pos hden (by decide))
  simp only [issue,do_ok,h.found,Except.ok.injEq,exists_eq_left',plain_eq_ok,orFail_eq_ok,
    Amount.ofNat?_eq_some,Amount.mul_eq_ok]
  exact ⟨_,h.ttl,hz,h.spread,h.fresh,⟨_,hb⟩,rfl,⟨_,hs⟩,rfl,⟨_,hp⟩,rfl,⟨_,hd⟩,rfl,c,hc,(),
    h.stored _,rfl⟩

end

/-- A quote carries the exact charge rounded up. With an admissible rate one is issued exactly
when the products of the charge fit 256 bits, whatever the charge itself does. -/
theorem quote_issued_iff (s : QuoteService) (p : Principal) (intent : PaymentIntent)
    (assetID : String) (ttl : ℤ) (rate : AtomicRate) :
    let product := intent.amountMinor.n*rate.numerator.n*(10000+rate.spreadBPS)
    let divisor := rate.denominator.n*10000
    (∀ quote, s.rate p intent assetID = .ok rate → issue s p intent assetID ttl = .ok quote →
      quote.cryptoAmountAtomic.n = product ⌈/⌉ divisor) ∧
    (Quotable s p intent assetID ttl rate → ((∃ quote, issue s p intent assetID ttl = .ok quote) ↔
      product < 2^256 ∧ divisor < 2^256)) := by
  refine ⟨fun quote hr h => (issue_charge hr h).2.2,fun h => ⟨?_,?_⟩⟩
  · rintro ⟨quote,hq⟩
    obtain ⟨hp,hd,-⟩ := issue_charge h.found hq
    exact ⟨hp,hd⟩
  · rintro ⟨hp,hd⟩
    exact issue_succeeds h hp hd

/-- At parity, with `2^100` atomic units for `2^100` of fiat. -/
def sampleRate : AtomicRate := ⟨⟨2^100,by decide⟩,⟨2^100,by decide⟩,0,"market",1,0,minute⟩

def sampleParity : QuoteService where
  rate _ _ _ := .ok sampleRate
  saveQuote _ := .ok ()
  now := 0
  newID := "quote"

def sampleIntent (amountMinor : Amount) : PaymentIntent :=
  ⟨"intent","tenant","merchant","",amountMinor,"usd",2,"",.pending,1⟩

lemma sampleParity_quotable (amountMinor : Amount) : Quotable sampleParity ⟨"","","","",[]⟩
    (sampleIntent amountMinor) "usdt" minute sampleRate :=
  ⟨by decide,rfl,by decide,by decide,by decide,fun _ => rfl⟩

theorem quote_issued_sample : ∃ quote, issue sampleParity ⟨"","","","",[]⟩
    (sampleIntent ⟨2^100,by decide⟩) "usdt" minute = .ok quote ∧
      quote.cryptoAmountAtomic.n = 2^100 := by
  obtain ⟨hch,his⟩ := quote_issued_iff sampleParity ⟨"","","","",[]⟩ (sampleIntent ⟨2^100,by decide⟩)
    "usdt" minute sampleRate
  obtain ⟨quote,hq⟩ := (his (sampleParity_quotable _)).mpr (by decide +kernel)
  exact ⟨quote,hq,(hch quote rfl hq).trans (by decide +kernel)⟩

/-- A charge of `2^200` is refused, since the amount is first multiplied with the numerator. -/
theorem charge_refused_at_parity :
    let intent := sampleIntent ⟨2^200,by decide⟩
    ∃ rate, Quotable sampleParity ⟨"","","","",[]⟩ intent "usdt" minute rate ∧
      (intent.amountMinor.n*rate.numerator.n*(10000+rate.spreadBPS)) ⌈/⌉ (rate.denominator.n*10000) =
        2^200 ∧ issue sampleParity ⟨"","","","",[]⟩ intent "usdt" minute =
          .error ⟨.unwrapped,"amount overflow"⟩ := by
  refine ⟨_,sampleParity_quotable _,?_,?_⟩
  · decide +kernel
  · decide +kernel

end Ocrypt.Quotes
