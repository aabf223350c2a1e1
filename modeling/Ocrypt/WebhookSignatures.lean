import Ocrypt.Authentication
import Ocrypt.FieldText

/-! The signatures of webhook deliveries: the header that carries one, and what an accepted header
says about the event, the time and the body that were signed. -/
namespace Ocrypt.WebhookSignatures
open Money Fallible Requests FieldText List
open Authentication (splitCommas)

structure Signing where
  hmacSHA256 : (key message : Bytes) → Bytes
  encode : Bytes → String
  decode : String → Option Bytes
  hmac_ne (key message : Bytes) : hmacSHA256 key message ≠ []
  encode_nil : encode [] = ""
  decode_encode (bytes : Bytes) : decode (encode bytes) = some bytes
  plain (bytes : Bytes) : ∀ c ∈ (encode bytes).toList, c ≠ ',' ∧ isSpace c = false

structure Signature where
  (eventID keyID : String)
  unixTime : ℤ
  digest : String
  deriving DecidableEq, Repr

/-- `t.Unix()`, in 64 bits. -/
def unixSeconds (t : ℤ) : ℤ := wrap64 (t / second)

def signingInput (eventID : String) (unix : ℤ) (body : Bytes) : Bytes :=
  utf8 (eventID ++ "." ++ toString unix ++ ".") ++ body

def sign (rt : Signing) (secret : Bytes) (keyID eventID : String) (timestamp : ℤ)
    (canonicalBody : Bytes) : Signature :=
  let unix := unixSeconds timestamp
  ⟨eventID,keyID,unix,rt.encode (rt.hmacSHA256 secret (signingInput eventID unix canonicalBody))⟩

def verify (rt : Signing) (secret : Bytes) (sig : Signature) (canonicalBody : Bytes)
    (now tolerance : ℤ) : Except String Unit := do
  require (sig.eventID ≠ "" ∧ sig.keyID ≠ "" ∧ sig.digest ≠ "") "incomplete signature"
  let signedAt := unixTime sig.unixTime
  require (magnitude (durationBetween now signedAt) ≤ tolerance)
    "signature timestamp is outside tolerance"
  let want := sign rt secret sig.keyID sig.eventID signedAt canonicalBody
  let got ← orFail (rt.decode sig.digest) "invalid signature encoding"
  require (got = (rt.decode want.digest).getD []) "signature mismatch"

def Signature.header (s : Signature) : String :=
  "t=" ++ toString s.unixTime ++ ",key=" ++ s.keyID ++ ",event=" ++ s.eventID ++ ",v1=" ++ s.digest

/-- `strings.SplitN(part, "=", 2)`, where it gives two texts. -/
def keyValue (part : String) : Option (String × String) :=
  match part.toList.dropWhile (· ≠ '=') with
  | [] => none
  | _::value => some (String.ofList (part.toList.takeWhile (· ≠ '=')),String.ofList value)

def entry (parts : List (String × String)) (key : String) : String :=
  (parts.reverse.lookup key).getD ""

def parseHeader (value : String) : Except String Signature := do
  let parts := ((splitCommas value).map trimSpace).filterMap keyValue
  let unix ← orFail (parseInt64 (entry parts "t")) "invalid webhook timestamp"
  pure ⟨entry parts "event",entry parts "key",unix,entry parts "v1"⟩

section

variable {c : Char} {u : ℤ} {key value : List Char}

lemma mem_toString (h : c ∈ (toString u).toList) : c = '-' ∨ c.isDigit = true := by
  rw [Int.toString_eq_repr] at h
  cases u with
  | ofNat n => exact .inr (digit_of_mem_repr h)
  | negSucc n =>
    simp only [Int.repr,String.toList_append] at h
    rcases mem_append.mp h with h | h
    · exact .inl (by simpa using h)
    · exact .inr (digit_of_mem_repr h)

lemma parseInt64_toString (hl : -2^63 ≤ u) (hhi : u < 2^63) : parseInt64 (toString u) = some u := by
  have hd : ∀ n : ℕ, n.repr.toList ≠ [] ∧ n.repr.toList.all Char.isDigit = true := by
    intro n
    refine ⟨?_,all_eq_true.mpr fun c hc => digit_of_mem_repr hc⟩
    rw [Nat.toList_repr]
    exact Nat.toDigits_ne_nil
  rw [Int.toString_eq_repr]
  cases u with
  | ofNat n =>
    obtain ⟨hne,hal⟩ := hd n
    cases hte : n.repr.toList with
    | nil => exact absurd hte hne
    | cons c rest =>
      have hc : c.isDigit = true := digit_of_mem_repr (hte ▸ mem_cons_self)
      have hm : c ≠ '-' := fun h => by simp [h] at hc
      have hp : c ≠ '+' := fun h => by simp [h] at hc
      have hv := decimalValue_repr n
      rw [hte] at hv hal
      simp only [parseInt64,Int.repr,hte]
      split
      · next heq => exact absurd (List.cons.inj heq).1 hm
      · next heq => exact absurd (List.cons.inj heq).1 hp
      · rw [hv]
        exact if_pos ⟨by simp,hal,hl,hhi⟩
  | negSucc n =>
    obtain ⟨hne,hal⟩ := hd (n+1)
    have hv := decimalValue_repr (n+1)
    have hsi : "-".toList = ['-'] := rfl
    simp only [parseInt64,Int.repr,String.toList_append,hsi,singleton_append]
    rw [hv]
    exact if_pos ⟨hne,hal,hl,hhi⟩

lemma toString_inj {u v : ℤ} (hu : -2^63 ≤ u ∧ u < 2^63) (hv : -2^63 ≤ v ∧ v < 2^63)
    (h : toString u = toString v) : u = v := by
  have hr := parseInt64_toString hu.1 hu.2
  rw [h,parseInt64_toString hv.1 hv.2] at hr
  exact (Option.some.inj hr).symm

lemma dropWhile_append_of_fixed {l r : List Char} (hl : l ≠ []) (h : l.dropWhile isSpace = l) :
    (l ++ r).dropWhile isSpace = l ++ r := by
  cases l with
  | nil => exact absurd rfl hl
  | cons c l =>
    have hc : isSpace c = false := by
      by_contra hsp
      have hln := congrArg List.length h
      rw [dropWhile_cons_of_pos (by simpa using hsp)] at hln
      have hle := (l.dropWhile_suffix isSpace).length_le
      simp only [length_cons] at hln
      omega
    simp [hc]

lemma trimSpace_segment (hk : key ≠ []) (hf : key.dropWhile isSpace = key) (hv : value ≠ [])
    (hl : value.reverse.dropWhile isSpace = value.reverse) :
    trimSpace (String.ofList (segment '=' (key,value))) =
      String.ofList (segment '=' (key,value)) := by
  have hba : (segment '=' (key,value)).reverse = value.reverse ++ ('='::key.reverse) := by
    simp [FieldText.segment]
  rw [trimSpace,String.toList_ofList]
  unfold FieldText.segment at hba ⊢
  rw [dropWhile_append_of_fixed hk hf,hba,
    dropWhile_append_of_fixed (by simpa using hv) hl,← hba,reverse_reverse]

lemma keyValue_segment (hk : '=' ∉ key) : keyValue (String.ofList (segment '=' (key,value))) =
      some (String.ofList key,String.ofList value) := by
  have hal : ∀ c ∈ key, (decide (c ≠ '=')) = true := by
    intro c hc
    exact decide_eq_true fun h => hk (h ▸ hc)
  unfold keyValue FieldText.segment
  simp only [String.toList_ofList]
  rw [dropWhile_append_of_pos hal,takeWhile_append_of_pos hal]
  simp

/-- A value that a header can carry: it is not empty, has no comma and does not end with white
space. -/
structure Carried (text : String) : Prop where
  nonempty : text ≠ ""
  commaFree : ',' ∉ text.toList
  trimmed : text.toList.reverse.dropWhile isSpace = text.toList.reverse

lemma carried_of_plain {text : String} (hne : text ≠ "")
    (h : ∀ c ∈ text.toList, c ≠ ',' ∧ isSpace c = false) : Carried text := by
  refine ⟨hne,fun hm => (h _ hm).1 rfl,?_⟩
  cases hba : text.toList.reverse with
  | nil => rfl
  | cons c rest =>
    have hc : c ∈ text.toList := mem_reverse.mp (hba ▸ mem_cons_self)
    simp [(h c hc).2]

lemma carried_toString (u : ℤ) : Carried (toString u) := by
  apply carried_of_plain
  · intro he
    have hl := congrArg String.toList he
    cases u with
    | ofNat n => exact Nat.toDigits_ne_nil (Nat.toList_repr ▸ hl)
    | negSucc n => simp [Int.repr] at hl
  · intro c hc
    rcases mem_toString hc with rfl | hd
    · decide
    · have hr : 48 ≤ c.toNat ∧ c.toNat ≤ 57 := by
        simpa [Char.isDigit,UInt32.le_iff_toNat_le] using hd
      refine ⟨fun h => by simp [h] at hr,?_⟩
      simp only [isSpace,mem_cons,not_mem_nil,Bool.or_eq_false_iff,or_false,
        decide_eq_false_iff_not,Bool.and_eq_false_iff]
      omega

/-- A signature header is read back as it was written. -/
theorem parseHeader_header {s : Signature} (hl : -2^63 ≤ s.unixTime) (hhi : s.unixTime < 2^63)
    (hke : Carried s.keyID) (hev : Carried s.eventID) (hdi : Carried s.digest) :
    parseHeader s.header = .ok s := by
  let fields := [("t",toString s.unixTime),("key",s.keyID),("event",s.eventID),("v1",s.digest)]
  have hca : ∀ f ∈ fields, Carried f.2 := by
    simp only [fields,forall_mem_cons]
    exact ⟨carried_toString _,hke,hev,hdi,by simp⟩
  have hn : ∀ f ∈ fields, f.1.toList ≠ [] ∧ ',' ∉ f.1.toList ∧ '=' ∉ f.1.toList ∧
      f.1.toList.dropWhile isSpace = f.1.toList := by
    simp only [fields,forall_mem_cons]
    decide
  let texts := fields.map fun f => segment '=' (f.1.toList,f.2.toList)
  have hte : s.header.toList = [','].intercalate texts := by
    simp [Signature.header,texts,fields,FieldText.segment]
  have hsp : splitCommas s.header = texts.map String.ofList := by
    rw [splitCommas,hte,splitOn_intercalate]
    · intro text hm hco
      obtain ⟨f,hf,rfl⟩ := mem_map.mp hm
      rcases mem_append.mp hco with h | h
      · exact (hn f hf).2.1 h
      · exact (hca f hf).commaFree (by simpa using h)
    · simp [texts]
  have hp : ((splitCommas s.header).map trimSpace).filterMap keyValue = fields := by
    rw [hsp,map_map,filterMap_map,filterMap_map]
    refine (filterMap_congr fun f hf => ?_).trans (filterMap_some)
    obtain ⟨hne,-,heq,hfi⟩ := hn f hf
    have hv := hca f hf
    simp only [Function.comp_apply]
    rw [trimSpace_segment hne hfi (fun h => hv.nonempty (by simpa using h))
      hv.trimmed,keyValue_segment heq]
    simp
  have ht : entry fields "t" = toString s.unixTime := by simp [entry,fields,lookup_cons]
  simp only [parseHeader,hp,ht,parseInt64_toString hl hhi]
  rfl

end

lemma utf8_eq (text : String) : utf8 text = text.toList.flatMap String.utf8EncodeChar := by
  conv_lhs => rw [← String.ofList_toList (s := text)]
  rw [utf8,String.toUTF8,String.toByteArray_ofList]
  simp [utf8Encode]

lemma dot_not_mem_utf8 {text : String} (h : '.' ∉ text.toList) : (46 : UInt8) ∉ utf8 text := by
  rw [utf8_eq,mem_flatMap]
  rintro ⟨c,hc,hm⟩
  unfold String.utf8EncodeChar at hm
  dsimp only at hm
  have hl : ∀ {n : ℕ}, 46 = UInt8.ofNat n → n % 256 = 46 := by
    intro n heq
    simpa using (congrArg UInt8.toNat heq).symm
  by_cases has : c.val.toNat ≤ 127
  · rw [if_pos has] at hm
    have hr := hl (mem_singleton.mp hm)
    have hv : c.val.toNat = 46 := by omega
    have hd : c = '.' := Char.toNat_inj.mp hv
    exact h (hd ▸ hc)
  · split_ifs at hm <;> simp only [mem_cons,not_mem_nil,or_false] at hm
    · rcases hm with hm | hm <;> have := hl hm <;> omega
    · rcases hm with hm | hm | hm <;> have := hl hm <;> omega
    · rcases hm with hm | hm | hm | hm <;> have := hl hm <;> omega

structure Signed where
  eventID : String
  unixTime : ℤ
  body : Bytes
  deriving DecidableEq, Repr

def Signed.input (s : Signed) : Bytes := signingInput s.eventID s.unixTime s.body

/-- The worker signs events named by a UUID, with a JSON object as their body. -/
structure Signed.Proper (s : Signed) : Prop where
  dotFree : '.' ∉ s.eventID.toList
  inRange : -2^63 ≤ s.unixTime ∧ s.unixTime < 2^63
  object : ∃ rest, s.body = 123::rest

lemma signingInput_eq (eventID : String) (unix : ℤ) (body : Bytes) :
    signingInput eventID unix body =
      FieldText.segment 46 (utf8 eventID,FieldText.segment 46 (utf8 (toString unix),body)) := by
  have hd : utf8 "." = [46] := by decide
  simp [signingInput,utf8_append,FieldText.segment,hd]

lemma Signed.input_inj {s t : Signed} (hs : '.' ∉ s.eventID.toList)
    (hst : -2^63 ≤ s.unixTime ∧ s.unixTime < 2^63) (ht : t.Proper) (h : s.input = t.input) :
    s = t := by
  have hn : ∀ u : ℤ, (46 : UInt8) ∉ utf8 (toString u) := by
    intro u
    apply dot_not_mem_utf8
    intro hm
    rcases mem_toString hm with h | h <;> simp [Char.isDigit] at h
  rw [Signed.input,Signed.input,signingInput_eq,signingInput_eq] at h
  obtain ⟨hev,hr⟩ :=
    FieldText.segment_inj (dot_not_mem_utf8 hs) (dot_not_mem_utf8 ht.dotFree) h
  obtain ⟨hti,hbo⟩ := FieldText.segment_inj (hn _) (hn _) hr
  rw [Signed.mk.injEq]
  exact ⟨utf8_injective hev,toString_inj hst ht.inRange (utf8_injective hti),hbo⟩

lemma unixSeconds_unixTime {u : ℤ} (h : -2^63 ≤ u ∧ u < 2^63) : unixSeconds (unixTime u) = u := by
  unfold unixSeconds unixTime wrap64
  rw [Int.mul_ediv_cancel _ (by decide)]
  omega

lemma unixSeconds_range (t : ℤ) : -2^63 ≤ unixSeconds t ∧ unixSeconds t < 2^63 := by
  unfold unixSeconds wrap64
  omega

variable {sig : Signature}

lemma range_of_parseHeader {header : String} (h : parseHeader header = .ok sig) :
    -2^63 ≤ sig.unixTime ∧ sig.unixTime < 2^63 := by
  simp only [parseHeader,do_ok,orFail_eq_ok] at h
  obtain ⟨unix,hu,rfl⟩ := h
  simp only [parseInt64,Option.ite_none_right_eq_some,Option.some.injEq] at hu
  obtain ⟨⟨-,-,hr⟩,rfl⟩ := hu
  exact hr

lemma verify_eq_ok {rt : Signing} {secret body : Bytes} {now tolerance : ℤ}
    (hr : -2^63 ≤ sig.unixTime ∧ sig.unixTime < 2^63) :
    verify rt secret sig body now tolerance = .ok () ↔
      (sig.eventID ≠ "" ∧ sig.keyID ≠ "" ∧ sig.digest ≠ "") ∧
        magnitude (durationBetween now (unixTime sig.unixTime)) ≤ tolerance ∧ rt.decode sig.digest =
            some (rt.hmacSHA256 secret (signingInput sig.eventID sig.unixTime body)) := by
  simp [verify,sign,unixSeconds_unixTime hr,rt.decode_encode]

/-- Every signature is accepted inside the tolerance. And an accepted header with the code of
something that was signed carries what was signed exactly if its event has no dot. -/
theorem webhook_signatures_bind (rt : Signing) (secret : Bytes) :
    (∀ (keyID eventID : String) (timestamp : ℤ) (body : Bytes) (now tolerance : ℤ),
      Carried keyID → Carried eventID → tolerance < 2^63 →
      |now - unixTime (unixSeconds timestamp)| ≤ tolerance → (do
        let sig ← parseHeader (sign rt secret keyID eventID timestamp body).header
        verify rt secret sig body now tolerance) = .ok ()) ∧
    ∀ (signed : List Signed) (header : String) (sig : Signature) (body : Bytes)
      (now tolerance : ℤ), (∀ s ∈ signed, s.Proper) → parseHeader header = .ok sig →
      verify rt secret sig body now tolerance = .ok () →
      ∀ s ∈ signed, rt.decode sig.digest = some (rt.hmacSHA256 secret s.input) →
        NoCollision (rt.hmacSHA256 secret) (Signed.input ⟨sig.eventID,sig.unixTime,body⟩) s.input →
        (⟨sig.eventID,sig.unixTime,body⟩ ∈ signed ↔ '.' ∉ sig.eventID.toList) := by
  constructor
  · intro keyID eventID timestamp body now tolerance hk hev hl hn
    have hr := unixSeconds_range timestamp
    have hd : Carried (sign rt secret keyID eventID timestamp body).digest := by
      refine carried_of_plain (fun he => ?_) (rt.plain _)
      have hre := rt.decode_encode (rt.hmacSHA256 secret
        (signingInput eventID (unixSeconds timestamp) body))
      have hni := rt.decode_encode []
      rw [rt.encode_nil] at hni
      rw [sign] at he
      dsimp only at he
      rw [he,hni] at hre
      exact rt.hmac_ne _ _ (Option.some.inj hre).symm
    rw [parseHeader_header hr.1 hr.2 hk hev hd]
    refine (verify_eq_ok hr).mpr ⟨⟨hev.nonempty,hk.nonempty,hd.nonempty⟩,?_, rt.decode_encode _⟩
    have hcl := abs_le.mp hn
    change magnitude (durationBetween now (unixTime (unixSeconds timestamp))) ≤ tolerance
    unfold magnitude durationBetween wrap64
    split_ifs <;> omega
  · intro signed header sig body now tolerance hp hpa hv s hs hi hf
    have hr := range_of_parseHeader hpa
    obtain ⟨-,-,hde⟩ := (verify_eq_ok hr).mp hv
    rw [hde] at hi
    have hin := hf (Option.some.inj hi)
    constructor
    · exact fun hm => (hp _ hm).dotFree
    · intro hdo
      rw [Signed.input_inj hdo hr (hp s hs) hin]
      exact hs

def sampleSigning : Signing where
  hmacSHA256 _ message := 0::message
  encode bytes := String.ofList (bytes.map fun b => Char.ofNat (256+b.toNat))
  decode text := some (text.toList.map fun c => UInt8.ofNat (c.toNat - 256))
  hmac_ne _ _ := List.cons_ne_nil _ _
  encode_nil := rfl
  decode_encode bytes := by
    have hbyte : ∀ n < 256, UInt8.ofNat ((Char.ofNat (256+n)).toNat - 256) = UInt8.ofNat n := by
      decide +kernel
    simp only [String.toList_ofList,List.map_map,Option.some.injEq]
    refine (List.map_congr_left fun b _ => ?_).trans (List.map_id _)
    simpa using hbyte b.toNat b.toNat_lt
  plain bytes c hc := by
    have hchar : ∀ n < 256, Char.ofNat (256+n) ≠ ',' ∧ isSpace (Char.ofNat (256+n)) = false := by
      decide +kernel
    rw [String.toList_ofList,List.mem_map] at hc
    obtain ⟨b,-,rfl⟩ := hc
    exact hchar b.toNat b.toNat_lt

theorem webhook_signatures_bind_sample : (do
      let sig ← parseHeader (sign sampleSigning [1] "k" "e" second [123,125]).header
      verify sampleSigning [1] sig [123,125] second 0) = .ok () ∧
    (⟨"e",1,[123,125]⟩ ∈ [(⟨"e",1,[123,125]⟩ : Signed)] ↔ '.' ∉ "e".toList) := by
  have hbi := webhook_signatures_bind sampleSigning [1]
  have hca : ∀ c : Char, c ≠ ',' → isSpace c = false → Carried (String.singleton c) := by
    intro c hco hsp
    refine carried_of_plain (by simp) fun d hd => ?_
    rw [show d = c by simpa using hd]
    exact ⟨hco,hsp⟩
  have hac := hbi.1 "k" "e" second [123,125] second 0 (hca 'k' (by decide) (by decide))
    (hca 'e' (by decide) (by decide)) (by decide) (by decide)
  refine ⟨hac,hbi.2 [⟨"e",1,[123,125]⟩] (sign sampleSigning [1] "k" "e" second [123,125]).header
    (sign sampleSigning [1] "k" "e" second [123,125]) [123,125] second 0 ?_ ?_ ?_ _
    mem_cons_self ?_ fun h => (List.cons.inj h).2⟩
  · intro s hs
    rw [mem_singleton.mp hs]
    exact ⟨by decide,by decide,[125],rfl⟩
  · decide +kernel
  · decide +kernel
  · decide +kernel

/-- The object whose text is `{.5.x` is signed for the event "e" at the first second. Its code is
accepted for the body "x" at the fifth second. -/
theorem accepted_but_never_signed : let signed : List Signed := [⟨"e",1,[123,46,53,46,120]⟩]
    let digest := (sign sampleSigning [1] "k" "e" second [123,46,53,46,120]).digest
    let forged : Signature := ⟨"e.1.\x7b","k",5,digest⟩
    parseHeader forged.header = .ok forged ∧
      verify sampleSigning [1] forged [120] (5*second) 0 = .ok () ∧
      ⟨forged.eventID,forged.unixTime,[120]⟩ ∉ signed := by
  decide +kernel

end Ocrypt.WebhookSignatures
