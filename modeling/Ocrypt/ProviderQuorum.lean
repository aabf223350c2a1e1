import Ocrypt.JsonText
import Ocrypt.QuorumAgreement
import Ocrypt.ScanWorker

/-! `QuorumSource`: a range, or the events of a transaction, is what a quorum of the sources
answers alike. -/
namespace Ocrypt.ProviderQuorum
open Domain RangeChecks ScanWorker JsonText QuorumAgreement List

/-- What other packages write: times and bytes, and the hexadecimal SHA-256 of a text. A time is
written unless its year has more than four digits. -/
structure Encoding where
  timeFits : ℤ → Bool
  timeText : ℤ → String
  base64 : List UInt8 → String
  sha256 : String → String
  timeText_injective : ∀ s t, timeFits s = true → timeFits t = true → timeText s = timeText t → s = t
  base64_injective : Function.Injective base64

def number (n : ℕ) : Json := .num (natural n)

def identityJson (i : EventIdentity) : Json :=
  .obj [("ChainID",.str i.chainID),("TransactionID",.str i.transactionID),
    ("EventIndex",.str i.eventIndex),("AssetID",.str i.assetID),("ToAddress",.str i.toAddress)]

variable (enc : Encoding) (es : List TransferEvent)

def eventJson (e : TransferEvent) : Json :=
  .obj ([("id",.str e.id),("identity",identityJson e.identity),("kind",.str e.kind),
    ("from_address",.str e.fromAddress),("amount_atomic",.str e.amount.n.repr),
    ("asset_decimals",number e.assetDecimals),("block_height",number e.blockHeight),
    ("block_hash",.str e.blockHash),("on_chain_time",.str (enc.timeText e.onChainTime)),
    ("confirmations",number e.confirmations),("status",.str e.status.text),
    ("parser_version",.str e.parserVersion),("evidence_hash",.str e.evidenceHash)] ++
    -- The evidence bytes are left out when there are none.
    if e.nativeEVMRawEvidence = [] then []
    else [("native_evm_raw_evidence",.str (enc.base64 e.nativeEVMRawEvidence))])

/-- The copy of a slice without elements is nil, which is written as `null`. -/
def eventsJson : Json :=
  if es = [] then .null else .arr (es.map (eventJson enc))

def blockJson (b : Block) : Json :=
  .obj [("height",number b.height),("hash",.str b.hash),("parent_hash",.str b.parentHash),
    ("time",.str (enc.timeText b.time))]

def rangeJson (r : ScannedRange) : Json :=
  .obj [("from",number r.fromHeight),("to",number r.toHeight),
    ("blocks",.arr (r.blocks.map (blockJson enc))),("events",eventsJson enc r.events)]

def digest (times : List ℤ) (j : Json) : Option String :=
  if times.all enc.timeFits then some (enc.sha256 (compact j)) else none

def unconfirmed (e : TransferEvent) : TransferEvent := { e with confirmations := 0 }

def eventsKey : Option String :=
  digest enc (es.map (·.onChainTime)) (eventsJson enc (es.map unconfirmed))

def rangeKey (r : ScannedRange) : Option String :=
  digest enc (r.blocks.map (·.time) ++ r.events.map (·.onChainTime))
    (rangeJson enc { r with events := r.events.map unconfirmed })

/-- Keep the lower number of confirmations of every event. Answers with one key have equally many
events. -/
def lowerConfirmations : (agreed answered : List TransferEvent) → List TransferEvent
  | e::es, r::rs =>
    (if r.confirmations < e.confirmations then { e with confirmations := r.confirmations } else e) ::
      lowerConfirmations es rs
  | es, _ => es

def mergeRange (agreed answered : ScannedRange) : ScannedRange :=
  { agreed with events := lowerConfirmations agreed.events answered.events }

def mergeEvents (agreed answered : List TransferEvent) : List TransferEvent :=
  if agreed.length = answered.length then lowerConfirmations agreed answered else agreed

structure CallFailure where
  index : ℕ
  id : String
  err : SourceFailure
  deriving DecidableEq, Repr

/-- Why a group of providers did not answer: the largest class, and the calls that failed. -/
structure GroupFailure where
  operation : String
  quorum : ℕ
  matching : ℕ := 0
  failures : List CallFailure := []
  deriving DecidableEq, Repr

inductive QuorumError
  | group (failure : GroupFailure)
  | disagreement (operation : String) (cause : GroupFailure)
  | permanent (operation : String) (cause : String)
  deriving DecidableEq, Repr

/-- A direct source: its identity, and whether it can look up transactions. -/
structure Provider where
  id : String
  lookup : Bool
  deriving DecidableEq, Repr

structure QuorumSource where
  sources : List Provider
  quorum : ℕ
  positive : 1 ≤ quorum
  enough : quorum ≤ sources.length

def newQuorumSource (sources : List Provider) (quorum : ℕ) : Except String QuorumSource :=
  if h : 1 ≤ quorum ∧ quorum ≤ sources.length then .ok ⟨sources,quorum,h.1,h.2⟩
  else .error "direct source quorum requires enough sources"

structure Arrival (β : Type) where
  index : ℕ
  answer : Except SourceFailure β

namespace QuorumSource
variable {β : Type} (q : QuorumSource)

def providerIdentity (index : ℕ) : String := (q.sources[index]?.map (·.id)).getD ""

def collect (key : β → Option String) (merge : β → β → β) :
    GroupFailure → Classes β String → List (Arrival β) → Except GroupFailure β
  | failures, _, [] => .error failures
  | failures, agreements, result::rest =>
    match result.answer with
    | .error err =>
      collect key merge { failures with
        failures := failures.failures ++ [⟨result.index,q.providerIdentity result.index,err⟩] }
        agreements rest
    | .ok answered =>
      match key answered with
      | none => collect key merge failures agreements rest
      | some k =>
        let agreement := joined merge answered (agreements k)
        if q.quorum ≤ agreement.1 then .ok agreement.2
        else
          collect key merge { failures with matching := max failures.matching agreement.1 }
            (Function.update agreements k (some agreement)) rest

def concluded (operation : String) : Except GroupFailure β → Except QuorumError β
  | .ok b => .ok b
  | .error failures =>
    if q.quorum = 1 then .error (.group failures) else .error (.disagreement operation failures)

def scanRange (enc : Encoding) (arrivals : List (Arrival ScannedRange)) :
    Except QuorumError ScannedRange :=
  q.concluded "range quorum"
    (q.collect (rangeKey enc) mergeRange ⟨"range quorum",q.quorum,0,[]⟩ (fun _ => none) arrivals)

def lookupTransaction (enc : Encoding) (arrivals : List (Arrival (List TransferEvent))) :
    Except QuorumError (List TransferEvent) :=
  if ∃ source ∈ q.sources, source.lookup = false then
    .error (.permanent "transaction quorum" "direct source does not support transaction lookup")
  else
    q.concluded "transaction quorum"
      (q.collect (eventsKey enc) mergeEvents ⟨"transaction quorum",q.quorum,0,[]⟩ (fun _ => none)
        arrivals)

abbrev Answered (arrivals : List (Arrival β)) : Prop :=
  (arrivals.map (·.index)).Perm (List.range q.sources.length)

end QuorumSource

def visible (r : ScannedRange) : ScannedRange :=
  { r with
    events := r.events.map unconfirmed
    runtimeEvidence := []
    sparseBlocks := false
    indexedCheckpoint := false
    idleCheckpoint := false }

def visibleEvents : List TransferEvent := es.map unconfirmed

section
variable {enc : Encoding}

lemma text_injective {s t : TransferStatus} (h : s.text = t.text) : s = t := by
  cases s <;> cases t <;> first | rfl | simp [TransferStatus.text] at h

lemma identityJson_injective {i j : EventIdentity} (h : identityJson i = identityJson j) : i = j := by
  simp only [identityJson,Json.obj.injEq,List.cons.injEq,Prod.mk.injEq,Json.str.injEq,true_and,
    and_true] at h
  obtain ⟨h1,h2,h3,h4,h5⟩ := h
  exact EventIdentity.ext h1 h2 h3 h4 h5

lemma number_injective {m n : ℕ} (h : number m = number n) : m = n :=
  natural_injective (Json.num.inj h)

lemma eventJson_injective {e f : TransferEvent} (he : enc.timeFits e.onChainTime = true)
    (hf : enc.timeFits f.onChainTime = true) (h : eventJson enc e = eventJson enc f) : e = f := by
  simp only [eventJson,Json.obj.injEq,cons_append,nil_append,List.cons.injEq,
    Prod.mk.injEq,Json.str.injEq,true_and] at h
  obtain ⟨hid,hi,hk,hfr,ham,hd,hhe,hha,hti,hco, hst,hp,hev,hr⟩ := h
  have ham' : e.amount = f.amount := by
    have hv := congrArg (fun text : String => Nat.ofDigitChars 10 text.toList 0) ham
    simp only [Nat.toList_repr,Nat.ofDigitChars_ten_toDigits] at hv
    exact Money.Amount.ext hv
  have hby : e.nativeEVMRawEvidence = f.nativeEVMRawEvidence := by
    split_ifs at hr with h1 h2 h2
    · rw [h1,h2]
    · simp only [List.cons.injEq,Prod.mk.injEq,Json.str.injEq,true_and,and_true] at hr
      exact enc.base64_injective hr
  exact TransferEvent.ext hid (identityJson_injective hi) hk hfr ham'
    (number_injective hd) (number_injective hhe) hha
    (enc.timeText_injective _ _ he hf hti) (number_injective hco)
    (text_injective hst) hp hev hby

lemma blockJson_injective {b c : Block} (hb : enc.timeFits b.time = true)
    (hc : enc.timeFits c.time = true) (h : blockJson enc b = blockJson enc c) : b = c := by
  simp only [blockJson,Json.obj.injEq,List.cons.injEq,Prod.mk.injEq,Json.str.injEq,true_and,
    and_true] at h
  obtain ⟨hhe,hha,hp,hti⟩ := h
  obtain ⟨height,hash,parentHash,time⟩ := b
  obtain ⟨height',hash',parentHash',time'⟩ := c
  obtain rfl := number_injective hhe
  obtain rfl : time = time' := enc.timeText_injective _ _ hb hc hti
  dsimp only at hha hp
  rw [hha,hp]

lemma map_injective_on {α β : Type*} {f : α → β} : ∀ {xs ys : List α},
    (∀ x ∈ xs, ∀ y ∈ ys, f x = f y → x = y) → xs.map f = ys.map f → xs = ys
  | [], [], _, _ => rfl
  | x::xs, y::ys, hi, h => by
    simp only [List.map_cons,List.cons.injEq] at h
    rw [hi x List.mem_cons_self y List.mem_cons_self h.1,map_injective_on
      (fun a ha b hb => hi a (List.mem_cons_of_mem _ ha) b (List.mem_cons_of_mem _ hb)) h.2]

lemma eventsJson_injective {es fs : List TransferEvent}
    (hes : ∀ e ∈ es, enc.timeFits e.onChainTime = true)
    (hfs : ∀ f ∈ fs, enc.timeFits f.onChainTime = true)
    (h : eventsJson enc es = eventsJson enc fs) : es = fs := by
  unfold eventsJson at h
  split_ifs at h with he hf hf
  · rw [he,hf]
  · exact map_injective_on (fun e hm f hm' => eventJson_injective (hes e hm) (hfs f hm'))
      (Json.arr.inj h)

lemma digest_eq_some {times : List ℤ} {j : Json} {k : String} : digest enc times j = some k ↔
    (∀ t ∈ times, enc.timeFits t = true) ∧ enc.sha256 (compact j) = k := by
  unfold digest
  rw [← all_eq_true]
  split_ifs with h
  · simp [h]
  · simp [h]

def eventsText (enc : Encoding) (es : List TransferEvent) : String :=
  compact (eventsJson enc (visibleEvents es))

def rangeText (enc : Encoding) (r : ScannedRange) : String :=
  compact (rangeJson enc { r with events := r.events.map unconfirmed })

def Distinct (enc : Encoding) (texts : List String) : Prop :=
  ∀ s ∈ texts, ∀ t ∈ texts, enc.sha256 s = enc.sha256 t → s = t

structure KeyedBy {β ν : Type} (key : β → Option String) (view : β → ν) (xs : List β) : Prop where
  same : ∀ x y, view x = view y → key x = key y
  apart : ∀ x ∈ xs, ∀ y ∈ xs, ∀ k, key x = some k → key y = some k → view x = view y

lemma times_visibleEvents (es : List TransferEvent) :
    (visibleEvents es).map (·.onChainTime) = es.map (·.onChainTime) := by
  simp [visibleEvents,unconfirmed]

lemma eventsKey_keyed {answers : List (List TransferEvent)}
    (h : Distinct enc (answers.map (eventsText enc))) :
    KeyedBy (eventsKey enc) visibleEvents answers := by
  refine ⟨fun es fs hsame => ?_,fun es hes fs hfs k hk hk' => ?_⟩
  · unfold eventsKey
    rw [← times_visibleEvents es,← times_visibleEvents fs]
    change digest enc _ (eventsJson enc (visibleEvents es)) =
      digest enc _ (eventsJson enc (visibleEvents fs))
    rw [hsame]
  · obtain ⟨hf,rfl⟩ := digest_eq_some.mp hk
    obtain ⟨hf',hsame⟩ := digest_eq_some.mp hk'
    rw [← times_visibleEvents,forall_mem_map] at hf hf'
    have hte := h _ (mem_map_of_mem hfs) _ (mem_map_of_mem hes) hsame
    exact (eventsJson_injective hf' hf (compact_injective hte)).symm

lemma rangeKey_keyed {answers : List ScannedRange}
    (h : Distinct enc (answers.map (rangeText enc))) : KeyedBy (rangeKey enc) visible answers := by
  refine ⟨fun r r' hsame => ?_,fun r hr r' hr' k hk hk' => ?_⟩
  · simp only [visible,ScannedRange.mk.injEq,and_true] at hsame
    obtain ⟨hfr,hto,hbl,he⟩ := hsame
    have hti : r.events.map (·.onChainTime) = r'.events.map (·.onChainTime) := by
      rw [← times_visibleEvents r.events,← times_visibleEvents r'.events]
      exact congrArg (List.map _) he
    simp [rangeKey,rangeJson,hfr,hto,hbl,he,hti]
  · obtain ⟨hf,rfl⟩ := digest_eq_some.mp hk
    obtain ⟨hf',hsame⟩ := digest_eq_some.mp hk'
    have hte := compact_injective (h _ (mem_map_of_mem hr') _ (mem_map_of_mem hr) hsame)
    simp only [rangeJson,Json.obj.injEq,List.cons.injEq,Prod.mk.injEq,Json.arr.injEq,true_and,
      and_true] at hte
    obtain ⟨hfr,hto,hbl,he⟩ := hte
    rw [forall_mem_append,forall_mem_map,← times_visibleEvents, forall_mem_map] at hf hf'
    have he' := eventsJson_injective hf'.2 hf.2 he
    have hbl' : r'.blocks = r.blocks := map_injective_on
      (fun b hb c hc => blockJson_injective (hf'.1 b hb) (hf.1 c hc)) hbl
    simp only [visible,ScannedRange.mk.injEq,and_true]
    exact ⟨(number_injective hfr).symm,(number_injective hto).symm,hbl'.symm,he'.symm⟩

end

def answers {β : Type} (arrivals : List (Arrival β)) : List β :=
  arrivals.filterMap fun a => a.answer.toOption

def agreeing {β ν : Type} [DecidableEq ν] (view : β → ν) (b : β) (received : List (Arrival β)) :
    List β :=
  (answers received).filter fun a => view a = view b

def confirmationsAt (i : ℕ) : ℕ := (es.map (·.confirmations)).getD i 0

/-- A quorum of the received answers shows what the result shows, and every event has the least
number of confirmations among them. -/
structure Backed {β ν : Type} [DecidableEq ν] (view : β → ν) (events : β → List TransferEvent)
    (quorum : ℕ) (received : List (Arrival β)) (b : β) : Prop where
  quorum : quorum ≤ (agreeing view b received).length
  least : ∀ i < (events b).length,
    (∃ a ∈ agreeing view b received, confirmationsAt (events b) i = confirmationsAt (events a) i) ∧
      ∀ a ∈ agreeing view b received, confirmationsAt (events b) i ≤ confirmationsAt (events a) i

section
variable {β ν : Type} {q : QuorumSource} {key : β → Option String} {merge : β → β → β}
  {failures : GroupFailure} {agreements : Classes β String} {arrivals : List (Arrival β)} {b : β}
  {arrivals' : List (Arrival β)} {view : β → ν}

lemma collect_eq_tally (failures : GroupFailure) : (q.collect key merge failures agreements arrivals).toOption =
    tally key merge q.quorum agreements (answers arrivals) := by
  induction arrivals generalizing failures agreements with
  | nil => rfl
  | cons a arrivals ih =>
    obtain ⟨index,answer⟩ := a
    cases answer with
    | error err => exact ih _
    | ok answered =>
      cases hke : key answered with
      | none =>
        simp only [QuorumSource.collect,hke,answers,filterMap_cons,Except.toOption,tally]
        exact ih _
      | some k =>
        simp only [QuorumSource.collect,hke,answers,filterMap_cons,Except.toOption,tally]
        split_ifs
        · rfl
        · exact ih _

lemma collect_eq_ok : q.collect key merge failures agreements arrivals = .ok b ↔
    tally key merge q.quorum agreements (answers arrivals) = some b := by
  rw [← collect_eq_tally failures]
  cases q.collect key merge failures agreements arrivals <;> simp [Except.toOption]

lemma answers_perm (hp : arrivals.Perm arrivals') :
    (answers arrivals).Perm (answers arrivals') := hp.filterMap _

lemma received_of_answers {as bs : List β} {x : β} (h : answers arrivals = as ++ x::bs) :
    ∃ received last rest, arrivals = received ++ last::rest ∧ answers received = as ∧
      answers (received ++ [last]) = as ++ [x] := by
  obtain ⟨l₁,l₂,rfl,has,hr⟩ := filterMap_eq_append_iff.mp h
  obtain ⟨m₁,last,m₂,rfl,hn,hl,-⟩ := filterMap_eq_cons_iff.mp hr
  have he := filterMap_eq_nil_iff.mpr hn
  refine ⟨l₁ ++ m₁,last,m₂,by simp,?_,?_⟩
  · rw [answers,filterMap_append,has,he,append_nil]
  · rw [answers,filterMap_append,filterMap_append,has,he]
    simp [hl]

lemma agreeing_eq [DecidableEq ν] {received : List (Arrival β)} {k : String} {x : β}
    (hke : KeyedBy key view (answers received)) (hx : x ∈ answers received)
    (hky : key x = some k) (hv : view b = view x) :
    agreeing view b received = classOf key k (answers received) := by
  apply filter_congr
  intro y hy
  rw [hv]
  simp only [decide_eq_decide]
  constructor
  · intro hsame
    rw [hke.same y x hsame,hky]
  · intro hk
    exact hke.apart y hy x hx k hk hky

structure Merges (view : β → ν) (events : β → List TransferEvent) (merge : β → β → β) : Prop where
  keeps : ∀ x y, view (merge x y) = view x
  lowers : ∀ x y, view x = view y → ∀ i, confirmationsAt (events (merge x y)) i =
    min (confirmationsAt (events x) i) (confirmationsAt (events y) i)

lemma collect_backed [DecidableEq ν] {events : β → List TransferEvent}
    (hke : KeyedBy key view (answers arrivals)) (hm : Merges view events merge)
    (h : q.collect key merge failures (fun _ => none) arrivals = .ok b) :
    ∃ received last rest, arrivals = received ++ last::rest ∧
      (∀ b', q.collect key merge failures (fun _ => none) received ≠ .ok b') ∧
      Backed view events q.quorum (received ++ [last]) b := by
  have ho := Open.empty key merge q.positive
  rw [collect_eq_ok] at h
  obtain ⟨as,x,bs,k,hsp,hky,hsm,hla,hme⟩ := tally_eq_some ho h
  obtain ⟨received,last,rest,rfl,hr,hls⟩ := received_of_answers hsp
  rw [nil_append,← hls] at hla hme
  have hke' : KeyedBy key view (answers (received ++ [last])) := by
    refine ⟨hke.same,fun y hy z hz => ?_⟩
    rw [hls] at hy hz
    refine hke.apart y ?_ z ?_
    · rw [hsp,append_cons]
      exact mem_append_left _ hy
    · rw [hsp,append_cons]
      exact mem_append_left _ hz
  obtain ⟨z,hz,hvi⟩ := view_merged hm.keeps hme
  obtain ⟨hzm,hzk⟩ := mem_classOf.mp (mem_of_mem_head? hz)
  have hcl := agreeing_eq hke' hzm hzk hvi
  refine ⟨received,last,rest,rfl,fun b' hb' => ?_,?_,fun i _ => ?_⟩
  · rw [collect_eq_ok,hr] at hb'
    have hn := (tally_eq_none ho).mpr hsm
    rw [hn] at hb'
    cases hb'
  · rw [hcl]
    exact hla
  · rw [hcl]
    have hv : ∀ y ∈ classOf key k (answers (received ++ [last])), view y = view z := by
      intro y hy
      obtain ⟨hym,hyk⟩ := mem_classOf.mp hy
      exact hke'.apart y hym z hzm k hyk hzk
    exact least_merged (f := fun y => confirmationsAt (events y) i) hm.keeps
      (fun x y hx hy => hm.lowers x y (hx.trans hy.symm) i) hv hme

lemma collect_ok_perm (hp : arrivals.Perm arrivals') :
    (∃ b, q.collect key merge failures (fun _ => none) arrivals = .ok b) ↔
      ∃ b, q.collect key merge failures (fun _ => none) arrivals' = .ok b := by
  simp only [collect_eq_ok]
  have hsame : (tally key merge q.quorum (fun _ => none) (answers arrivals)).isSome =
      (tally key merge q.quorum (fun _ => none) (answers arrivals')).isSome :=
    tally_isSome_perm q.positive (answers_perm hp)
  simp only [← Option.isSome_iff_exists]
  rw [Bool.eq_iff_iff] at hsame
  exact hsame

lemma collect_class (hke : ∀ x y, view (merge x y) = view x)
    (h : q.collect key merge failures (fun _ => none) arrivals = .ok b) :
    ∃ k z, (classOf key k (answers arrivals)).head? = some z ∧ view b = view z ∧
      q.quorum ≤ (classOf key k (answers arrivals)).length := by
  rw [collect_eq_ok] at h
  obtain ⟨as,x,bs,k,hsp,-,-,hl,hm⟩ :=
    tally_eq_some (Open.empty key merge q.positive) h
  rw [nil_append] at hl hm
  obtain ⟨z,hz,hv⟩ := view_merged hke hm
  refine ⟨k,z,?_,hv,?_⟩
  · rw [hsp,append_cons,classOf_append,head?_append,hz]
    rfl
  · rw [hsp,append_cons,classOf_append,length_append]
    omega

lemma collect_unique {b' : β}
    (hky : KeyedBy key view (answers arrivals)) (hke : ∀ x y, view (merge x y) = view x)
    (hp : arrivals.Perm arrivals') (hm : arrivals.length < 2*q.quorum)
    (h : q.collect key merge failures (fun _ => none) arrivals = .ok b)
    (h' : q.collect key merge failures (fun _ => none) arrivals' = .ok b') : view b = view b' := by
  obtain ⟨k,z,hf,hv,hl⟩ := collect_class hke h
  obtain ⟨k',z',hf',hv',hl'⟩ := collect_class hke h'
  obtain ⟨hz,hkey⟩ := mem_classOf.mp (mem_of_mem_head? hf)
  obtain ⟨hz',hkey'⟩ := mem_classOf.mp (mem_of_mem_head? hf')
  have han := answers_perm hp
  rw [← length_classOf_perm han] at hl'
  obtain rfl : k = k' := by
    by_contra hne
    have hd : (classOf key k (answers arrivals)).length +
        (classOf key k' (answers arrivals)).length ≤ (answers arrivals).length :=
      length_classOf_add_le hne
    have hfe : (answers arrivals).length ≤ arrivals.length := length_filterMap_le ..
    omega
  rw [hv,hv']
  exact hky.apart z hz z' (han.mem_iff.mpr hz') k hkey hkey'

end

section

lemma unconfirmed_lowered (es rs : List TransferEvent) :
    visibleEvents (lowerConfirmations es rs) = visibleEvents es := by
  induction es generalizing rs with
  | nil => cases rs <;> rfl
  | cons e es ih =>
    cases rs with
    | nil => rfl
    | cons r rs =>
      have hre := ih rs
      simp only [visibleEvents] at hre
      simp only [visibleEvents,lowerConfirmations,map_cons,hre,List.cons.injEq,and_true]
      split_ifs <;> rfl

variable {es rs : List TransferEvent}

lemma confirmationsAt_lowered (hl : es.length = rs.length)
    (i : ℕ) : confirmationsAt (lowerConfirmations es rs) i =
      min (confirmationsAt es i) (confirmationsAt rs i) := by
  induction es generalizing rs i with
  | nil =>
    simp [lowerConfirmations,confirmationsAt]
  | cons e es ih =>
    cases rs with
    | nil => simp at hl
    | cons r rs =>
      cases i with
      | zero =>
        simp only [lowerConfirmations]
        split_ifs with hlo
        · exact (min_eq_right hlo.le).symm
        · exact (min_eq_left (not_lt.mp hlo)).symm
      | succ i => exact ih (by simpa using hl) i

lemma length_of_visible (h : visibleEvents es = visibleEvents rs) : es.length = rs.length := by
  simpa [visibleEvents] using congrArg List.length h

lemma mergeRange_merges : Merges visible ScannedRange.events mergeRange := by
  constructor
  · intro x y
    have he := unconfirmed_lowered x.events y.events
    simp only [visibleEvents] at he
    simp [visible,mergeRange,he]
  · intro x y hsame i
    have he := congrArg ScannedRange.events hsame
    exact confirmationsAt_lowered (length_of_visible he) i

lemma mergeEvents_merges : Merges visibleEvents id mergeEvents := by
  constructor
  · intro x y
    unfold mergeEvents
    split_ifs
    · exact unconfirmed_lowered x y
    · rfl
  · intro x y hsame i
    have hl := length_of_visible hsame
    unfold mergeEvents
    rw [if_pos hl]
    exact confirmationsAt_lowered hl i

end

/-- What a call on a quorum of sources promises, whatever the order in which the answers arrive. -/
structure Promised {β ν : Type} [DecidableEq ν] (q : QuorumSource) (view : β → ν)
    (events : β → List TransferEvent) (call : List (Arrival β) → Except QuorumError β)
    (arrivals arrivals' : List (Arrival β)) : Prop where
  backed : ∀ b, call arrivals = .ok b → ∃ received last rest, arrivals = received ++ last::rest ∧
    (∀ b', call received ≠ .ok b') ∧ Backed view events q.quorum (received ++ [last]) b
  success : (∃ b, call arrivals = .ok b) ↔ ∃ b, call arrivals' = .ok b
  unique : q.sources.length < 2*q.quorum → ∀ b b', call arrivals = .ok b → call arrivals' = .ok b' →
    view b = view b'

section
variable {β ν : Type} {q : QuorumSource} {enc : Encoding}

lemma concluded_eq_ok {operation : String} {result : Except GroupFailure β} {b : β} :
    q.concluded operation result = .ok b ↔ result = .ok b := by
  cases result with
  | ok c => simp [QuorumSource.concluded]
  | error failures =>
    simp only [QuorumSource.concluded]
    split_ifs <;> simp

lemma length_of_answered {arrivals : List (Arrival β)} (h : q.Answered arrivals) :
    arrivals.length = q.sources.length := by
  simpa using h.length_eq

lemma promised_of_collect [DecidableEq ν] {view : β → ν} {events : β → List TransferEvent}
    {key : β → Option String} {merge : β → β → β} {failures : GroupFailure}
    {call : List (Arrival β) → Except QuorumError β} {arrivals arrivals' : List (Arrival β)}
    (hca : ∀ as b, call as = .ok b ↔ q.collect key merge failures (fun _ => none) as = .ok b)
    (hme : Merges view events merge) (hk : KeyedBy key view (answers arrivals))
    (han : q.Answered arrivals) (hp : arrivals.Perm arrivals') :
    Promised q view events call arrivals arrivals' := by
  refine ⟨fun b hb => ?_,?_,fun hm b b' hb hb' => ?_⟩
  · simp only [ne_eq,hca]
    exact collect_backed hk hme ((hca _ _).mp hb)
  · simp only [hca]
    exact collect_ok_perm hp
  · rw [← length_of_answered han] at hm
    exact collect_unique hk hme.keeps hp hm ((hca _ _).mp hb)
      ((hca _ _).mp hb')

/-- A range and a lookup are backed by a quorum of answers, with the least confirmations among
those received; whether there is a result does not depend on the order of arrival, and a quorum of
more than half of the sources leaves only one thing to show. -/
theorem quorum_answers_whatever_order {ranges ranges' : List (Arrival ScannedRange)}
    {lookups lookups' : List (Arrival (List TransferEvent))}
    (hranges : q.Answered ranges) (hranges' : ranges.Perm ranges')
    (hlookups : q.Answered lookups) (hlookups' : lookups.Perm lookups')
    (htexts : Distinct enc ((answers ranges).map (rangeText enc)))
    (htexts' : Distinct enc ((answers lookups).map (eventsText enc))) :
    Promised q visible ScannedRange.events (q.scanRange enc) ranges ranges' ∧
      Promised q visibleEvents id (q.lookupTransaction enc) lookups lookups' := by
  constructor
  · exact promised_of_collect (fun as b => concluded_eq_ok) mergeRange_merges
      (rangeKey_keyed htexts) hranges hranges'
  · by_cases hsu : ∃ source ∈ q.sources, source.lookup = false
    · have he : ∀ as b, q.lookupTransaction enc as ≠ .ok b := by
        intro as b
        unfold QuorumSource.lookupTransaction
        rw [if_pos hsu]
        simp
      exact ⟨fun b hb => absurd hb (he _ _),by simp [he],fun _ b _ hb =>
        absurd hb (he _ _)⟩
    · have hca : ∀ as b, q.lookupTransaction enc as = .ok b ↔
          q.collect (eventsKey enc) mergeEvents ⟨"transaction quorum",q.quorum,0,[]⟩
            (fun _ => none) as = .ok b := by
        intro as b
        unfold QuorumSource.lookupTransaction
        rw [if_neg hsu]
        exact concluded_eq_ok
      exact promised_of_collect hca mergeEvents_merges (eventsKey_keyed htexts') hlookups
        hlookups'

end

/-- Encoders for samples: a time by its nanoseconds, bytes by an array of numbers, and a text as its
own digest. -/
def sampleEncoding : Encoding where
  timeFits t := 0 ≤ t
  timeText t := compact (number t.toNat)
  base64 bytes := compact (.arr (bytes.map fun b => number b.toNat))
  sha256 text := text
  timeText_injective := by
    intro s t hs ht h
    have hsame : s.toNat = t.toNat := number_injective (compact_injective h)
    simp only [decide_eq_true_eq] at hs ht
    omega
  base64_injective := by
    intro xs ys h
    have hmap := Json.arr.inj (compact_injective h)
    refine map_injective_on (fun a _ b _ hab => ?_) hmap
    exact UInt8.toNat_inj.mp (number_injective hab)

lemma sampleEncoding_distinct (texts : List String) : Distinct sampleEncoding texts :=
  fun _ _ _ _ h => h

def sampleQuorum : QuorumSource :=
  ⟨[⟨"first",true⟩,⟨"second",true⟩,⟨"third",true⟩],2,by decide,by decide⟩

def sampleRange (confirmations : ℕ) : ScannedRange where
  fromHeight := 7
  toHeight := 7
  blocks := [⟨7,"block-7","block-6",1007⟩]
  events := [{ Workers.samplePayment "payment" 97 "block-7" with confirmations }]

def sampleArrivals : List (Arrival ScannedRange) :=
  [⟨0,.ok (sampleRange 5)⟩,⟨1,.error ⟨"timeout",true⟩⟩,⟨2,.ok (sampleRange 3)⟩]

def sampleLookups : List (Arrival (List TransferEvent)) :=
  [⟨0,.ok (sampleRange 5).events⟩,⟨1,.ok []⟩,⟨2,.ok (sampleRange 3).events⟩]

theorem quorum_answers_whatever_order_sample :
    (∃ b, sampleQuorum.scanRange sampleEncoding sampleArrivals = .ok b ∧
      b.events.map (·.confirmations) = [3]) ∧
    Promised sampleQuorum visible ScannedRange.events (sampleQuorum.scanRange sampleEncoding)
        sampleArrivals sampleArrivals.reverse ∧
      Promised sampleQuorum visibleEvents id (sampleQuorum.lookupTransaction sampleEncoding)
        sampleLookups sampleLookups.reverse := by
  refine ⟨?_,quorum_answers_whatever_order (by decide) (reverse_perm _).symm (by decide)
    (reverse_perm _).symm (sampleEncoding_distinct _) (sampleEncoding_distinct _)⟩
  decide +kernel

end Ocrypt.ProviderQuorum
