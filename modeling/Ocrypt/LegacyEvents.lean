import Ocrypt.LegacyCallbacks
import Ocrypt.Transactions

/-! The events of merchants as the legacy worker reads them: each source has a cursor, an event is
classified or its callback is enqueued, and either one moves the cursor. -/
namespace Ocrypt.LegacyEvents
open Fallible Table Requests LegacyRequests LegacyAmounts LegacyCallbacks Transactions List

structure CoreEvent where
  (eventID eventType : String)
  sequence : ℕ
  /-- Nothing if the payload does not decode. -/
  payload : Option Payload
  deriving DecidableEq

structure CoreIntent where
  status : String
  routes : List CoreRoute

inductive Class
  | invalidPayload
  | noLegacyCallback
  | unmappedIntent
  | stateMismatch
  deriving DecidableEq

structure Classification where
  configID : String
  sequence : ℕ
  eventID : String
  classification : Class
  deriving DecidableEq

structure Delivery where
  configID : String
  sequence : ℕ
  (eventID tradeID : String)
  callback : FrozenCallback
  deriving DecidableEq

/-- The tables of the compatibility layer, and the events of every merchant. -/
structure State where
  mappings : List Mapping
  cursor : String → ℕ
  classifications : List Classification
  deliveries : List Delivery
  events : String → List CoreEvent

/-- What the core and the secrets answer during a poll: for which sources a page is listed, the
intents and the secrets. -/
structure Outside where
  listed : String → Bool
  intents : String → Option CoreIntent
  secrets : String → Option Bytes

variable (versions : List Credential) (merchantOf : String → String) (state : State)
    (config : String)

def moved (sequence : ℕ) : String → ℕ :=
  Function.update state.cursor config sequence

/-- A repeated call is answered by the row that is there; a new one follows the cursor. -/
def classifyEvent (event : CoreEvent) (reason : Class) : Except LegacyError State :=
  if event.sequence ≤ state.cursor config then do
    require (⟨config,event.sequence,event.eventID,reason⟩ ∈ state.classifications) .conflict
    pure state
  else do
    require (event.sequence = state.cursor config+1) .conflict
    require (∀ row ∈ state.classifications, row.configID = config →
      row.sequence ≠ event.sequence ∧ row.eventID ≠ event.eventID) .conflict
    pure { state with
      classifications := state.classifications ++ [⟨config,event.sequence,event.eventID,reason⟩]
      cursor := moved state config event.sequence }

/-- The mapping, its credential and the shape of its protocol are those of the callback. -/
def belongs (config tradeID : String) (callback : FrozenCallback) : Prop :=
  ∃ m ∈ state.mappings, m.tradeID = tradeID ∧ m.configID = config ∧
    m.credentialVersionID = callback.credentialVersionID ∧ m.notifyURL = callback.targetURL ∧
    ∃ v ∈ versions, v.credentialVersionID = m.credentialVersionID ∧ v.configID = m.configID ∧
      v.callbackKeyID = callback.callbackKeyID ∧
      (callback.httpMethod,callback.contentType) = callbackShape v.protocol

instance (versions : List Credential) (state : State) (config tradeID : String)
    (callback : FrozenCallback) : Decidable (belongs versions state config tradeID callback) :=
  inferInstanceAs (Decidable (∃ m ∈ state.mappings, _))

/-- The bounds of the column for the body. -/
abbrev Storable (callback : FrozenCallback) : Prop := 1 ≤ callback.size ∧ callback.size ≤ 65536

def enqueueCallback (event : CoreEvent) (tradeID : String) (callback : FrozenCallback) :
    Except LegacyError State := do
  require (belongs versions state config tradeID callback) .conflict
  if event.sequence ≤ state.cursor config then do
    require (⟨config,event.sequence,event.eventID,tradeID,callback⟩ ∈ state.deliveries) .conflict
    pure state
  else do
    require (event.sequence = state.cursor config+1) .conflict
    require (Storable callback) .database
    require (∀ row ∈ state.deliveries, row.configID = config → row.eventID ≠ event.eventID) .conflict
    require (∀ row ∈ state.deliveries, row.configID = config → row.sequence ≠ event.sequence)
      .database
    pure { state with
      deliveries := state.deliveries ++ [⟨config,event.sequence,event.eventID,tradeID,callback⟩]
      cursor := moved state config event.sequence }

def legacyPaidEvent (envelopeType payloadType : String) : Bool :=
  envelopeType = payloadType && (payloadType = "payment.settled" || payloadType = "payment.overpaid")

def legacyPaidState (eventType intentStatus : String) : Bool :=
  (eventType = "payment.settled" && intentStatus = "settled") ||
    (eventType = "payment.overpaid" && intentStatus = "overpaid")

def lookupMappingByIntent (config intentID : String) : Option Mapping :=
  state.mappings.find? fun m => m.configID = config ∧ m.intentID = intentID

def routeOf (intent : CoreIntent) (routeID : String) : Option CoreRoute :=
  (intent.routes.find? (·.id = routeID)).filter (·.id ≠ "")

section
variable (rt : Runtime) (rats : Rationals) (versions : List Credential)
  (merchantOf : String → String) (outside : Outside)

variable (state : State)

def processPaid (config : String) (event : CoreEvent) (payload : Payload) (mapping : Mapping) :
    Except LegacyError State := do
  let credential ← orFail (lookupCredentialVersion versions mapping.credentialVersionID) .notFound
  let intent ← orFail (outside.intents mapping.intentID) .unavailable
  match routeOf intent mapping.routeID with
  | none => classifyEvent state config event .stateMismatch
  | some route =>
    if legacyPaidState event.eventType intent.status then do
      let secret ← orFail (outside.secrets credential.legacySecretRef) .unavailable
      let callback ← freezeCallback rt rats mapping credential route payload secret
      enqueueCallback versions state config event mapping.tradeID callback
    else classifyEvent state config event .stateMismatch

def processEvent (config : String) (afterSequence : ℕ) (event : CoreEvent) :
    Except LegacyError State := do
  require (afterSequence < event.sequence ∧ event.eventID ≠ "") (.invalid "")
  match event.payload.filter fun p => p.eventID = event.eventID ∧ p.sequence = event.sequence with
  | none => classifyEvent state config event .invalidPayload
  | some payload =>
    if legacyPaidEvent event.eventType payload.eventType && payload.settlement.isSome then
      match lookupMappingByIntent state config payload.intentID with
      | none => classifyEvent state config event .unmappedIntent
      | some mapping => processPaid rt rats versions outside state config event payload mapping
    else classifyEvent state config event .noLegacyCallback

/-- The events of a page: the first failure ends it, what was done before stays. -/
def processEvents (state : State) (config : String) (afterSequence : ℕ) :
    List CoreEvent → State × Option LegacyError
  | [] => (state,none)
  | event::events =>
    match processEvent rt rats versions outside state config afterSequence event with
    | .error e => (state,some e)
    | .ok next => processEvents next config event.sequence events

/-- A page of the merchant's events behind the cursor, in the order of their sequence. -/
def listEvents (config : String) (afterSequence limit : ℕ) :
    Except LegacyError (List CoreEvent) := do
  require (1 ≤ limit ∧ limit ≤ 100) (.invalid "")
  require (outside.listed config = true) .unavailable
  pure (((state.events (merchantOf config)).filter (afterSequence < ·.sequence)).take limit)

/-- The sources one after the other, from the cursors that were listed with them. -/
def pollSources (state : State) (after : String → ℕ) (pageSize : ℕ) :
    List String → State × Option LegacyError
  | [] => (state,none)
  | config::sources =>
    match listEvents merchantOf outside state config (after config) pageSize with
    | .error e => (state,some e)
    | .ok events =>
      match processEvents rt rats versions outside state config (after config) events with
      | (next,some e) => (next,some e)
      | (next,none) => pollSources next after pageSize sources

def pollEvents (sources : List String) (pageSize : ℕ) : State × Option LegacyError :=
  pollSources rt rats versions merchantOf outside state state.cursor pageSize sources

end

def Passed (sequence : ℕ) (eventID : String) : Prop :=
  ∃ i e, i < state.cursor config ∧ (state.events (merchantOf config))[i]? = some e ∧
    sequence = i+1 ∧ eventID = e.eventID

/-- The event behind the cursor of the source. -/
abbrev Next (event : CoreEvent) : Prop :=
  (state.events (merchantOf config))[state.cursor config]? = some event

/-- Events are numbered without gaps under different identifiers, and every row belongs to an event
that its cursor has passed. -/
structure Consistent : Prop where
  numbered : ∀ merchant i e, (state.events merchant)[i]? = some e →
    e.sequence = i+1 ∧ e.eventID ≠ ""
  distinct : ∀ merchant, ((state.events merchant).map (·.eventID)).Nodup
  within : ∀ config, state.cursor config ≤ (state.events (merchantOf config)).length
  classified : ∀ row ∈ state.classifications,
    Passed merchantOf state row.configID row.sequence row.eventID
  delivered : ∀ row ∈ state.deliveries,
    Passed merchantOf state row.configID row.sequence row.eventID

/-- Orders and events are as they were, and the tables are consistent. -/
structure Held (state next : State) : Prop where
  consistent : Consistent merchantOf next
  mappings : next.mappings = state.mappings
  events : next.events = state.events

/-- Besides, a source has moved to the next event. -/
structure Advanced (state next : State) : Prop extends Held merchantOf state next where
  cursor : next.cursor = moved state config (state.cursor config+1)

variable {rt : Runtime} {rats : Rationals} {versions : List Credential}
  {merchantOf : String → String} {outside : Outside} {state next : State} {config tradeID : String}
  {event : CoreEvent} {reason : Class} {callback : FrozenCallback}

section
variable {eventID : String} {sequence : ℕ}

lemma passed_ne (h : Consistent merchantOf state)
    (hen : Next merchantOf state config event)
    (hp : Passed merchantOf state config sequence eventID) :
    sequence ≠ event.sequence ∧ eventID ≠ event.eventID := by
  obtain ⟨i,e,hi,he,rfl,rfl⟩ := hp
  have hse := (h.numbered _ _ _ hen).1
  refine ⟨by omega,fun hid => ?_⟩
  have hin : ((state.events (merchantOf config)).map (·.eventID))[i]? =
      ((state.events (merchantOf config)).map (·.eventID))[state.cursor config]? := by
    rw [List.getElem?_map,List.getElem?_map,he,hen,Option.map_some,Option.map_some,hid]
  have hlt : i < ((state.events (merchantOf config)).map (·.eventID)).length := by
    rw [List.length_map]
    exact (List.getElem?_eq_some_iff.mp he).1
  have heq := (List.getElem?_inj hlt (h.distinct _)).mp hin
  omega

lemma passed_moved {config' : String} (hev : next.events = state.events)
    (hcu : next.cursor = moved state config (state.cursor config+1))
    (hp : Passed merchantOf state config' sequence eventID) :
    Passed merchantOf next config' sequence eventID := by
  obtain ⟨i,e,hi,he,hse,hid⟩ := hp
  refine ⟨i,e,?_,hev ▸ he,hse,hid⟩
  rw [hcu]
  unfold moved
  by_cases hsame : config' = config
  · subst hsame
    rw [Function.update_self]
    omega
  · rwa [Function.update_of_ne hsame]

section
variable (h : Consistent merchantOf state)
  (hen : Next merchantOf state config event)
include h hen

lemma passed_next (he : next.events = state.events)
    (hcu : next.cursor = moved state config (state.cursor config+1)) :
    Passed merchantOf next config event.sequence event.eventID := by
  refine ⟨state.cursor config,event,?_,he ▸ hen,(h.numbered _ _ _ hen).1,rfl⟩
  rw [hcu]
  unfold moved
  rw [Function.update_self]
  omega

lemma advanced_of_noted (hm : next.mappings = state.mappings) (he : next.events = state.events)
    (hcu : next.cursor = moved state config event.sequence)
    (hcl : next.classifications = state.classifications ∨ ∃ reason, next.classifications =
      state.classifications ++ [⟨config,event.sequence,event.eventID,reason⟩])
    (hd : next.deliveries = state.deliveries ∨ ∃ tradeID callback, next.deliveries =
      state.deliveries ++ [⟨config,event.sequence,event.eventID,tradeID,callback⟩]) :
    Advanced merchantOf config state next := by
  have hse := (h.numbered _ _ _ hen).1
  rw [hse] at hcu
  have hn := passed_next h hen he hcu
  refine ⟨⟨⟨?_,?_,?_,?_,?_⟩,hm,he⟩,hcu⟩
  · rw [he]
    exact h.numbered
  · rw [he]
    exact h.distinct
  · intro config'
    rw [hcu,he]
    unfold moved
    by_cases hsame : config' = config
    · subst hsame
      rw [Function.update_self]
      exact (List.getElem?_eq_some_iff.mp hen).1
    · rw [Function.update_of_ne hsame]
      exact h.within config'
  · have hold := fun row hr => passed_moved he hcu (h.classified row hr)
    obtain hcl | ⟨reason,hcl⟩ := hcl <;> rw [hcl]
    · exact hold
    · exact forall_snoc hold hn
  · have hold := fun row hr => passed_moved he hcu (h.delivered row hr)
    obtain hd | ⟨tradeID,callback,hd⟩ := hd <;> rw [hd]
    · exact hold
    · exact forall_snoc hold hn

lemma classifyEvent_ok (reason : Class) : ∃ next,
    classifyEvent state config event reason = .ok next ∧ Advanced merchantOf config state next := by
  have hse := (h.numbered _ _ _ hen).1
  have hf : ∀ row ∈ state.classifications, row.configID = config →
      row.sequence ≠ event.sequence ∧ row.eventID ≠ event.eventID := by
    rintro row hr rfl
    exact passed_ne h hen (h.classified row hr)
  have hn : ¬event.sequence ≤ state.cursor config := by omega
  simp only [classifyEvent,if_neg hn,require_pos hse,require_pos hf]
  exact ⟨_,rfl,advanced_of_noted h hen rfl rfl rfl (.inr ⟨reason,rfl⟩) (.inl rfl)⟩

lemma enqueueCallback_ok (hbe : belongs versions state config tradeID callback)
    (hfi : Storable callback) :
    ∃ next, enqueueCallback versions state config event tradeID callback = .ok next ∧
      Advanced merchantOf config state next := by
  have hsq := (h.numbered _ _ _ hen).1
  have hf : ∀ row ∈ state.deliveries, row.configID = config →
      row.sequence ≠ event.sequence ∧ row.eventID ≠ event.eventID := by
    rintro row hr rfl
    exact passed_ne h hen (h.delivered row hr)
  have hi := fun row hr hco => (hf row hr hco).2
  have hse := fun row hr hco => (hf row hr hco).1
  have hn : ¬event.sequence ≤ state.cursor config := by omega
  simp only [enqueueCallback,require_pos hbe,if_neg hn,require_pos hsq,require_pos hfi,
    require_pos hi,require_pos hse]
  exact ⟨_,rfl,advanced_of_noted h hen rfl rfl rfl (.inl rfl) (.inr ⟨tradeID,callback,rfl⟩)⟩

end

end

/-- The credentials as they were admitted: one row a version, at most four digits for the form
protocol. -/
structure Admitted (versions : List Credential) : Prop where
  nodup : (versions.map (·.credentialVersionID)).Nodup
  scale : ∀ c ∈ versions, c.protocol = .formMD5 → c.currencyScale ≤ 4

/-- The orders were recorded by `Create`, and the callback of each can be written. -/
structure Orders (rats : Rationals) (versions : List Credential) (mappings : List Mapping) : Prop where
  recorded : ∀ m ∈ mappings, Recorded rats versions m
  plain : ∀ m ∈ mappings, m.protocol = .jsonMD5 → leadingZero m.amount = false

/-- The core and the secrets answer, the display amounts of the routes are canonical, and the
callbacks that are written of them fit their column. -/
structure Answering (rt : Runtime) (rats : Rationals) (versions : List Credential)
    (merchantOf : String → String) (outside : Outside) (mappings : List Mapping)
    (events : String → List CoreEvent) : Prop where
  intents : ∀ m ∈ mappings, ∃ intent, outside.intents m.intentID = some intent ∧
    ∀ route ∈ intent.routes, route.id = m.routeID → canonicalAmount route.displayAmount
  secrets : ∀ c ∈ versions, (outside.secrets c.legacySecretRef).isSome = true
  fits : ∀ m ∈ mappings, ∀ intent ∈ outside.intents m.intentID, ∀ route ∈ intent.routes,
    ∀ event ∈ events (merchantOf m.configID), ∀ payload ∈ event.payload, ∀ credential ∈ versions,
      ∀ secret callback, freezeCallback rt rats m credential route payload secret = .ok callback →
        Storable callback

section
variable {mapping : Mapping} {payload : Payload}

lemma lookup_recorded (hversions : Admitted versions) (hr : Recorded rats versions mapping) :
    ∃ credential ∈ versions,
      lookupCredentialVersion versions mapping.credentialVersionID = some credential ∧
      credential.credentialVersionID = mapping.credentialVersionID ∧
      credential.configID = mapping.configID ∧ credential.protocol = mapping.protocol := by
  obtain ⟨credential,hmem,hid,hco,hp,-⟩ := hr.accepted
  refine ⟨credential,hmem,?_,hid,hco,hp⟩
  rw [lookupCredentialVersion,← hid]
  exact find?_key hversions.nodup hmem

variable (hversions : Admitted versions) (hor : Orders rats versions state.mappings)
  (han : Answering rt rats versions merchantOf outside state.mappings state.events)
  (h : Consistent merchantOf state)
  (hen : Next merchantOf state config event)
include hversions hor han h hen

lemma processPaid_ok (hm : mapping ∈ state.mappings) (hco : mapping.configID = config)
    (hpy : payload ∈ event.payload)
    (hty : legacyPaidEvent event.eventType payload.eventType = true)
    (hse : payload.settlement.isSome = true) :
    ∃ next, processPaid rt rats versions outside state config event payload mapping = .ok next ∧
      Advanced merchantOf config state next := by
  have hr := hor.recorded mapping hm
  obtain ⟨credential,hmem,hl,hid,hcr,hp⟩ :=
    lookup_recorded hversions hr
  obtain ⟨intent,hi,hru⟩ := han.intents mapping hm
  obtain ⟨secret,hsc⟩ := Option.isSome_iff_exists.mp (han.secrets credential hmem)
  obtain ⟨transactionHash,hha⟩ := Option.isSome_iff_exists.mp hse
  simp only [processPaid,hl,hi,orFail,ok_bind]
  cases hro : routeOf intent mapping.routeID with
  | none => exact classifyEvent_ok h hen _
  | some route =>
    by_cases hpa : legacyPaidState event.eventType intent.status = true
    · obtain ⟨hfi,-⟩ := Option.filter_eq_some_iff.mp hro
      have hrt : route ∈ intent.routes := (mem_of_find? hfi).1
      have hd : canonicalAmount route.displayAmount := hru route hrt (mem_of_find? hfi).2
      have hk : payload.eventType = "payment.settled" ∨
          payload.eventType = "payment.overpaid" := by
        unfold legacyPaidEvent at hty
        simp only [Bool.and_eq_true,Bool.or_eq_true,decide_eq_true_eq] at hty
        exact hty.2
      obtain ⟨callback,hf⟩ : ∃ callback,
          freezeCallback rt rats mapping credential route payload secret = .ok callback :=
        (freezeCallback_iff hr hversions.scale hha hk hd).mpr (hor.plain mapping hm)
      obtain ⟨hta,hv,hke,hsh,-⟩ := freezeCallback_target hf
      have hbe : belongs versions state config mapping.tradeID callback :=
        ⟨mapping,hm,rfl,hco,(hv.trans hid).symm,hta.symm,credential,hmem,
          hid,hcr,hke.symm,by rw [hsh,hp]⟩
      simp only [hpa,hsc,hf,ok_bind]
      exact enqueueCallback_ok h hen hbe (han.fits mapping hm intent hi route hrt event
        (hco ▸ mem_of_getElem? hen) payload hpy credential hmem secret callback hf)
    · simp only [hpa]
      exact classifyEvent_ok h hen _

lemma processEvent_ok :
    ∃ next, processEvent rt rats versions outside state config (state.cursor config) event =
      .ok next ∧ Advanced merchantOf config state next := by
  obtain ⟨hsq,hid⟩ := h.numbered _ _ _ hen
  have hn : state.cursor config < event.sequence ∧ event.eventID ≠ "" := ⟨by omega,hid⟩
  simp only [processEvent,require_pos hn]
  split
  · exact classifyEvent_ok h hen _
  · rename_i payload hpa
    by_cases hp : (legacyPaidEvent event.eventType payload.eventType &&
        payload.settlement.isSome) = true
    · rw [if_pos hp]
      obtain ⟨hty,hse⟩ := Bool.and_eq_true_iff.mp hp
      cases hl : lookupMappingByIntent state config payload.intentID with
      | none => exact classifyEvent_ok h hen _
      | some mapping =>
        obtain ⟨hm,hco,-⟩ := mem_of_find? hl
        exact processPaid_ok hversions hor han h hen hm hco
          (Option.filter_eq_some_iff.mp hpa).1 hty hse
    · rw [if_neg hp]
      exact classifyEvent_ok h hen _

end

variable {pageSize after : ℕ} {events : List CoreEvent} {sources : List String} {last : State}

lemma Held.trans (h : Held merchantOf state next) (h' : Held merchantOf next last) :
    Held merchantOf state last :=
  ⟨h'.consistent,h'.mappings.trans h.mappings,h'.events.trans h.events⟩

lemma filter_sequence {k : ℕ} (h : ∀ i e, events[i]? = some e → e.sequence = k+i+1) :
    events.filter (after < ·.sequence) = events.drop (after - k) := by
  induction events generalizing k with
  | nil => simp
  | cons e events ih =>
    have hhe : e.sequence = k+1 := h 0 e rfl
    have hta : ∀ i e', events[i]? = some e' → e'.sequence = k+1+i+1 := by
      intro i e' he'
      have hn := h (i+1) e' he'
      omega
    rw [filter_cons,ih hta]
    by_cases haf : after < k+1
    · have hz : after - k = 0 := by omega
      have hz' : after - (k+1) = 0 := by omega
      simp [hhe,haf,hz,hz']
    · have hsu : after - k = after - (k+1)+1 := by omega
      simp [hhe,haf,hsu]

lemma listed_page (h : Consistent merchantOf state) (after : ℕ) :
    (state.events (merchantOf config)).filter (after < ·.sequence) =
      (state.events (merchantOf config)).drop after := by
  have hn : ∀ i e, (state.events (merchantOf config))[i]? = some e →
      e.sequence = 0+i+1 := by
    intro i e he
    rw [(h.numbered _ i e he).1,Nat.zero_add]
  exact filter_sequence hn

variable (config) in
lemma processEvents_ok (hversions : Admitted versions) (n : ℕ)
    (hor : Orders rats versions state.mappings)
    (han : Answering rt rats versions merchantOf outside state.mappings state.events)
    (h : Consistent merchantOf state) :
    ∃ next, processEvents rt rats versions outside state config (state.cursor config)
        (((state.events (merchantOf config)).drop (state.cursor config)).take n) = (next,none) ∧
      Held merchantOf state next ∧ next.cursor = moved state config
        (min (state.cursor config+n) (state.events (merchantOf config)).length) := by
  induction n generalizing state with
  | zero =>
    refine ⟨state,rfl,⟨h,rfl,rfl⟩,?_⟩
    unfold moved
    rw [Nat.add_zero,min_eq_left (h.within config),Function.update_eq_self]
  | succ n ih =>
    by_cases he : state.cursor config < (state.events (merchantOf config)).length
    · obtain ⟨event,hen⟩ : ∃ event, Next merchantOf state config event :=
        ⟨_,getElem?_eq_getElem he⟩
      obtain ⟨middle,hm,had⟩ := processEvent_ok hversions hor han h hen
      have hcu : middle.cursor config = state.cursor config+1 := by
        rw [had.cursor]
        exact Function.update_self ..
      have hse : event.sequence = middle.cursor config := by
        rw [hcu,(h.numbered _ _ _ hen).1]
      have hp : (state.events (merchantOf config)).drop (state.cursor config) =
          event::(middle.events (merchantOf config)).drop (middle.cursor config) := by
        rw [had.events,hcu,drop_eq_getElem_cons he]
        rw [Next,getElem?_eq_getElem he] at hen
        rw [Option.some.inj hen]
      obtain ⟨next,hne,hhe,hl⟩ := ih (had.mappings.symm ▸ hor)
        (had.events ▸ had.mappings.symm ▸ han) had.consistent
      refine ⟨next,?_,had.toHeld.trans hhe,?_⟩
      · rw [hp,take_succ_cons]
        simp only [processEvents,hm,hse]
        exact hne
      · rw [hl,hcu,had.events]
        unfold moved
        rw [had.cursor]
        unfold moved
        rw [Function.update_idem]
        congr 1
        omega
    · have hni := drop_eq_nil_of_le (not_lt.mp he)
      refine ⟨state,by rw [hni]; rfl,⟨h,rfl,rfl⟩,?_⟩
      have hmi : min (state.cursor config+(n+1)) (state.events (merchantOf config)).length =
          state.cursor config := by
        have hle := h.within config
        omega
      unfold moved
      rw [hmi,Function.update_eq_self]

lemma pollSources_ok (hversions : Admitted versions) (hpa : 1 ≤ pageSize ∧ pageSize ≤ 100)
    {after : String → ℕ} (hn : sources.Nodup)
    (hl : ∀ c ∈ sources, outside.listed c = true) (haf : ∀ c ∈ sources, after c = state.cursor c)
    (hor : Orders rats versions state.mappings)
    (han : Answering rt rats versions merchantOf outside state.mappings state.events)
    (h : Consistent merchantOf state) :
    ∃ next, pollSources rt rats versions merchantOf outside state after pageSize sources =
        (next,none) ∧ Held merchantOf state next ∧ (∀ c ∈ sources, next.cursor c =
        min (state.cursor c+pageSize) (state.events (merchantOf c)).length) ∧
      ∀ c, c ∉ sources → next.cursor c = state.cursor c := by
  induction sources generalizing state with
  | nil => exact ⟨state,rfl,⟨h,rfl,rfl⟩,by simp,fun c _ => rfl⟩
  | cons config sources ih =>
    rw [nodup_cons] at hn
    obtain ⟨middle,hm,hhe,hcu⟩ := processEvents_ok config hversions pageSize hor han h
    have ho : ∀ c, c ≠ config → middle.cursor c = state.cursor c := by
      intro c hne
      rw [hcu]
      exact Function.update_of_ne hne ..
    have haf' : ∀ c ∈ sources, after c = middle.cursor c := by
      intro c hc
      rw [ho c (fun heq => hn.1 (heq ▸ hc))]
      exact haf c (mem_cons_of_mem _ hc)
    obtain ⟨next,hnx,hhe',hmo,hk⟩ := ih hn.2
      (fun c hc => hl c (mem_cons_of_mem _ hc)) haf' (hhe.mappings.symm ▸ hor)
      (hhe.events ▸ hhe.mappings.symm ▸ han) hhe.consistent
    refine ⟨next,?_,hhe.trans hhe',?_,?_⟩
    · simp only [pollSources,listEvents,require_pos hpa,
        require_pos (hl config mem_cons_self),ok_bind,haf config mem_cons_self, listed_page h]
      simp only [pure,Except.pure,hm]
      exact hnx
    · intro c hc
      rcases mem_cons.mp hc with rfl | hc
      · rw [hk c hn.1,hcu]
        exact Function.update_self ..
      · rw [hmo c hc,ho c (fun heq => hn.1 (heq ▸ hc)),hhe.events]
    · intro c hc
      rw [mem_cons,not_or] at hc
      rw [hk c hc.2,ho c hc.1]

section
variable (h : Consistent merchantOf state) (hmem : event ∈ state.events (merchantOf config))
include h hmem

lemma next_of_mem (hse : event.sequence = state.cursor config+1) :
    Next merchantOf state config event := by
  obtain ⟨i,hi,rfl⟩ := mem_iff_getElem.mp hmem
  have hn := (h.numbered _ i _ (getElem?_eq_getElem hi)).1
  have hin : i = state.cursor config := by omega
  rw [Next,← hin,getElem?_eq_getElem hi]

lemma classifyEvent_held
    (hok : classifyEvent state config event reason = .ok next) : Held merchantOf state next := by
  unfold classifyEvent at hok
  split_ifs at hok <;> simp only [do_ok] at hok
  · rw [← hok.2]
    exact ⟨h,rfl,rfl⟩
  · obtain ⟨hse,-,rfl⟩ := hok
    exact Advanced.toHeld (advanced_of_noted h (next_of_mem h hmem hse) rfl rfl rfl
      (.inr ⟨reason,rfl⟩) (.inl rfl))

lemma enqueueCallback_held
    (hok : enqueueCallback versions state config event tradeID callback = .ok next) :
    Held merchantOf state next := by
  simp only [enqueueCallback,do_ok] at hok
  obtain ⟨-,hok⟩ := hok
  split_ifs at hok <;> simp only [do_ok] at hok
  · rw [← hok.2]
    exact ⟨h,rfl,rfl⟩
  · obtain ⟨hse,-,-,-,rfl⟩ := hok
    exact Advanced.toHeld (advanced_of_noted h (next_of_mem h hmem hse) rfl rfl rfl (.inl rfl)
      (.inr ⟨tradeID,callback,rfl⟩))

lemma processEvent_held
    (hok : processEvent rt rats versions outside state config after event = .ok next) :
    Held merchantOf state next := by
  simp only [processEvent,do_ok] at hok
  obtain ⟨-,hok⟩ := hok
  split at hok
  · exact classifyEvent_held h hmem hok
  split_ifs at hok
  · split at hok
    · exact classifyEvent_held h hmem hok
    · simp only [processPaid,do_ok] at hok
      obtain ⟨credential,-,intent,-,hok⟩ := hok
      split at hok
      · exact classifyEvent_held h hmem hok
      split_ifs at hok
      · simp only [do_ok] at hok
        obtain ⟨secret,-,callback,-,hok⟩ := hok
        exact enqueueCallback_held h hmem hok
      · exact classifyEvent_held h hmem hok
  · exact classifyEvent_held h hmem hok

end

lemma processEvents_held (h : Consistent merchantOf state)
    (hmem : ∀ e ∈ events, e ∈ state.events (merchantOf config)) : Held merchantOf state
      (processEvents rt rats versions outside state config after events).1 := by
  induction events generalizing state after with
  | nil => exact ⟨h,rfl,rfl⟩
  | cons event events ih =>
    unfold processEvents
    cases hst : processEvent rt rats versions outside state config after event with
    | error e => exact ⟨h,rfl,rfl⟩
    | ok middle =>
      have hhe := processEvent_held h (hmem event mem_cons_self) hst
      refine hhe.trans (ih hhe.consistent fun e he => ?_)
      rw [hhe.events]
      exact hmem e (mem_cons_of_mem _ he)

lemma pollSources_held {after : String → ℕ}
    (h : Consistent merchantOf state) : Held merchantOf state
      (pollSources rt rats versions merchantOf outside state after pageSize sources).1 := by
  induction sources generalizing state with
  | nil => exact ⟨h,rfl,rfl⟩
  | cons config sources ih =>
    unfold pollSources
    cases hl : listEvents merchantOf outside state config (after config) pageSize with
    | error e => exact ⟨h,rfl,rfl⟩
    | ok events =>
      have hmem : ∀ e ∈ events, e ∈ state.events (merchantOf config) := by
        simp only [listEvents,do_ok] at hl
        intro e he
        rw [← hl.2.2] at he
        exact (mem_filter.mp (mem_of_mem_take he)).1
      have hhe : Held merchantOf state
          (processEvents rt rats versions outside state config (after config) events).1 :=
        processEvents_held h hmem
      dsimp only
      cases hp : processEvents rt rats versions outside state config (after config) events with
      | mk middle failure =>
        rw [hp] at hhe
        cases failure with
        | some e => exact hhe
        | none => exact hhe.trans (ih hhe.consistent)

/-- A call of the service, a new event of a merchant, or a poll. -/
inductive Action
  | create (service : Service) (answers : Answers) (request : CreateRequest) (peer : Option Bytes)
  | publish (merchant : String) (event : CoreEvent)
  | poll (outside : Outside) (sources : List String) (pageSize : ℕ)

def State.initial : State := ⟨[],fun _ => 0,[],[],fun _ => []⟩

section
variable (rt : Runtime) (rats : Rationals) (versions : List Credential)
  (merchantOf : String → String)

/-- The allocator of sequences gives each event of a merchant the next one. A poll that fails keeps
what it has done. -/
def exec (state : State) : Action → Except LegacyError State
  | .create service answers request peer => do
    let (mappings,_) ← create rt rats versions service answers state.mappings request peer
    pure { state with mappings := mappings }
  | .publish merchant event => do
    require (event.sequence = (state.events merchant).length+1 ∧ event.eventID ≠ "" ∧
      ∀ e ∈ state.events merchant, e.eventID ≠ event.eventID) .database
    pure { state with
      events := Function.update state.events merchant (state.events merchant ++ [event]) }
  | .poll outside sources pageSize =>
    .ok (pollEvents rt rats versions merchantOf outside state sources pageSize).1

end

def Plain : Action → Prop
  | .create _ _ request _ => request.protocol = .jsonMD5 → leadingZero request.amount = false
  | _ => True

def Smooth (rt : Runtime) (rats : Rationals) (versions : List Credential)
    (merchantOf : String → String) (state : State) (action : Action) : Prop :=
  Plain action ∧ match action with
    | .poll outside sources pageSize => sources.Nodup ∧ (1 ≤ pageSize ∧ pageSize ≤ 100) ∧
        (∀ c ∈ sources, outside.listed c = true) ∧
        Answering rt rats versions merchantOf outside state.mappings state.events
    | _ => True

def pollsOf (config : String) (actions : List Action) : ℕ :=
  actions.countP fun
    | .poll _ sources _ => config ∈ sources
    | _ => false

section
variable {action : Action} {actions : List Action} {limit : ℕ}

lemma initial_consistent : Consistent merchantOf State.initial := by
  constructor <;> simp [State.initial]

lemma publish_consistent {merchant : String} (h : Consistent merchantOf state)
    (hen : event.sequence = (state.events merchant).length+1 ∧ event.eventID ≠ "" ∧
      ∀ e ∈ state.events merchant, e.eventID ≠ event.eventID) : Consistent merchantOf { state with
      events := Function.update state.events merchant (state.events merchant ++ [event]) } := by
  set longer := Function.update state.events merchant (state.events merchant ++ [event]) with hl
  have hg : ∀ m, state.events m <+: longer m := by
    intro m
    by_cases hm : m = merchant
    · rw [hl,hm,Function.update_self]
      exact List.prefix_append _ _
    · rw [hl,Function.update_of_ne hm]
  have hp : ∀ config sequence eventID, Passed merchantOf state config sequence eventID →
      Passed merchantOf { state with events := longer } config sequence eventID := by
    rintro config sequence eventID ⟨i,e,hi,he,hse,hid⟩
    refine ⟨i,e,hi,?_,hse,hid⟩
    obtain ⟨hlt,-⟩ := List.getElem?_eq_some_iff.mp he
    obtain ⟨rest,hr⟩ := hg (merchantOf config)
    dsimp only
    rw [← hr,List.getElem?_append_left hlt]
    exact he
  refine ⟨fun m i e he => ?_,fun m => ?_,fun config => ?_,?_,?_⟩
  · by_cases hm : m = merchant
    · subst hm
      simp only [hl,Function.update_self] at he
      rcases lt_or_ge i (state.events m).length with hlt | hge
      · rw [List.getElem?_append_left hlt] at he
        exact h.numbered _ _ _ he
      · rw [List.getElem?_append_right hge] at he
        obtain ⟨hsi,rfl⟩ := List.getElem?_eq_some_iff.mp he
        rw [List.length_singleton] at hsi
        simp only [List.getElem_singleton]
        exact ⟨by omega,hen.2.1⟩
    · simp only [hl,Function.update_of_ne hm] at he
      exact h.numbered _ _ _ he
  · by_cases hm : m = merchant
    · subst hm
      simp only [hl,Function.update_self]
      exact nodup_map_append (h.distinct _) hen.2.2
    · simp only [hl,Function.update_of_ne hm]
      exact h.distinct _
  · exact (h.within config).trans (hg _).length_le
  · exact fun row hro => hp _ _ _ (h.classified row hro)
  · exact fun row hro => hp _ _ _ (h.delivered row hro)

section
variable (h : Consistent merchantOf state)
  (hok : exec rt rats versions merchantOf state action = .ok next)
include h hok

lemma exec_consistent : Consistent merchantOf next := by
  cases action with
  | create service answers request peer =>
    simp only [exec,do_ok] at hok
    obtain ⟨_,-,rfl⟩ := hok
    exact ⟨h.numbered,h.distinct,h.within,h.classified,h.delivered⟩
  | publish merchant event =>
    simp only [exec,do_ok] at hok
    obtain ⟨hen,rfl⟩ := hok
    exact publish_consistent h hen
  | poll outside sources pageSize =>
    cases hok
    exact (pollSources_held h).consistent

lemma exec_mappings : next.mappings = state.mappings ∨ ∃ service answers request peer stored,
      action = .create service answers request peer ∧
      next.mappings = state.mappings ++ [stored] ∧ stored.amount = request.amount ∧
      stored.protocol = request.protocol ∧ Recorded rats versions stored := by
  cases action with
  | create service answers request peer =>
    simp only [exec,do_ok] at hok
    obtain ⟨⟨mappings,stored⟩,hcr,rfl⟩ := hok
    rcases create_cases hcr with ⟨hsame,-⟩ | ⟨hn,hst⟩
    · exact .inl hsame
    · exact .inr ⟨service,answers,request,peer,stored,rfl,hn,hst⟩
  | publish merchant event =>
    simp only [exec,do_ok] at hok
    obtain ⟨-,rfl⟩ := hok
    exact .inl rfl
  | poll outside sources pageSize =>
    cases hok
    exact .inl (pollSources_held h).mappings

end

def Sound (rats : Rationals) (versions : List Credential) (merchantOf : String → String)
    (state : State) : Prop :=
  Consistent merchantOf state ∧ ∀ m ∈ state.mappings, Recorded rats versions m

lemma exec_sound (h : Sound rats versions merchantOf state)
    (hok : exec rt rats versions merchantOf state action = .ok next) :
    Sound rats versions merchantOf next := by
  refine ⟨exec_consistent h.1 hok,?_⟩
  rcases exec_mappings h.1 hok with hsame | ⟨_,_,_,_,stored,-,hn,-,-,hr⟩
  · rw [hsame]
    exact h.2
  · rw [hn]
    exact forall_snoc h.2 hr

/-- Besides, the callback of every order can be written. -/
abbrev Tidy (rats : Rationals) (versions : List Credential) (merchantOf : String → String)
    (state : State) : Prop :=
  Sound rats versions merchantOf state ∧ Orders rats versions state.mappings

lemma exec_plain (h : Tidy rats versions merchantOf state) (hp : Plain action)
    (hok : exec rt rats versions merchantOf state action = .ok next) :
    Tidy rats versions merchantOf next := by
  have hso := exec_sound h.1 hok
  refine ⟨hso,hso.2,?_⟩
  rcases exec_mappings h.1.1 hok with hsame | ⟨_,_,request,_,stored,rfl,hn,ham,hk,-⟩
  · rw [hsame]
    exact h.2.plain
  · rw [hn]
    refine forall_snoc h.2.plain fun hj => ?_
    rw [ham]
    exact hp (hk.symm.trans hj)

lemma initial_sound : Sound rats versions merchantOf State.initial :=
  ⟨initial_consistent,by simp [State.initial]⟩

lemma initial_orders : Orders rats versions State.initial.mappings := by
  constructor <;> simp [State.initial]

lemma run_orders (hp : ∀ a ∈ actions, Plain a) (h : Tidy rats versions merchantOf state) :
    Tidy rats versions merchantOf (run (exec rt rats versions merchantOf) state actions) :=
  run_invariant (C := fun _ a => Plain a) (fun _ _ _ h hp hok => exec_plain h hp hok) h
    (along_of_forall fun a ha _ => hp a ha)

lemma exec_length (h : Consistent merchantOf state)
    (hok : exec rt rats versions merchantOf state action = .ok next) (merchant : String) :
    (state.events merchant).length ≤ (next.events merchant).length := by
  cases action with
  | create service answers request peer =>
    simp only [exec,do_ok] at hok
    obtain ⟨_,-,rfl⟩ := hok
    exact le_refl _
  | publish other event =>
    simp only [exec,do_ok] at hok
    obtain ⟨-,rfl⟩ := hok
    by_cases hm : merchant = other
    · subst hm
      simp
    · simp [hm]
  | poll outside sources pageSize =>
    cases hok
    exact (congrArg (fun events => (events merchant).length) (pollSources_held h).events).ge

section
variable (rt) (hversions : Admitted versions) (h : Tidy rats versions merchantOf state)
include hversions h

lemma smooth_poll
    (hsm : Smooth rt rats versions merchantOf state (.poll outside sources pageSize)) :
    ∃ next, pollEvents rt rats versions merchantOf outside state sources pageSize = (next,none) ∧
      (∀ c ∈ sources, next.cursor c =
        min (state.cursor c+pageSize) (state.events (merchantOf c)).length) ∧
      ∀ c, c ∉ sources → next.cursor c = state.cursor c := by
  obtain ⟨-,hn,hp,hl,han⟩ := hsm
  obtain ⟨next,hne,-,hm,hk⟩ := pollSources_ok hversions hp hn hl (fun c _ => rfl) h.2 han h.1.1
  exact ⟨next,hne,hm,hk⟩

lemma smooth_cursor (hsm : Smooth rt rats versions merchantOf state action) (config : String)
    (hl : limit ≤ (state.events (merchantOf config)).length) :
    min limit (state.cursor config+pollsOf config [action]) ≤
      (commit (exec rt rats versions merchantOf) state action).cursor config := by
  unfold commit
  cases action with
  | create service answers request peer =>
    have hno : pollsOf config [.create service answers request peer] = 0 := rfl
    split
    · rename_i hee
      simp only [exec,do_ok] at hee
      obtain ⟨_,-,rfl⟩ := hee
      simp [hno]
    · simp [hno]
  | publish merchant event =>
    have hno : pollsOf config [.publish merchant event] = 0 := rfl
    split
    · rename_i hee
      simp only [exec,do_ok] at hee
      obtain ⟨-,rfl⟩ := hee
      simp [hno]
    · simp [hno]
  | poll outside sources pageSize =>
    obtain ⟨next,hn,hm,hk⟩ := smooth_poll rt hversions h hsm
    obtain ⟨-,-,hp,-⟩ := hsm
    simp only [exec,hn]
    by_cases hmem : config ∈ sources
    · have ho : pollsOf config [.poll outside sources pageSize] = 1 := by
        simp [pollsOf,hmem]
      rw [ho,hm config hmem]
      omega
    · have hno : pollsOf config [.poll outside sources pageSize] = 0 := by
        simp [pollsOf,hmem]
      rw [hno,hk config hmem]
      omega

omit h hversions in
lemma pollsOf_cons (config : String) :
    pollsOf config (action::actions) = pollsOf config [action]+pollsOf config actions := by
  unfold pollsOf
  rw [← singleton_append,countP_append]

lemma smooth_run (hsm : Along (exec rt rats versions merchantOf)
      (Smooth rt rats versions merchantOf) state actions)
    (config : String) (hl : limit ≤ (state.events (merchantOf config)).length) :
    min limit (state.cursor config+pollsOf config actions) ≤
      (run (exec rt rats versions merchantOf) state actions).cursor config := by
  induction actions generalizing state with
  | nil => simp [pollsOf]
  | cons action actions ih =>
    obtain ⟨hf,hr⟩ := hsm
    have hst := smooth_cursor rt hversions h hf config hl
    have hk : let next := commit (exec rt rats versions merchantOf) state action
        Tidy rats versions merchantOf next ∧
          limit ≤ (next.events (merchantOf config)).length := by
      unfold commit
      cases hee : exec rt rats versions merchantOf state action with
      | error e => exact ⟨h,hl⟩
      | ok next => exact ⟨exec_plain h hf.1 hee,
          hl.trans (exec_length h.1.1 hee (merchantOf config))⟩
    have hla := ih hk.1 hr hk.2
    rw [pollsOf_cons,run_cons]
    omega

end

/-- In every run the callback of an order can be frozen exactly if it is not a JSON order whose
amount has a leading zero. In a run without such orders a poll whose surroundings answer ends
without an error, a page further for each of its sources, and the cursor of a source passes every
event after as many polls as there are events. -/
theorem callbacks_frozen_iff (hversions : Admitted versions) :
    (∀ actions, ∀ m ∈ (run (exec rt rats versions merchantOf) State.initial actions).mappings,
      ∀ credential route payload secret, payload.settlement.isSome = true →
        (payload.eventType = "payment.settled" ∨ payload.eventType = "payment.overpaid") →
        canonicalAmount route.displayAmount →
        ((∃ frozen, freezeCallback rt rats m credential route payload secret = .ok frozen) ↔
          (m.protocol = .jsonMD5 → leadingZero m.amount = false))) ∧
    ∀ actions, (∀ a ∈ actions, Plain a) →
      let state := run (exec rt rats versions merchantOf) State.initial actions
      (∀ outside sources pageSize,
        Smooth rt rats versions merchantOf state (.poll outside sources pageSize) →
        ∃ next, pollEvents rt rats versions merchantOf outside state sources pageSize =
          (next,none) ∧ ∀ c ∈ sources, next.cursor c =
            min (state.cursor c+pageSize) (state.events (merchantOf c)).length) ∧
      ∀ later config,
        Along (exec rt rats versions merchantOf) (Smooth rt rats versions merchantOf) state later →
        (state.events (merchantOf config)).length ≤ pollsOf config later →
        (state.events (merchantOf config)).length ≤
          (run (exec rt rats versions merchantOf) state later).cursor config := by
  constructor
  · intro actions m hm credential route payload secret hse hty hd
    have hso : Sound rats versions merchantOf
        (run (exec rt rats versions merchantOf) State.initial actions) :=
      run_keeps (fun _ _ _ h hok => exec_sound h hok) initial_sound
    obtain ⟨transactionHash,hha⟩ := Option.isSome_iff_exists.mp hse
    exact freezeCallback_iff (hso.2 m hm) hversions.scale hha hty hd
  · intro actions hp state
    have h : Sound rats versions merchantOf state ∧ Orders rats versions state.mappings :=
      run_orders hp ⟨initial_sound,initial_orders⟩
    constructor
    · intro outside sources pageSize hsm
      obtain ⟨next,hn,hmo,-⟩ := smooth_poll rt hversions h hsm
      exact ⟨next,hn,hmo⟩
    · intro later config hl hpo
      have hla := smooth_run rt hversions h hl config (le_refl _)
      omega

end

def sampleRationals : Rationals where
  setString text := (decimalParts text).map fun p => decimalValue p.1 p.2
  setString_decimal := by
    intro text whole fraction h _
    rw [h]
    rfl

def zeroRuntime : Runtime := { sampleRuntime with md5 := fun _ => List.replicate 16 0 }

def sampleVersions : List Credential :=
  [⟨"config-a","version-a",.jsonMD5,utf8 "1","secret","key",utf8 "USD",2,utf8 "USDT",
      utf8 "tron",utf8 "json_md5",[⟨[0,0,0,0],0⟩]⟩,
    ⟨"config-b","version-b",.formMD5,utf8 "1","secret","key",utf8 "USD",2,utf8 "USDT",
      utf8 "tron",utf8 "usdt",[⟨[0,0,0,0],0⟩]⟩]

def sampleRequest (amount : String) : CreateRequest where
  protocol := .jsonMD5
  pid := utf8 "1"
  orderID := utf8 "7"
  amount := utf8 amount
  currency := utf8 "USD"
  token := utf8 "USDT"
  network := utf8 "tron"
  paymentType := []
  name := []
  notifyURL := utf8 "https://merchant"
  returnURL := []
  signature := List.replicate 32 (byte '0')
  canonical := []
  canonicalHash := []

def sampleActions (amount : String) : List Action :=
  [.create ⟨60,90,1000,100⟩ ⟨"version-a",true,true,1000,some [],fun _ => true,
      some "intent",some "route",some "trade"⟩ (sampleRequest amount) (some [127,0,0,1]),
    .publish "config-a" ⟨"event-1","payment.settled",1,
      some ⟨"event-1",1,"payment.settled","intent",some "transaction"⟩⟩,
    .publish "config-b" ⟨"event-2","payment.expired",1,none⟩]

def sampleOutside : Outside where
  listed _ := true
  intents _ := some ⟨"settled",[⟨"route",utf8 "1.5",utf8 "address"⟩]⟩
  secrets _ := some []

lemma sampleVersions_admitted : Admitted sampleVersions := ⟨by decide,by decide⟩

theorem callbacks_frozen_iff_sample : ∃ next,
    pollEvents zeroRuntime sampleRationals sampleVersions id sampleOutside
      (run (exec zeroRuntime sampleRationals sampleVersions id) State.initial (sampleActions "1.50"))
      ["config-a", "config-b"] 100 = (next,none) ∧ next.cursor "config-a" = 1 := by
  have hp : ∀ a ∈ sampleActions "1.50", Plain a := by
    simp only [sampleActions,forall_mem_cons,not_mem_nil,false_imp_iff,implies_true,Plain]
    decide +kernel
  have hal := (@callbacks_frozen_iff zeroRuntime sampleRationals sampleVersions id
    sampleVersions_admitted).2 (sampleActions "1.50") hp
  obtain ⟨next,hn,hcu⟩ := hal.1 sampleOutside ["config-a", "config-b"] 100
    ⟨trivial,by decide,by decide,fun _ _ => rfl,fun m _ => ⟨_,rfl,by
      intro route hr _
      rw [mem_singleton.mp hr]
      exact ⟨by decide +kernel,by decide +kernel,by decide +kernel⟩⟩,fun _ _ => rfl,
      fun _ _ _ _ _ _ _ _ _ _ _ _ _ _ hf => by
        obtain ⟨-,-,-,-,hsz⟩ := freezeCallback_target hf
        rw [Storable,hsz]
        exact (by decide : 1 ≤ 1 ∧ 1 ≤ 65536)⟩
  refine ⟨next,hn,?_⟩
  rw [hcu "config-a" (by simp)]
  decide +kernel

/-- An order over the amount `01` is accepted. Its settlement cannot be written as JSON, and the
poll stops there: neither this cursor nor that of the next source moves. -/
theorem leading_zero_blocks_sources :
    let state := run (exec zeroRuntime sampleRationals sampleVersions id) State.initial
      (sampleActions "01")
    let polled := pollEvents zeroRuntime sampleRationals sampleVersions id sampleOutside state
      ["config-a", "config-b"] 100
    state.mappings.map (·.amount) = [utf8 "01"] ∧ polled.2 = some .encoding ∧
      polled.1.cursor "config-a" = 0 ∧ polled.1.cursor "config-b" = 0 := by
  decide +kernel

end Ocrypt.LegacyEvents
