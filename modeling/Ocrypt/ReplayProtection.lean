import Ocrypt.Authentication
import Ocrypt.Table
import Ocrypt.Transactions

/-! Replays of signed requests. A nonce is kept for the tolerance from the moment of its use, while
a timestamp is accepted for the tolerance on both sides of itself: a request from the future
outlives its nonce. -/
namespace Ocrypt.ReplayProtection
open Fallible Table Requests Authentication Transactions List

inductive Verifier
  | merchant (a : Authenticator)
  | proxy (a : ProxyAuthenticator)

structure Signed where
  (keyID timestampText nonce signature : String)
  deriving DecidableEq, Repr

namespace Verifier

def window : Verifier → ℤ
  | .merchant a => a.window
  | .proxy a => a.window

def signed (v : Verifier) (r : Request) : Signed :=
  match v with
  | .merchant _ => ⟨r.header.get "Merchant-Key-Id",r.header.get "Merchant-Timestamp",
      r.header.get "Merchant-Nonce",r.header.get "Merchant-Signature"⟩
  | .proxy a => ⟨a.nonceKey,r.header.get "Financial-Timestamp",r.header.get "Financial-Nonce",
      r.header.get "Financial-Signature"⟩

def authenticate (env : Environment) (v : Verifier) (now clock : ℤ) (r : Request) (body : Bytes)
    (nonces : NonceStore) : Bool × NonceStore :=
  match v with
  | .merchant a => (a.authenticate env now clock r body nonces).map Except.isOk id
  | .proxy a => (a.authenticate env now clock r body nonces).map Except.isOk id

end Verifier

/-- The clock, the nonces and the calls accepted so far, the last one first. -/
structure Gate where
  clock : ℤ
  nonces : NonceStore
  accepted : List Signed := []

/-- A call carries the reading of the clock that it took when it began. -/
inductive GateAction
  | tick (duration : ℕ)
  | authenticate (now : ℤ) (request : Request) (body : Bytes)
  | deleteExpiredNonces (limit : ℕ)

def exec (env : Environment) (v : Verifier) (g : Gate) : GateAction → Except String Gate
  | .tick duration => .ok { g with clock := g.clock+duration }
  | .authenticate now request body => do
    require (now ≤ g.clock) "the call has not begun"
    let (accepted,nonces) := v.authenticate env now g.clock request body g.nonces
    pure { g with
      nonces := nonces
      accepted := if accepted then v.signed request::g.accepted else g.accepted }
  | .deleteExpiredNonces limit =>
    match g.nonces with
    | .memory _ => .ok g
    | .database rows => do
      let rows ← deleteExpiredNonces rows g.clock limit
      pure { g with nonces := .database rows }

def Holds (store : NonceStore) (keyID nonce : String) (expiresAt : ℤ) : Prop :=
  match store with
  | .memory values => (memoryKey keyID nonce,expiresAt) ∈ values
  | .database rows => ⟨keyID,nonce,expiresAt⟩ ∈ rows

def Keyed : NonceStore → Prop
  | .memory _ => True
  | .database rows => (rows.map fun r => (r.keyID,r.nonce)).Nodup

def Keeps (clock : ℤ) (store store' : NonceStore) : Prop :=
  ∀ keyID nonce expiresAt, Holds store keyID nonce expiresAt → clock ≤ expiresAt →
    Holds store' keyID nonce expiresAt

variable {clock : ℤ} {consumed : Bool}

section
variable {store store' : NonceStore} {expiresAt : ℤ} {keyID nonce : String}

/-- A nonce is consumed only when the store does not hold it any more, and is held from then on. -/
theorem consume_spec (h : store.consume clock keyID nonce expiresAt = (consumed,store')) :
    Keeps clock store store' ∧ (consumed = true →
      Holds store' keyID nonce expiresAt ∧ ∀ e, Holds store keyID nonce e → e < clock) := by
  cases store with
  | memory values =>
    simp only [NonceStore.consume,consumeMemory] at h
    split_ifs at h with hkn
    · cases h
      refine ⟨fun k n e he hl => ?_,fun hco => by cases hco⟩
      simp only [Holds,mem_filter] at he ⊢
      exact ⟨he,by simpa using hl⟩
    · cases h
      refine ⟨fun k n e he hl => ?_,fun _ => ⟨?_,fun e he => ?_⟩⟩
      · simp only [Holds,mem_append,mem_filter] at he ⊢
        exact .inl ⟨he,by simpa using hl⟩
      · simp [Holds]
      · by_contra hl
        refine hkn ⟨_,mem_filter.mpr ⟨he,?_⟩,rfl⟩
        simpa using hl
  | database rows =>
    simp only [NonceStore.consume,consumeRow] at h
    split_ifs at h with hkn
    · cases h
      exact ⟨fun k n e he _ => he,fun hco => by cases hco⟩
    · cases h
      refine ⟨fun k n e he _ => mem_append_left _ he,fun _ => ⟨?_,fun e he => ?_⟩⟩
      · simp [Holds]
      · exact absurd ⟨_,he,rfl,rfl⟩ hkn

lemma consume_keyed (hk : Keyed store)
    (h : store.consume clock keyID nonce expiresAt = (consumed,store')) : Keyed store' := by
  cases store with
  | memory values =>
    obtain ⟨-,rfl⟩ := Prod.mk.inj h
    trivial
  | database rows =>
    simp only [NonceStore.consume,consumeRow] at h
    split_ifs at h with hkn
    · obtain ⟨-,rfl⟩ := Prod.mk.inj h
      exact hk
    · obtain ⟨-,rfl⟩ := Prod.mk.inj h
      refine nodup_map_append hk fun r hr hke => hkn ⟨r,hr,?_⟩
      exact Prod.mk.inj hke

/-- The clean-up removes no nonce that is still in force. -/
theorem deleteExpiredNonces_keeps {rows rows' : List NonceRow} {limit : ℕ}
    (hke : (rows.map fun r => (r.keyID,r.nonce)).Nodup)
    (h : deleteExpiredNonces rows clock limit = .ok rows') :
    Keeps clock (.database rows) (.database rows') := by
  simp only [deleteExpiredNonces,do_ok] at h
  obtain ⟨-,rfl⟩ := h
  intro k n e he hl
  refine mem_filter.mpr ⟨he,?_⟩
  simp only [decide_eq_true_eq]
  rintro ⟨r,hr,hk,hn⟩
  have hep := mem_filter.mp ((mergeSort_perm _ _).mem_iff.mp (mem_of_mem_take hr))
  have ho := inj_on_of_nodup_map hke hep.1 he (by simp [hk,hn])
  have hp : r.expiresAt < clock := by simpa using hep.2
  rw [ho] at hp
  simp only at hp
  omega

end

variable {r : Request}

lemma assertionHeader_eq_ok {name value : String}
    (h : assertionHeader r name = .ok value) : r.header.get name = value := by
  unfold assertionHeader at h
  split at h
  · rename_i v hv
    cases h
    simp [Header.get,hv]
  · cases h

lemma isOk_ite {α : Type} {a : α} {e : String} :
    (if consumed then .ok a else .error e : Except String α).isOk = consumed := by
  cases consumed <;> rfl

variable {env : Environment} {v : Verifier} {now : ℤ} {body : Bytes} {nonces : NonceStore}

section
variable {nonces' : NonceStore} {accepted : Bool}

/-- A request is only accepted by consuming its nonce. -/
theorem authenticate_consumes
    (h : v.authenticate env now clock r body nonces = (accepted,nonces')) :
    (accepted = false ∧ nonces' = nonces) ∨ ((parseInt64 (v.signed r).timestampText).isSome ∧
        nonces.consume clock (v.signed r).keyID (v.signed r).nonce (now+v.window) =
          (accepted,nonces')) := by
  cases v with
  | merchant a =>
    simp only [Verifier.authenticate,Authenticator.authenticate] at h
    split at h
    · cases h
      exact .inl ⟨rfl,rfl⟩
    · rename_i credential hch
      simp only [Authenticator.check,do_ok,orFail_eq_ok] at hch
      obtain ⟨-,-,seconds,hse,-⟩ := hch
      refine .inr ⟨Option.isSome_iff_exists.mpr ⟨seconds,hse⟩,?_⟩
      cases h
      exact Prod.ext isOk_ite.symm rfl
  | proxy a =>
    simp only [Verifier.authenticate,ProxyAuthenticator.authenticate] at h
    split at h
    · cases h
      exact .inl ⟨rfl,rfl⟩
    · rename_i principal hch
      simp only [ProxyAuthenticator.check,do_ok,orFail_eq_ok]
        at hch
      obtain ⟨-,-,-,-,-,-,-,-,-,timestampText,hti,-,-,-,-,-,seconds,hse,-⟩ := hch
      rw [← assertionHeader_eq_ok hti] at hse
      refine .inr ⟨Option.isSome_iff_exists.mpr ⟨seconds,hse⟩,?_⟩
      cases h
      exact Prod.ext isOk_ite.symm rfl

end

/-- An accepted call is timely when its timestamp is not in the future as it begins, and still in
the window as its nonce is consumed. -/
def Timely (env : Environment) (v : Verifier) (g : Gate) : GateAction → Prop
  | .authenticate now request body =>
      (v.authenticate env now g.clock request body g.nonces).1 = true →
        ∀ seconds ∈ parseInt64 (v.signed request).timestampText,
          unixTime seconds ≤ now ∧ g.clock ≤ unixTime seconds+v.window
  | _ => True

/-- As long as a timestamp can be accepted, the nonce that came with it is held. -/
structure Guarded (v : Verifier) (g : Gate) : Prop where
  keyed : Keyed g.nonces
  held : ∀ s ∈ g.accepted, ∃ seconds, parseInt64 s.timestampText = some seconds ∧
    (g.clock ≤ unixTime seconds+v.window →
      ∃ e, Holds g.nonces s.keyID s.nonce e ∧ unixTime seconds+v.window ≤ e)
  once : g.accepted.Nodup

section
variable {g g' : Gate}

lemma Guarded.held_of_keeps (h : Guarded v g)
    (hk : Keeps g.clock g.nonces nonces) {s : Signed} (hs : s ∈ g.accepted) :
    ∃ seconds, parseInt64 s.timestampText = some seconds ∧ (g.clock ≤ unixTime seconds+v.window →
        ∃ e, Holds nonces s.keyID s.nonce e ∧ unixTime seconds+v.window ≤ e) := by
  obtain ⟨seconds,hse,hhe⟩ := h.held s hs
  refine ⟨seconds,hse,fun ho => ?_⟩
  obtain ⟨e,he,hl⟩ := hhe ho
  exact ⟨e,hk _ _ _ he (by omega),hl⟩

lemma Guarded.authenticate (h : Guarded v g) (hti : Timely env v g (.authenticate now r body))
    (hee : exec env v g (.authenticate now r body) = .ok g') : Guarded v g' := by
  simp only [exec,do_ok] at hee
  obtain ⟨-,rfl⟩ := hee
  rcases hca : v.authenticate env now g.clock r body g.nonces with ⟨accepted,nonces⟩
  rcases authenticate_consumes hca with ⟨rfl,rfl⟩ | ⟨hp,hco⟩
  · exact ⟨h.keyed,h.held,h.once⟩
  obtain ⟨hk,hcn⟩ := consume_spec hco
  have hke := consume_keyed h.keyed hco
  cases accepted with
  | false => exact ⟨hke,fun s hs => h.held_of_keeps hk hs,h.once⟩
  | true =>
    obtain ⟨hn,hep⟩ := hcn rfl
    obtain ⟨seconds,hse⟩ := Option.isSome_iff_exists.mp hp
    obtain ⟨hpa,ho⟩ := hti (by rw [hca]) seconds hse
    refine ⟨hke,fun s hs => ?_,nodup_cons.mpr ⟨fun hs => ?_,h.once⟩⟩
    · rcases mem_cons.mp hs with rfl | hs
      · exact ⟨seconds,hse,fun _ => ⟨_,hn,by omega⟩⟩
      · exact h.held_of_keeps hk hs
    · -- A second acceptance finds the nonce of the first one gone, although it is still held.
      obtain ⟨seconds',hse',hhe⟩ := h.held _ hs
      rw [hse] at hse'
      cases hse'
      obtain ⟨e,he,hl⟩ := hhe ho
      have hgo := hep e he
      omega

/-- One action keeps the nonce of an accepted request held while its timestamp counts. -/
lemma Guarded.step {a : GateAction} (h : Guarded v g) (hti : Timely env v g a)
    (he : exec env v g a = .ok g') : Guarded v g' := by
  cases a with
  | tick duration =>
    cases he
    refine ⟨h.keyed,fun s hs => ?_,h.once⟩
    obtain ⟨seconds,hse,hhe⟩ := h.held s hs
    exact ⟨seconds,hse,fun ho => hhe (by simp only at ho; omega)⟩
  | authenticate now r body => exact h.authenticate hti he
  | deleteExpiredNonces limit =>
    simp only [exec] at he
    split at he
    · cases he
      exact h
    · rename_i rows hro
      simp only [do_ok] at he
      obtain ⟨rows',hd,rfl⟩ := he
      have hk := h.keyed
      rw [hro] at hk
      have hke := deleteExpiredNonces_keeps hk hd
      rw [← hro] at hke
      refine ⟨?_,fun s hs => h.held_of_keeps hke hs,h.once⟩
      simp only [deleteExpiredNonces,do_ok] at hd
      obtain ⟨-,rfl⟩ := hd
      exact (List.Sublist.map _ filter_sublist).nodup hk

end

/-- In a run of timely calls and clean-ups no signed request is accepted twice. -/
theorem accepted_at_most_once (env : Environment) (v : Verifier) (g : Gate) (as : List GateAction)
    (hkeyed : Keyed g.nonces) (hstart : g.accepted = [])
    (htimely : Along (exec env v) (Timely env v) g as) : (run (exec env v) g as).accepted.Nodup := by
  have hgu : Guarded v g := ⟨hkeyed,by simp [hstart],by simp [hstart]⟩
  have hen := run_invariant (P := Guarded v) (fun _ _ _ h hc he => h.step hc he) hgu
    htimely
  exact hen.once

def sampleEnvironment : Environment where
  crypto := ⟨fun _ => [],fun _ _ => []⟩
  base64Std _ := "digest"
  base64RawURLDecode _ := some []
  encodeQuery := id
  parseRFC3339Nano _ := none
  formatRFC3339Nano _ := ""

def sampleMerchant : Verifier :=
  .merchant ⟨fun _ => some ⟨[],⟨"tenant","merchant","actor","key",[]⟩,0⟩,300*second⟩

def sampleRequest : Request where
  method := "POST"
  escapedPath := "/v1/intents"
  rawQuery := ""
  header
    | "Merchant-Key-Id" => ["key"]
    | "Merchant-Timestamp" => ["1000"]
    | "Merchant-Nonce" => ["0123456789abcdef"]
    | "Merchant-Signature" => ["signature"]
    | "Content-Digest" => ["sha-256=:digest:"]
    | _ => []

def sampleReplay (start : ℤ) (pause : ℕ) : List GateAction :=
  [.authenticate start sampleRequest [],.tick pause,.deleteExpiredNonces 100,
    .authenticate (start+pause) sampleRequest []]

instance (env : Environment) (v : Verifier) (g : Gate) (a : GateAction) :
    Decidable (Timely env v g a) :=
  match a with
  | .authenticate .. => inferInstanceAs (Decidable (_ → ∀ seconds ∈ _, _ ∧ _))
  | .tick _ | .deleteExpiredNonces _ => inferInstanceAs (Decidable True)

theorem accepted_at_most_once_sample :
    (run (exec sampleEnvironment sampleMerchant) ⟨1000*second,.database [],[]⟩
      (sampleReplay (1000*second) 300000000000)).accepted = [sampleMerchant.signed sampleRequest] ∧
    (run (exec sampleEnvironment sampleMerchant) ⟨1000*second,.database [],[]⟩
      (sampleReplay (1000*second) 300000000000)).accepted.Nodup := by
  refine ⟨by decide +kernel,accepted_at_most_once _ _ _ _ ?_ rfl (by decide +kernel)⟩
  exact nodup_nil

/-- A request from the future is accepted again after its timestamp, by either store. -/
theorem accepted_twice : ¬(run (exec sampleEnvironment sampleMerchant) ⟨700*second,.memory [],[]⟩
      (sampleReplay (700*second) 301000000000)).accepted.Nodup ∧
    ¬(run (exec sampleEnvironment sampleMerchant) ⟨700*second,.database [],[]⟩
      (sampleReplay (700*second) 301000000000)).accepted.Nodup := by
  decide +kernel

end Ocrypt.ReplayProtection
