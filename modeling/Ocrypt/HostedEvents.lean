import Ocrypt.HostedEffects
import Ocrypt.Workers

/-! Which paid events of a hosted provider are accounted for: settled, known, quarantined or raised
as an incident. An event that counts as out of order, that finds its route closed or that finds the
intent in a status from which nothing settles is stored, and nothing else happens. -/
namespace Ocrypt.HostedEvents
open Fallible Table Store HostedSettlement Workers

abbrev Accounted (db : Database) (result : HostedSettlementResult) : Prop :=
  result.settled = true ∨ result.duplicate = true ∨ result.quarantined = true ∨
    ∃ i ∈ db.reconciliationIncidents, i.providerInboxID = result.providerInboxID

/-- The states that account for a paid event: it is not bound yet, it is stored already, something
is wrong with its provider or its order, or it comes in order for a route and an intent that are
open. -/
def Accountable (db : Database) (p : VerifiedProviderPayment) : Prop :=
  ∀ c ∈ loadHostedSettlementCandidate db p,
    (∃ e ∈ db.providerInbox, e.providerID = p.providerID ∧ e.providerEventID = p.providerEventID) ∨
      p.providerPaused = true ∨ economicDrift c = true ∨ c.order.status = .refunded ∨
      (providerEventIsOutOfOrder c p = false ∧ ¬alreadyClosed c ∧
        c.intent.status ∈ hostedOpenStatuses)

section
variable {ext : Externals} {db db' : Database} {c : HostedSettlementCandidate}
  {p : VerifiedProviderPayment} {ids : HostedIDs} {result : HostedSettlementResult}

lemma recordProviderReconciliationIncident_recorded (db : Database)
    (c : HostedSettlementCandidate) (inboxID : String) (kind : IncidentKind) :
    ∃ i ∈ (recordProviderReconciliationIncident db c inboxID kind).reconciliationIncidents,
      i.providerInboxID = inboxID := by
  unfold recordProviderReconciliationIncident
  split
  · assumption
  · exact ⟨_,List.mem_concat_self,rfl⟩

/-- When a paid event that fits its order is settled or leaves a note. -/
theorem processEvent_accounted (hpa : p.status = .paid) (hm : matchesOrder c p)
    (hn : ∀ i ∈ db.reconciliationIncidents, i.providerInboxID ≠ ids.inbox)
    (h : processEvent ext db c p ids = .ok (db',result)) :
    Accounted db' result ↔ p.providerPaused = true ∨ economicDrift c = true ∨
      c.order.status = .refunded ∨ (providerEventIsOutOfOrder c p = false ∧ ¬alreadyClosed c ∧
        c.intent.status ∈ hostedOpenStatuses) := by
  unfold processEvent at h
  split at h
  · rename_i hpu
    cases h
    exact iff_of_true (.inr (.inr (.inl rfl))) (.inl hpu)
  rename_i hru
  split at h
  · rename_i hdr
    cases h
    exact iff_of_true (.inr (.inr (.inr (recordProviderReconciliationIncident_recorded _ _ _ _))))
      (.inr (.inl hdr))
  rename_i hf
  by_cases hr : c.order.status = .refunded
  · have hde : providerIncidentDecision c p = (some .paidAfterRefund,true) :=
      if_pos ⟨hr,hpa⟩
    rw [hde] at h
    cases h
    exact iff_of_true (.inr (.inr (.inr (recordProviderReconciliationIncident_recorded _ _ _ _))))
      (.inr (.inr (.inl hr)))
  have hde : providerIncidentDecision c p = (none,false) := by
    simp [providerIncidentDecision,hr,hpa]
  rw [hde] at h
  simp only [hpa] at h
  rw [or_iff_right hru,or_iff_right hf,or_iff_right hr]
  -- What is left to happen leaves the incidents alone.
  split at h
  · rename_i hl
    cases h
    simpa [hl] using hn
  · rename_i ho
    rw [if_neg (by simp),if_neg (by simp)] at h
    split at h
    · rename_i hcl
      cases h
      simpa [hcl,supersedeOrder,advanceOrder] using hn
    rename_i hac
    split at h
    · rename_i hst
      cases h
      simpa [hst,advanceOrder] using hn
    · rename_i hst
      obtain ⟨d,-,hre⟩ := map_eq_ok.mp h
      cases hre
      exact iff_of_true (.inl rfl) ⟨by simpa using ho,hac,not_not.mp hst⟩

lemma ingestProviderPrebindEvidence_quarantined {id : String}
    (h : ingestProviderPrebindEvidence db p id = .ok (db',result)) : result.quarantined = true := by
  unfold ingestProviderPrebindEvidence at h
  split at h
  · simp only [do_ok] at h
    obtain ⟨-,-,rfl⟩ := h
    rfl
  · simp only [do_ok] at h
    obtain ⟨rows,-,-,rfl⟩ := h
    rfl

lemma ingestEvent_accounted
    (hf : ∀ i ∈ db.reconciliationIncidents, ∃ e ∈ db.providerInbox, e.id = i.providerInboxID)
    (hpa : p.status = .paid) (hm : ∀ c ∈ loadHostedSettlementCandidate db p, matchesOrder c p)
    (h : ingestEvent ext db p ids = .ok (db',result)) :
    Accounted db' result ↔ Accountable db p := by
  unfold ingestEvent at h
  unfold Accountable
  split at h
  · rename_i hl
    rw [hl]
    exact iff_of_true (.inr (.inr (.inl (ingestProviderPrebindEvidence_quarantined h)))) (by simp)
  · rename_i c hl
    rw [hl] at hm ⊢
    simp only [Option.mem_def,Option.some.injEq,forall_eq'] at hm ⊢
    simp only [ingestBound,do_ok] at h
    obtain ⟨-,h⟩ := h
    split at h
    · rename_i stored hst
      simp only [do_ok] at h
      obtain ⟨-,-,rfl⟩ := h
      obtain ⟨hme,hsame⟩ := mem_of_find? hst
      exact iff_of_true (.inr (.inl rfl)) (.inl ⟨stored,hme,hsame⟩)
    · rename_i hn
      simp only [do_ok,insertUnique_eq_ok] at h
      obtain ⟨rows,⟨hfr,rfl⟩,h⟩ := h
      have hu : ¬∃ e ∈ db.providerInbox, e.providerID = p.providerID ∧
          e.providerEventID = p.providerEventID := by
        simpa using hn
      rw [or_iff_right hu]
      refine processEvent_accounted hpa hm (fun i hi hid => ?_) h
      obtain ⟨e,he,hei⟩ := hf i hi
      exact hfr e he (hei.trans hid)

end

/-- A committed ingest of a paid event that matches its order accounts for it exactly in these
states. -/
theorem paid_event_accounted_iff (ext : Externals) (db db' : Database) (p : VerifiedProviderPayment)
    (prebind : Option PrebindClaim) (clock : ℤ) (ids : HostedIDs) (result : HostedSettlementResult)
    (hforeign : ∀ i ∈ db.reconciliationIncidents, ∃ e ∈ db.providerInbox, e.id = i.providerInboxID)
    (hpaid : p.status = .paid) (hmatch : ∀ c ∈ loadHostedSettlementCandidate db p, matchesOrder c p)
    (hexec : ingestVerifiedProviderPayment ext db p prebind clock ids = .ok (db',result)) :
    Accounted db' result ↔ Accountable db p := by
  simp only [ingestVerifiedProviderPayment,do_eq_ok,exists_require] at hexec
  obtain ⟨-,hexec⟩ := hexec
  split at hexec
  · exact ingestEvent_accounted hforeign hpaid hmatch hexec
  · simp only [do_eq_ok,exists_require] at hexec
    obtain ⟨-,⟨mid,result'⟩,hev,-,rows,-,hr⟩ := hexec
    cases hr
    have hac := ingestEvent_accounted hforeign hpaid hmatch hev
    exact hac

def sampleOrdered : Database :=
  { sampleStart.db with
    providerOrders := [⟨"order","tenant","merchant","route","provider","reference",.authorized,
      "usdt",100,6,some 50,"event-b"⟩] }

def samplePaidEvent (eventID : String) (occurredAt : ℤ) : VerifiedProviderPayment where
  tenantID := "tenant"
  merchantID := "merchant"
  providerID := "provider"
  providerReference := "reference"
  providerEventID := eventID
  status := .paid
  assetID := "usdt"
  amount := 100
  assetDecimals := 6
  occurredAt := occurredAt
  rawDigest := "digest"
  signatureDigest := "signature"
  configManifestID := "manifest"
  configVersion := 1
  providerPaused := false

def sampleHostedIDs : HostedIDs := ⟨"inbox","prebind","settlement","match","webhook"⟩

theorem paid_event_accounted_sample :
    ∃ r, ingestVerifiedProviderPayment sampleExternals sampleOrdered (samplePaidEvent "event-c" 51)
        none 60 sampleHostedIDs = .ok r ∧ Accounted r.1 r.2 := by
  have hco : ∃ r, ingestVerifiedProviderPayment sampleExternals sampleOrdered
      (samplePaidEvent "event-c" 51) none 60 sampleHostedIDs = .ok r ∧ r.2.settled = true := by
    decide +kernel
  obtain ⟨r,he,-⟩ := hco
  refine ⟨r,he,(paid_event_accounted_iff _ _ _ _ _ _ _ _ (by decide) rfl (by decide +kernel)
    he).mpr ?_⟩
  unfold Accountable
  decide +kernel

/-- An event of the same time with a smaller identifier is dropped as out of order. -/
theorem paid_event_dropped :
    ∃ r, ingestVerifiedProviderPayment sampleExternals sampleOrdered (samplePaidEvent "event-a" 50)
        none 60 sampleHostedIDs = .ok r ∧ ¬Accounted r.1 r.2 := by
  decide +kernel

end Ocrypt.HostedEvents
