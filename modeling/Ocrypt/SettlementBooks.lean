import Ocrypt.Bookkeeping
import Ocrypt.KeyedSums
import Ocrypt.MatchingEffects

/-! The books of the settlement core: the facts of the stored transfers, the matches and aggregates
that claim them, and the ledger. They are balanced when, for every tenant, correlation and asset,
the ledger holds what the finalized matches received; every write of a settlement transaction keeps
them so. -/
namespace Ocrypt.SettlementBooks
open Matching Table KeyedSums Store Reorg MatchingStore IngestEffects ReorgEffects MatchingEffects
  Bookkeeping List

structure Books where
  transfers : List TransferFacts
  intents : List (String × String)
  paymentMatches : List PaymentMatch
  aggregates : List MatchAggregate
  ledger : List LedgerTransaction

def booksOf (db : Database) : Books :=
  ⟨db.transferEvents.map factsOf,db.intents.map (·.key),db.paymentMatches,db.aggregates,db.ledger⟩

variable (b : Books) (m : PaymentMatch)

def correlationOf : Correlation :=
  match m.source with
  | .transfer eventID => matchCorrelation m.aggregateID eventID
  | .provider inboxID => .provider inboxID

def matchKey : String × Correlation := (m.tenantID,correlationOf m)

lemma matchKey_transfer {m : PaymentMatch} {eventID : String} (hso : m.source = .transfer eventID) :
    matchKey m = (m.tenantID,matchCorrelation m.aggregateID eventID) := by
  simp [matchKey,correlationOf,hso]

def ledgerKey (tx : LedgerTransaction) : String × Correlation := (tx.tenantID,tx.correlation)

abbrev CountsIn (transfers : List TransferFacts) (asset : String) (m : PaymentMatch) : Prop :=
  m.state = .finalized ∧ m.role = .payment ∧
    ∃ t ∈ transfers, m.source = .transfer t.id ∧ t.identity.assetID = asset

def counts (transfers : List TransferFacts) (asset : String) (m : PaymentMatch) : ℤ :=
  if CountsIn transfers asset m then m.received.n else 0

/-- A match takes a stored transfer in full for a stored intent; in an aggregate it has the role
of its transfer, and it is final only when the aggregate is settled. -/
structure Linked (t : TransferFacts) : Prop where
  stored : t ∈ b.transfers
  source : m.source = .transfer t.id
  received : m.received = t.amount
  intent : (m.intentID,m.tenantID) ∈ b.intents
  joint : ∀ a, m.aggregateID = some a → (m.role = .gasfreeFee ↔ t.kind = "gasfree_fee") ∧
    ∃ g ∈ b.aggregates, g.id = a ∧ g.tenantID = m.tenantID ∧
      (m.state = .finalized → g.state = .settled)

/-- A payment has at most one match that is not reversed. -/
abbrev OneActive (rows : List PaymentMatch) : Prop :=
  ∀ source, rows.countP (fun m => m.source = source ∧ m.state ≠ .reversed) ≤ 1

structure Sound : Prop where
  transferIDs : (b.transfers.map (·.id)).Nodup
  intentKeys : b.intents.Nodup
  matchIDs : (b.paymentMatches.map (·.id)).Nodup
  aggregateIDs : (b.aggregates.map (·.id)).Nodup
  oneActive : OneActive b.paymentMatches
  oneLive : ∀ g ∈ b.aggregates, ∀ g' ∈ b.aggregates, g.tenantID = g'.tenantID →
    g.routeID = g'.routeID → g.state ≠ .reversed → g'.state ≠ .reversed → g = g'
  linked : ∀ m ∈ b.paymentMatches, ∃ t, Linked b m t

/-- Every transaction is booked for something: an aggregate that was settled, and a reversal for
a settlement of the same tenant and correlation. -/
structure Grounds : Prop where
  aggregated : ∀ tx ∈ b.ledger, ∀ a, tx.correlation = .aggregate a →
    ∃ g ∈ b.aggregates, g.id = a ∧ (g.state = .settled ∨ g.state = .reversed)
  referenced : ∀ tx ∈ b.ledger, tx.businessType = .paymentSettlement → ∀ g ∈ b.aggregates,
    tx.businessReference = g.id → tx.correlation = .aggregate g.id
  reversed : ∀ tx ∈ b.ledger, tx.businessType = .paymentSettlementReversal →
    ∃ o ∈ b.ledger, o.businessType = .paymentSettlement ∧ ledgerKey o = ledgerKey tx ∧
      tx.businessReference = "reorg:" ++ o.id

def Agree : Prop :=
  ∀ asset k, sumAt ledgerKey (booked asset) b.ledger k =
    sumAt matchKey (counts b.transfers asset) b.paymentMatches k

structure Balanced : Prop where
  sound : Sound b
  grounds : Grounds b
  agree : Agree b

section
variable {b : Books} {t : TransferFacts} {m : PaymentMatch}

lemma countsIn_iff {transfers : List TransferFacts} (hi : (transfers.map (·.id)).Nodup)
    (ht : t ∈ transfers) (hso : m.source = .transfer t.id) (asset : String) :
    CountsIn transfers asset m ↔
      m.state = .finalized ∧ m.role = .payment ∧ t.identity.assetID = asset := by
  refine and_congr_right fun _ => and_congr_right fun _ => ⟨?_,fun has => ?_⟩
  · rintro ⟨t',ht',hso',has⟩
    have hid : t'.id = t.id := MatchSource.transfer.inj (hso'.symm.trans hso)
    rwa [inj_on_of_nodup_map hi ht' ht hid] at has
  · exact ⟨t,ht,hso,has⟩

lemma counts_reverseMatch (transfers : List TransferFacts) (asset : String) (m : PaymentMatch) :
    counts transfers asset (reverseMatch m) = 0 :=
  if_neg fun hco => by cases hco.1

lemma Balanced.record (h : Balanced b) (hn : ∀ s ∈ b.transfers, s.id ≠ t.id) :
    Balanced { b with transfers := b.transfers ++ [t] } := by
  have hi := nodup_map_append h.sound.transferIDs hn
  have hli : ∀ {m s}, Linked b m s → Linked { b with transfers := b.transfers ++ [t] } m s :=
    fun hl => ⟨mem_append_left _ hl.stored,hl.source,hl.received,hl.intent, hl.joint⟩
  refine ⟨⟨hi,h.sound.intentKeys,h.sound.matchIDs,h.sound.aggregateIDs,h.sound.oneActive,
    h.sound.oneLive,fun m hm => ?_⟩,⟨h.grounds.aggregated,h.grounds.referenced,
    h.grounds.reversed⟩,fun asset k => ?_⟩
  · obtain ⟨s,hl⟩ := h.sound.linked m hm
    exact ⟨s,hli hl⟩
  · rw [h.agree asset k]
    refine sumAt_congr fun m hm _ => ?_
    obtain ⟨s,hl⟩ := h.sound.linked m hm
    unfold counts
    simp [countsIn_iff h.sound.transferIDs hl.stored hl.source,countsIn_iff hi (hli hl).stored hl.source]

end

section
variable {b : Books} {t : TransferFacts} {m : PaymentMatch} {tx : LedgerTransaction}
  {rows : List PaymentMatch}

lemma oneActive_append (h : OneActive rows)
    (hu : ∀ p ∈ rows, p.source = m.source → p.state = .reversed) : OneActive (rows ++ [m]) := by
  intro source
  rw [countP_append,countP_singleton]
  split_ifs with hm
  · obtain ⟨rfl,-⟩ := of_decide_eq_true hm
    rw [countP_eq_zero.mpr]
    intro p hp hac
    obtain ⟨hso,hac⟩ := of_decide_eq_true hac
    exact hac (hu p hp hso)
  · exact h source

/-- Rewriting live matches under their own sources keeps one live match a source. -/
theorem oneActive_update {p : PaymentMatch → Prop} [DecidablePred p]
    {f : PaymentMatch → PaymentMatch} (ho : OneActive rows)
    (hf : ∀ m, p m → (f m).source = m.source ∧ m.state ≠ .reversed) :
    OneActive (update p f rows) := by
  intro source
  refine le_trans (countP_update_le fun m _ hm hco => ?_) (ho source)
  obtain ⟨hsame,hac⟩ := hf m hm
  exact ⟨hsame.symm.trans hco.1,hac⟩

lemma oneActive_persisted {r : AutomatedMatchingRoute} {aggregateID : String}
    {d : AutomatedMatchDecision} {state : MatchState} {ids : ReconcileIDs} {a : MatchAllocation}
    {rows rows' : List PaymentMatch} (h : Persisted r aggregateID d state ids a rows rows')
    (ho : OneActive rows) : OneActive rows' := by
  cases h with
  | inserted hu => exact oneActive_append ho fun p hp => (hu p hp).2
  | upgraded => exact oneActive_update ho fun p hp => ⟨rfl,hp.2⟩

lemma Linked.rebooked {ledger : List LedgerTransaction} (h : Linked b m t) :
    Linked { b with paymentMatches := rows, ledger := ledger } m t :=
  ⟨h.stored,h.source,h.received,h.intent,h.joint⟩

/-- An exact match and its settlement keep the books balanced. -/
theorem Balanced.settleOne (h : Balanced b) (hl : Linked b m t) (hal : m.aggregateID = none)
    (hf : m.state = .finalized) (hro : m.role = .payment)
    (hu : ∀ p ∈ b.paymentMatches, p.id ≠ m.id ∧ (p.source = .transfer t.id → p.state = .reversed))
    (hty : tx.businessType = .paymentSettlement) (hky : ledgerKey tx = (m.tenantID,.transfer t.id))
    (hbo : ∀ asset, booked asset tx = if t.identity.assetID = asset then (t.amount.n : ℤ) else 0)
    (hr : ∀ g ∈ b.aggregates, g.id ≠ tx.businessReference) : Balanced { b with
      paymentMatches := b.paymentMatches ++ [m]
      ledger := b.ledger ++ [tx] } := by
  have hco : tx.correlation = .transfer t.id := congrArg Prod.snd hky
  have hke : matchKey m = ledgerKey tx := by
    simp [matchKey_transfer hl.source,hal,matchCorrelation,hky]
  refine ⟨⟨h.sound.transferIDs,h.sound.intentKeys,?_,h.sound.aggregateIDs,?_,h.sound.oneLive,
    ?_⟩,⟨?_,?_,?_⟩,fun asset k => ?_⟩
  · exact nodup_map_append h.sound.matchIDs fun p hp => (hu p hp).1
  · exact oneActive_append h.sound.oneActive
      fun p hp hso => (hu p hp).2 (hso.trans hl.source)
  · exact forall_snoc (fun p hp => (h.sound.linked p hp).imp fun _ => .rebooked) ⟨t,hl.rebooked⟩
  · refine forall_snoc h.grounds.aggregated fun a ha => ?_
    rw [hco] at ha
    cases ha
  · exact forall_snoc h.grounds.referenced fun _ g hg hrf => absurd hrf.symm (hr g hg)
  · refine forall_snoc (fun p hp hpt => ?_) fun hpt => ?_
    · obtain ⟨o,ho,hre⟩ := h.grounds.reversed p hp hpt
      exact ⟨o,mem_append_left _ ho,hre⟩
    · rw [hty] at hpt
      cases hpt
  · show sumAt ledgerKey (booked asset) (b.ledger ++ [tx]) k =
      sumAt matchKey (counts b.transfers asset) (b.paymentMatches ++ [m]) k
    rw [sumAt_append,sumAt_append,sumAt_singleton,sumAt_singleton,h.agree asset k,hke,hbo]
    have hcu : counts b.transfers asset m =
        if t.identity.assetID = asset then (t.amount.n : ℤ) else 0 := by
      unfold counts
      simp [countsIn_iff h.sound.transferIDs hl.stored hl.source,hf,hro,hl.received]
    rw [hcu]

end

section
variable {b : Books} {r : AutomatedMatchingRoute} {d : AutomatedMatchDecision}
  {newID aggregateID : String} {rows : List MatchAggregate}

structure Unsettled (b : Books) (aggregateID : String) : Prop where
  ledger : ∀ tx ∈ b.ledger, tx.correlation ≠ .aggregate aggregateID
  references : ∀ tx ∈ b.ledger, tx.businessType = .paymentSettlement →
    tx.businessReference ≠ aggregateID
  paymentMatches : ∀ m ∈ b.paymentMatches, m.aggregateID = some aggregateID → m.state ≠ .finalized

lemma Balanced.unsettled (h : Balanced b) {g : MatchAggregate} (hg : g ∈ b.aggregates)
    (ho : g.state ≠ .settled) (hli : g.state ≠ .reversed) : Unsettled b g.id := by
  have hl : ∀ tx ∈ b.ledger, tx.correlation ≠ .aggregate g.id := by
    intro tx htx hco
    obtain ⟨g',hg',hid,hst⟩ := h.grounds.aggregated tx htx g.id hco
    rw [inj_on_of_nodup_map h.sound.aggregateIDs hg' hg hid] at hst
    rcases hst with hse | hr
    · exact ho hse
    · exact hli hr
  refine ⟨hl,fun tx htx hty hre => ?_,fun m hm ha hf => ?_⟩
  · exact hl tx htx (h.grounds.referenced tx htx hty g hg hre)
  · obtain ⟨t,hln⟩ := h.sound.linked m hm
    obtain ⟨-,g',hg',hid,-,hse⟩ := hln.joint g.id ha
    rw [inj_on_of_nodup_map h.sound.aggregateIDs hg' hg hid] at hse
    exact ho (hse hf)

lemma upserted_stored {stored : List MatchAggregate}
    (h : Upserted r d newID stored aggregateID rows) :
    ∃ g ∈ rows, g.id = aggregateID ∧ g.routeID = r.route.id ∧ g.tenantID = r.route.tenantID ∧
      g.state = aggregateState d.outcome := by
  cases h with
  | opened hn hid => exact ⟨_,mem_concat_self,rfl,rfl,rfl,rfl⟩
  | revised live hm hl ho =>
    exact ⟨_,mem_update_self hm hl,rfl,hl.2.1,hl.1,rfl⟩

section
variable (h : Balanced b) (hup : Upserted r d newID b.aggregates aggregateID rows)
  (hfr : ∀ tx ∈ b.ledger, tx.businessReference ≠ newID)
include h hup hfr

lemma Balanced.upserted_unsettled : Unsettled b aggregateID := by
  cases hup with
  | opened hn hid =>
    refine ⟨fun tx htx hco => ?_,fun tx htx _ => hfr tx htx,fun m hm ha _ => ?_⟩
    · obtain ⟨g,hg,hgi,-⟩ := h.grounds.aggregated tx htx _ hco
      exact hid g hg hgi
    · obtain ⟨t,hl⟩ := h.sound.linked m hm
      obtain ⟨-,g,hg,hgi,-⟩ := hl.joint _ ha
      exact hid g hg hgi
  | revised live hme hli ho => exact h.unsettled hme ho hli.2.2

lemma Balanced.upsert : Balanced { b with aggregates := rows } := by
  have hun := h.upserted_unsettled hup hfr
  cases hup with
  | opened hn hid =>
    have hme : ∀ g ∈ b.aggregates, g ∈ b.aggregates ++ [newAggregate r d newID] :=
      fun g hg => mem_append_left _ hg
    refine ⟨⟨h.sound.transferIDs,h.sound.intentKeys,h.sound.matchIDs,
      nodup_map_append h.sound.aggregateIDs hid,h.sound.oneActive,?_,?_⟩,⟨?_,?_,
      h.grounds.reversed⟩,h.agree⟩
    · refine forall_snoc (fun g hg => forall_snoc (h.sound.oneLive g hg) ?_) (forall_snoc ?_ ?_)
      · exact fun hte hro hli _ => absurd ⟨hte,hro,hli⟩ (hn g hg)
      · exact fun g hg hte hro _ hli => absurd ⟨hte.symm,hro.symm,hli⟩ (hn g hg)
      · exact fun _ _ _ _ => rfl
    · intro m hm
      obtain ⟨t,hl⟩ := h.sound.linked m hm
      refine ⟨t,hl.stored,hl.source,hl.received,hl.intent,fun a ha => ?_⟩
      obtain ⟨hrl,g,hg,hre⟩ := hl.joint a ha
      exact ⟨hrl,g,hme g hg,hre⟩
    · intro tx htx a ha
      obtain ⟨g,hg,hre⟩ := h.grounds.aggregated tx htx a ha
      exact ⟨g,hme g hg,hre⟩
    · intro tx htx hty
      exact forall_snoc (h.grounds.referenced tx htx hty) fun hrf => absurd hrf (hfr tx htx)
  | revised live hlv hli hop =>
    -- The revised row is the only live one of the route; nothing was settled under it.
    have ho : ∀ g ∈ b.aggregates, liveAggregate r.route g → g = live := fun g hg hgl =>
      h.sound.oneLive g hg live hlv (hgl.1.trans hli.1.symm)
        (hgl.2.1.trans hli.2.1.symm) hgl.2.2 hli.2.2
    have hot : ∀ g ∈ b.aggregates, g.id ≠ live.id →
        g ∈ update (liveAggregate r.route) (reviseAggregate d) b.aggregates := by
      intro g hg hne
      refine mem_update_of hg (fun hgl => hne ?_)
      rw [ho g hg hgl]
    have hi : ∀ g ∈ update (liveAggregate r.route) (reviseAggregate d) b.aggregates,
        ∃ g₀ ∈ b.aggregates, g₀.id = g.id := by
      intro g hg
      rcases mem_update_iff.mp hg with ⟨hg,-⟩ | ⟨g₀,hg₀,-,rfl⟩
      · exact ⟨g,hg,rfl⟩
      · exact ⟨g₀,hg₀,rfl⟩
    refine ⟨⟨h.sound.transferIDs,h.sound.intentKeys,h.sound.matchIDs,?_,h.sound.oneActive,?_,
      ?_⟩,⟨?_,?_,h.grounds.reversed⟩,h.agree⟩
    · convert h.sound.aggregateIDs using 1
      exact map_update fun _ _ _ => rfl
    · intro g hg g' hg' hte hro hgl hgl'
      rcases mem_update_iff.mp hg with ⟨hg,hk⟩ | ⟨g₀,hg₀,hg₀live,rfl⟩ <;>
        rcases mem_update_iff.mp hg' with ⟨hg',hk'⟩ | ⟨g₀',hg₀',hg₀live',rfl⟩
      · exact h.sound.oneLive g hg g' hg' hte hro hgl hgl'
      · exact absurd ⟨hte.trans hg₀live'.1,hro.trans hg₀live'.2.1,hgl⟩ hk
      · exact absurd ⟨hte.symm.trans hg₀live.1,hro.symm.trans hg₀live.2.1,hgl'⟩ hk'
      · rw [ho g₀ hg₀ hg₀live,ho g₀' hg₀' hg₀live']
    · intro m hm
      obtain ⟨t,hl⟩ := h.sound.linked m hm
      refine ⟨t,hl.stored,hl.source,hl.received,hl.intent,fun a ha => ?_⟩
      obtain ⟨hrl,g,hg,hid,hte,hse⟩ := hl.joint a ha
      refine ⟨hrl,?_⟩
      by_cases hld : g.id = live.id
      · have hgl : g = live := inj_on_of_nodup_map h.sound.aggregateIDs hg hlv hld
        subst hgl
        refine ⟨_,mem_update_self hg hli,hid,hte,fun hf => ?_⟩
        exact absurd hf (hun.paymentMatches m hm (by rw [ha,hid]))
      · exact ⟨g,hot g hg hld,hid,hte,hse⟩
    · intro tx htx a ha
      obtain ⟨g,hg,hid,hst⟩ := h.grounds.aggregated tx htx a ha
      refine ⟨g,hot g hg fun hld => ?_,hid,hst⟩
      exact hun.ledger tx htx (by rw [ha,← hid,hld])
    · intro tx htx hty g hg hrf
      obtain ⟨g₀,hg₀,hid⟩ := hi g hg
      rw [← hid]
      exact h.grounds.referenced tx htx hty g₀ hg₀ (hrf.trans hid.symm)

end

end

end Ocrypt.SettlementBooks
