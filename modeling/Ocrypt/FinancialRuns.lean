import Ocrypt.FinancialWorkers

/-! What holds of the history of the financial system in every run: rows of one request are
linked by moves, and what went to and came from the ports belongs to rows of the history. -/
namespace Ocrypt.FinancialRuns
open Money Domain Fallible Table Store Custody Refunds Treasury FinancialStore RefundStore
  TreasuryStore FinancialWorkers OptimisticUpdates Relation Transactions List

variable {fence : Option FinancialFence} {core : Database} {db db' : FinancialDatabase} {clock : ℤ}
  {π τ σ ρ : Type} {seen : List (Aggregate τ)} {shelf : Shelf τ σ ρ} {current : Aggregate τ}
  {m : UpdateMutation τ ρ} {ids : PostingIDs} {log' : Log π τ σ}

/-- An update of the store writes the next version under the compare-and-set, or nothing. -/
structure Shelf.Lawful (shelf : Shelf τ σ ρ) : Prop where
  profile : shelf.profile.Lawful
  update : ∀ {core db clock fence m db' r}, shelf.update core db clock fence m = .ok (db',r) →
    (shelf.rows db' = shelf.rows db ∧ db'.ledger = db.ledger ∧ m.decision ≠ none) ∨
    ((∃ row ∈ shelf.rows db, AtVersion m row) ∧
      shelf.rows db' = Table.update (AtVersion m) (fun _ => m.next) (shelf.rows db) ∧
      db'.ledger = db.ledger ++ m.ledger.map fun l => ⟨l,shelf.profile.kind⟩)

lemma refundShelf_lawful : Shelf.Lawful refundShelf where
  profile := Refunds.profile_lawful
  update := by
    intro core db clock fence m db' r h
    rcases updateRefund_eq_ok h with ⟨rfl,hd⟩ | ⟨current,hu⟩
    · exact .inl ⟨rfl,rfl,hd⟩
    · have hw := hu.written
      refine .inr ⟨⟨current,hu.stored,hu.atVersion⟩,?_,?_⟩
      · exact congrArg FinancialDatabase.refunds hw
      · exact congrArg FinancialDatabase.ledger hw

lemma sweepShelf_lawful : Shelf.Lawful sweepShelf where
  profile := Treasury.profile_lawful
  update := by
    intro core db clock fence m db' r h
    rcases updateSweep_eq_ok h with ⟨rfl,hd⟩ | ⟨current,hu⟩
    · exact .inl ⟨rfl,rfl,hd⟩
    · have hw := hu.written
      refine .inr ⟨⟨current,hu.stored,hu.atVersion⟩,?_,?_⟩
      · exact congrArg FinancialDatabase.sweeps hw
      · exact congrArg FinancialDatabase.ledger hw

/-- The history of one kind of request. `Required` says when a policy asks for approval. -/
structure Sound (p : Profile τ σ ρ) (Required : π → Aggregate τ → Prop) (rows : List (Aggregate τ))
    (log : Log π τ σ) : Prop where
  coherent : Coherent (versioning τ) Moves rows log.seen
  requested : ∀ q ∈ log.requests, q.2 ∈ log.seen ∧ (Required q.1 q.2 → q.2.status = .approvalRequired)
  accepted : ∀ u ∈ log.accepted, ∃ current ∈ log.seen, ∃ now, current.status = .approved ∧
    p.Accepts current u ∧ current.prepared u now ∈ log.seen
  handed : ∀ u ∈ log.handed, ∃ current ∈ log.seen, current.status = .awaitingSignature ∧
    u = p.unsignedFor current

variable {p : Profile τ σ ρ} {Required : π → Aggregate τ → Prop} {rows rows' : List (Aggregate τ)}
  {log : Log π τ σ}

lemma Sound.nil : Sound p Required [] ({} : Log π τ σ) where
  coherent := Coherent.nil
  requested := fun _ hq => absurd hq List.not_mem_nil
  accepted := fun _ hu => absurd hu List.not_mem_nil
  handed := fun _ hu => absurd hu List.not_mem_nil

lemma Sound.grow (h : Sound p Required rows log)
    (hco : Coherent (versioning τ) Moves rows' seen) (hse : ∀ s ∈ log.seen, s ∈ seen) :
    Sound p Required rows' { log with seen } where
  coherent := hco
  requested := by
    intro q hq
    obtain ⟨hso,hr⟩ := h.requested q hq
    exact ⟨hse _ hso,hr⟩
  accepted := by
    intro u hu
    obtain ⟨current,hcu,now,hst,hac,hn⟩ := h.accepted u hu
    exact ⟨current,hse _ hcu,now,hst,hac,hse _ hn⟩
  handed := by
    intro u hu
    obtain ⟨current,hcu,hst,heq⟩ := h.handed u hu
    exact ⟨current,hse _ hcu,hst,heq⟩

lemma Sound.created (h : Sound p Required rows log) {policy : π} {r : Aggregate τ}
    (hf : ∀ s ∈ rows, s.id ≠ r.id) (hre : Required policy r → r.status = .approvalRequired) :
    Sound p Required (rows ++ [r]) (log.created policy r) := by
  have hg := h.grow (h.coherent.insert (r := r) hf) fun s hs => mem_append_left _ hs
  exact ⟨hg.coherent,forall_snoc hg.requested ⟨mem_concat_self,hre⟩,hg.accepted,hg.handed⟩

lemma get_singleton {current r : Aggregate τ} {tenantID id : String}
    (h : FinancialStore.get [current] tenantID id = some r) : r = current :=
  mem_singleton.mp (get_eq_some h).1

lemma handed_eq_some {call : Call σ} {u : UnsignedTransaction σ}
    (h : handed shelf.profile (shelf.snapshot db current) call = some u) :
    current.status = .awaitingSignature ∧ u = shelf.profile.unsignedFor current := by
  cases call with
  | sign now c response =>
    simp only [handed,Option.bind_eq_bind,Option.bind_eq_some_iff,Option.pure_def,
      Option.some.injEq] at h
    obtain ⟨-,-,r,hl,rfl⟩ := h
    cases hok : shelf.profile.load (shelf.snapshot db current) c .awaitingSignature with
    | error e => simp [hok,Except.toOption] at hl
    | ok loaded =>
      simp only [hok,Except.toOption,Option.some.injEq] at hl
      obtain ⟨hg,hst⟩ := load_eq_ok hok
      rw [← hl,← get_singleton hg]
      exact ⟨hst,rfl⟩
  | advance now workload tenantID id expected responses =>
    simp only [handed,Option.bind_eq_bind,Option.bind_eq_some_iff,Option.pure_def,
      Option.some.injEq] at h
    obtain ⟨r,hg,⟨⟩,hre,-,-,rfl⟩ := h
    rw [← get_singleton hg]
    by_cases hc : r.version = expected ∧ r.status = .awaitingSignature
    · exact ⟨hc.2,rfl⟩
    · simp [require,hc,Except.toOption] at hre
  | approve | cancel | prepare | broadcast | recordChainResult => cases h

lemma read_unchanged {current row : Aggregate τ} (h : Coherent (versioning τ) Moves rows seen)
    (hcu : current ∈ seen)
    (hpl : Planned p current m) (hr : row ∈ rows) (hve : AtVersion m row) : row = current := by
  obtain ⟨-,hid,hv⟩ := hve
  apply h.read_current moves_advance hr hcu
  · exact hid.trans hpl.aggregateID
  · exact hv.trans hpl.expectedVersion

lemma Sound.handing (h : Sound p Required rows log)
    (hcu : current ∈ log.seen) {handed : Option (UnsignedTransaction σ)}
    (hha : ∀ u, handed = some u → current.status = .awaitingSignature ∧ u = p.unsignedFor current) :
    Sound p Required rows { log with handed := log.handed ++ handed.toList } := by
  refine ⟨h.coherent,h.requested,h.accepted,fun u hu => ?_⟩
  rcases mem_append.mp hu with hu | hu
  · exact h.handed u hu
  · exact ⟨current,hcu,hha u (Option.mem_toList.mp hu)⟩

/-- The history after a call that was refused or replayed, but may have called the signer. -/
def Shelf.idle (shelf : Shelf τ σ ρ) (db : FinancialDatabase) (log : Log π τ σ) (call : Call σ)
    (current : Aggregate τ) : Log π τ σ :=
  { log with handed :=
      log.handed ++ (FinancialWorkers.handed shelf.profile (shelf.snapshot db current) call).toList }

lemma call_cases [DecidableEq σ] {call : Call σ}
    (h : shelf.call core db clock log call current fence ids = (db',log')) :
    (db' = db ∧ log' = Shelf.idle shelf db log call current) ∨
    ∃ m response, shelf.profile.plan (shelf.snapshot db current) ids call = .ok (.update m) ∧
      shelf.update core db clock fence m = .ok (db',response) ∧
      log' = { Shelf.idle shelf db log call current with
        seen := log.seen ++ shelf.rows db'
        accepted := log.accepted ++ if current.status = .approved then call.built.toList else [] } := by
  unfold Shelf.call at h
  cases hp : shelf.profile.plan (shelf.snapshot db current) ids call with
  | error e =>
    simp only [hp] at h
    cases h
    exact .inl ⟨rfl,rfl⟩
  | ok plan =>
    cases plan with
    | replay response =>
      simp only [hp] at h
      cases h
      exact .inl ⟨rfl,rfl⟩
    | update m =>
      cases hu : shelf.update core db clock fence m with
      | error e =>
        simp only [hp,hu] at h
        cases h
        exact .inl ⟨rfl,rfl⟩
      | ok r =>
        simp only [hp,hu] at h
        cases h
        exact .inr ⟨m,r.2,rfl,hu,rfl⟩

lemma coherent_commit (hsh : Shelf.Lawful shelf) {current response : Aggregate τ}
    (h : Coherent (versioning τ) Moves (shelf.rows db) seen) (hcu : current ∈ seen)
    (hp : Planned shelf.profile current m)
    (hu : shelf.update core db clock fence m = .ok (db',response)) :
    Coherent (versioning τ) Moves (shelf.rows db') (seen ++ shelf.rows db') := by
  rcases hsh.update hu with ⟨hro,-⟩ | ⟨⟨row,hrw,hv⟩,hro,-⟩
  · rw [hro]
    refine h.congr fun s => ?_
    rw [mem_append]
    exact ⟨fun hs => hs.elim id (h.stored s),.inl⟩
  · have hrw' := read_unchanged h hcu hp hrw hv
    subst hrw'
    rw [hro]
    refine (h.replace moves_advance hrw hv ?_ hp.moves).congr fun s =>
      h.mem_seen_replace hrw hv
    intro r _ hr
    exact hr.2.1.trans hv.2.1.symm

lemma Sound.call [DecidableEq σ] {shelf : Shelf τ σ ρ} (hsh : Shelf.Lawful shelf) {call : Call σ}
    {current : Aggregate τ} {ids : PostingIDs} {log' : Log π τ σ}
    (h : Sound shelf.profile Required (shelf.rows db) log) (hcu : current ∈ log.seen)
    (hca : shelf.call core db clock log call current fence ids = (db',log')) :
    Sound shelf.profile Required (shelf.rows db') log' := by
  have hi : Sound shelf.profile Required (shelf.rows db) (Shelf.idle shelf db log call current) :=
    h.handing hcu fun u hu => handed_eq_some hu
  rcases call_cases hca with ⟨rfl,rfl⟩ | ⟨m,response,hpl,hup,rfl⟩
  · exact hi
  · obtain ⟨r,hge,hp⟩ := plan_planned hpl
    have hr := get_singleton hge
    subst hr
    have hg := hi.grow (coherent_commit hsh h.coherent hcu hp hup)
      fun s hs => mem_append_left _ hs
    refine ⟨hg.coherent,hg.requested,fun u hu => ?_,hg.handed⟩
    rcases mem_append.mp hu with hu | hu
    · exact hg.accepted u hu
    · split_ifs at hu with hst
      · have hbu := Option.mem_toList.mp hu
        obtain ⟨hac,hd,now,hn⟩ :=
          plan_accepts hsh.profile hpl hge hst hbu
        refine ⟨r,mem_append_left _ hcu,now,hst,hac,?_⟩
        -- a preparation carries no decision, so its commit is a write
        rcases hsh.update hup with ⟨-,-,hre⟩ | ⟨⟨row,hrw,hv⟩,hro,-⟩
        · exact absurd hd hre
        · apply mem_append_right
          rw [← hn,hro]
          exact mem_update_self hrw hv
      · cases hu

lemma call_planned [DecidableEq σ] {call : Call σ}
    (h : shelf.call core db clock log call current fence ids = (db',log')) :
    db' = db ∨ ∃ m response, Planned shelf.profile current m ∧
      shelf.update core db clock fence m = .ok (db',response) := by
  rcases call_cases h with ⟨hdb,-⟩ | ⟨m,response,hpl,hu,-⟩
  · exact .inl hdb
  · obtain ⟨r,hg,hp⟩ := plan_planned hpl
    rw [get_singleton hg] at hp
    exact .inr ⟨m,response,hp,hu⟩

structure SystemSound (s : System) : Prop where
  refunds : Sound Refunds.profile
    (fun (policy : Refunds.Policy) (r : Refund) => policy.RequiresApproval r.terms.grossAmount)
    s.db.refunds s.refundLog
  sweeps : Sound Treasury.profile
    (fun (policy : Treasury.Policy) (r : SweepRequest) => policy.RequiresApproval r.terms.amount)
    s.db.sweeps s.sweepLog

def start (core : Workers.World) : System := { core }

lemma systemSound_start (core : Workers.World) : SystemSound (start core) := ⟨Sound.nil,Sound.nil⟩

def sampleNow : ℤ := 2*day

def sampleEnvironment : Environment where
  ext := Workers.sampleExternals
  capability := "scanner"
  createdAt := fun _ => 0
  refundHash := fun _ => Workers.sampleDigest ""
  sweepHash := fun _ => Workers.sampleDigest ""

def samplePolicy : Refunds.Policy where
  id := "policy"
  version := 1
  tenantID := "tenant"
  assetID := "usdt"
  chainID := "tron"
  enabled := true
  emergencyPaused := false
  refundToOriginOnly := false
  allowVerifiedAlternate := true
  requireApprovalAlways := true
  maximumRefundAmount := 100
  dailyRefundLimit := 1000
  approvalThreshold := 100
  maximumNetworkFee := 10
  feeBearer := .merchant
  allowedVerificationMethods := [.walletSignature]

def sampleDestination : DestinationRow where
  id := "destination"
  tenantID := "tenant"
  settlementID := "match-1"
  assetID := "usdt"
  chainID := "tron"
  address := "TPayer"
  method := .walletSignature
  evidenceDigest := "evidence"
  verifiedAt := 1
  expiresAt := none
  revokedAt := none

/-- A payment of 100 units is settled, its match becomes a refundable settlement, and the policy
and the destination of its refunds are set up. -/
def sampleSettled : List Action :=
  (Workers.sampleScanned []).map .core ++
    [.core (.ingestAndSettle (Workers.samplePayment "pay" 100 "block-7") 60
        (Workers.sampleIngestIDs "1")),.core (.tick sampleNow.toNat),
      .setPolicies [⟨⟨"policy","tenant","usdt",1,true,false,samplePolicy,1,none⟩,false⟩] [],
      .setDestinations [sampleDestination],.syncSettlements "tenant" 500]

def sampleEvidence (tenantID settlementID intentID destinationID : String) (received : Amount) :
    Evidence where
  settlement := fun _ _ => some ⟨settlementID,tenantID,"usdt","tron",intentID,"pay",
    ⟨"tron","TPayer"⟩,received,.zero,true,false⟩
  activePolicy := fun _ _ => some { samplePolicy with tenantID }
  verifiedDestination := fun _ _ => some ⟨destinationID,tenantID,settlementID,"usdt",
    ⟨"tron","TPayer"⟩,.walletSignature,"evidence",1,0,0⟩

def sampleAuth (actorID : String) : AuthContext where
  actorID := actorID
  permissions := ["create", "approve", "cancel", "execute", "sign", "broadcast"].map
    Refunds.profile.permission
  stepUpValidUntil := sampleNow+day

def sampleCommand : RequestCommand where
  tenantID := "tenant"
  settlementID := "match-1"
  destinationVerificationID := "destination"
  refundAmount := 60
  networkFee := 5
  idempotencyKey := "request-1"
  auth := sampleAuth "alice"

def sampleTransition (actorID : String) (version : ℤ) : TransitionCommand :=
  ⟨"tenant","refund-1",version,sampleAuth actorID⟩

def sampleIdentity : MutationIdentity := ⟨"decision-1",⟨List.replicate 32 1,by simp⟩⟩

def sampleRequested : Refund where
  id := "refund-1"
  tenantID := "tenant"
  assetID := "usdt"
  chainID := "tron"
  policyID := "policy"
  policyVersion := 1
  creatorID := "alice"
  idempotencyKey := "request-1"
  requestHash := Workers.sampleDigest ""
  destination := ⟨"tron","TPayer"⟩
  terms := ⟨"match-1","destination",60,60,5,.merchant⟩
  createdAt := sampleNow
  status := .approvalRequired
  updatedAt := sampleNow

def sampleApproved : Refund :=
  { sampleRequested.step .approved sampleNow with approvals := [⟨"bob",sampleNow,"checked"⟩] }

def sampleApproval : List Action := sampleSettled ++
  [.requestRefund (sampleEvidence "tenant" "match-1" "intent" "destination" 100) sampleNow {}
    sampleCommand ⟨"refund-1","posting-1"⟩,
    .refund (.approve sampleNow sampleIdentity
      ⟨"tenant","refund-1",1,"checked",sampleAuth "bob"⟩) sampleRequested none ⟨"",""⟩]

def sampleBuilt (fee : Amount) : UnsignedTransaction String where
  requestID := "refund-1"
  tenantID := "tenant"
  scope := "match-1"
  assetID := "usdt"
  chainID := "tron"
  destination := ⟨"tron","TPayer"⟩
  amount := 60
  fee := fee
  digest := "unsigned"
  opaqueReference := "unsigned-reference"

def sampleSignature : SignedTransaction := ⟨"refund-1","unsigned","signed","signed-reference"⟩

def samplePayout (fee : Amount) : List Action :=
  let prepared := sampleApproved.prepared (sampleBuilt fee) sampleNow
  sampleApproval ++
    [.refund (.prepare sampleNow (sampleTransition "carol" 2) (some (sampleBuilt fee))) sampleApproved
      none ⟨"posting-2",""⟩,
    .refund (.sign sampleNow (sampleTransition "carol" 3) (some sampleSignature)) prepared none
      ⟨"posting-3",""⟩,
    .refund (.broadcast sampleNow (sampleTransition "carol" 4) (some ⟨"signed","transaction"⟩))
      (prepared.withSignature sampleSignature sampleNow) none ⟨"posting-4","posting-5"⟩]

end Ocrypt.FinancialRuns
