import Ocrypt.HostedSettlement
import Ocrypt.MatchingStore
import Ocrypt.Reorg
import Ocrypt.Resolutions
import Ocrypt.Transactions

/-! The workers of the payment core as one system. A state is the shared database with the
clock and the claimed resolutions that workers hold; an action is one transaction of one worker,
with the identifiers it draws. -/
namespace Ocrypt.Workers
open Money Domain Fallible Store Candidates MatchingJobs Settlement Scanner Reorg MatchingStore
  Resolutions HostedSettlement

structure World where
  db : Database
  clock : ℤ := 0
  /-- The jobs that resolution workers have claimed, as they were handed out. -/
  resolutionJobs : List ResolutionJob := []

inductive Action
  | tick (duration : ℕ)
  | acquire (chainID shard owner : String) (duration : ℤ)
  | release (lease : Lease)
  | commitRange (lease : Lease) (batch : RangeBatch)
  | rewindReorg (lease : Lease) (batch : RangeBatch) (incidentHeight : ℕ) (ids : ReorgIDs)
  | claimTransfers (worker : String) (now lease : ℤ) (limit : ℕ) (token : String → String)
  | completeTransfer (worker eventID claimToken : String)
  | retryTransfer (worker eventID claimToken : String) (next : ℤ) (deadLetter : Bool)
  | ingestAndSettle (event : TransferEvent) (now : ℤ) (ids : IngestIDs)
  | enqueueMatching (tenantID : String) (candidates : List Candidate) (now : ℤ)
  | claimMatching (worker : String) (now lease : ℤ) (limit : ℕ) (token : String → String)
  | reconcileMatching (worker : String) (job : AutomatedMatchingJob) (now : ℤ) (ids : ReconcileIDs)
  | retryMatching (worker : String) (job : AutomatedMatchingJob) (next : ℤ) (dead : Bool)
  | claimResolutions (worker chainID : String) (now lease : ℤ) (limit : ℕ) (token : String → String)
  | resolve (job : ResolutionJob) (ids : ManualIDs)
  | ingestProviderPayment (payment : VerifiedProviderPayment) (prebind : Option PrebindClaim)
      (ids : HostedIDs)

/-- The transaction an action runs. A resolution is applied to the copy that was claimed. -/
def exec (ext : Externals) (capability : String) (w : World) : Action → Except Failure World
  | .tick duration => .ok { w with clock := w.clock+duration }
  | .acquire chainID shard owner duration =>
    (acquire capability w.db chainID shard owner duration w.clock).map fun r => { w with db := r.1 }
  | .release lease => (release capability w.db lease).map fun db => { w with db }
  | .commitRange lease batch =>
    (commitRange ext capability w.db lease batch w.clock).map fun db => { w with db }
  | .rewindReorg lease batch incidentHeight ids =>
    (rewindReorg capability w.db lease batch incidentHeight w.clock ids).map fun db => { w with db }
  | .claimTransfers worker now lease limit token =>
    (claimTransfers w.db worker now lease limit token).map fun r => { w with db := r.1 }
  | .completeTransfer worker eventID claimToken =>
    (completeTransfer w.db worker eventID claimToken).map fun db => { w with db }
  | .retryTransfer worker eventID claimToken next deadLetter =>
    (retryTransfer w.db worker eventID claimToken next deadLetter).map fun db => { w with db }
  | .ingestAndSettle event now ids =>
    (ingestAndSettle ext w.db event now ids).map fun r => { w with db := r.1 }
  | .enqueueMatching tenantID candidates now =>
    .ok { w with db := enqueueAutomatedMatchingCandidates w.db tenantID candidates now }
  | .claimMatching worker now lease limit token =>
    (claimAutomatedMatching w.db worker now lease limit token).map fun r => { w with db := r.1 }
  | .reconcileMatching worker job now ids =>
    (reconcileAutomatedMatching ext w.db worker job now w.clock ids).map fun db => { w with db }
  | .retryMatching worker job next dead =>
    (retryAutomatedMatching w.db worker job next dead w.clock).map fun db => { w with db }
  | .claimResolutions worker chainID now lease limit token =>
    (claimResolutions w.db worker chainID now lease limit w.clock token).map fun r =>
      { w with db := r.1, resolutionJobs := w.resolutionJobs ++ r.2 }
  | .resolve job ids => do
    require (job ∈ w.resolutionJobs) ⟨.notFound,""⟩
    let db ← resolve ext w.db job w.clock ids
    pure { w with db }
  | .ingestProviderPayment payment prebind ids =>
    (ingestVerifiedProviderPayment ext w.db payment prebind w.clock ids).map fun r =>
      { w with db := r.1 }

def sampleDigest (text : String) : String :=
  String.ofList (List.replicate 63 '0' ++ [Nat.digitChar (text.toList.length % 16)])

def sampleExternals : Externals where
  hashing := ⟨sampleDigest,fun _ => ""⟩
  marshalAmbiguity := fun _ _ _ _ => ""
  decodePolicy := fun _ => some ⟨"policy",1,true,100,.creditExpected,true,true,false,[]⟩
  snapshotAcceptsLate := fun _ => true
  snapshotToleranceBPS := fun _ => 100
  canonicalCandidateMetadata := some
  matchesLegacyNativeEVMEvidence := fun _ _ => false
  accounts := fun _ _ _ => SettlementLegs.sampleAccounts

def sampleIntent : PaymentIntent where
  id := "intent"
  tenantID := "tenant"
  merchantID := "merchant"
  customerReference := "customer"
  amountMinor := 100
  currency := "USD"
  currencyScale := 2
  metadata := ""
  status := .pending
  version := 1

def sampleRouteTo (id address : String) : PaymentRoute :=
  { Matching.sampleRoute with id, address, chainID := "tron" }

def samplePayment (id : String) (amount : Amount) (blockHash : String) : TransferEvent :=
  { Matching.sampleTransfer id ("tx-" ++ id) "transfer:0" "TMerchant" "transfer" amount with
    identity := ⟨"tron","tx-" ++ id,"transfer:0","usdt","TMerchant"⟩
    blockHash := blockHash
    evidenceHash := sampleDigest "" }

def sampleStart : World where
  db := {
    intents := [sampleIntent]
    routes := [sampleRouteTo "route" "TMerchant"]
    assets := [⟨"usdt","tron",false,6,.zero⟩] }

def sampleLease (version : ℤ) (height : ℕ) (hash : String) : Lease :=
  ⟨"tron","shard","scanner",height,hash,version⟩

def sampleBatch (tip : String) (events : List TransferEvent) : RangeBatch :=
  ⟨6,7,[⟨6,"block-6"⟩,⟨7,tip⟩],events⟩

def sampleIngestIDs (tag : String) : IngestIDs :=
  ⟨"observation-" ++ tag,"observed-" ++ tag,"unmatched-" ++ tag,"exception-" ++ tag,
    "settlement-" ++ tag,"match-" ++ tag,"webhook-" ++ tag⟩

def sampleReorgIDs (tag : String) : ReorgIDs :=
  ⟨fun id => "reversal-" ++ tag ++ id,fun id => "reorged-" ++ tag ++ id,
    fun id => "orphaned-" ++ tag ++ id⟩

def sampleBound : World where
  db := { sampleStart.db with bindings := [⟨"route","tenant","policy",sampleDigest "policy"⟩] }

def sampleReconcileIDs (tag : String) : ReconcileIDs :=
  ⟨"aggregate-" ++ tag,fun eventID => "match-" ++ tag ++ eventID,"matched-" ++ tag⟩

/-- The blocks to the seventh are scanned, with the given transfers in the last of them. -/
def sampleScanned (events : List TransferEvent) : List Action :=
  [.acquire "tron" "shard" "scanner" minute,
    .commitRange (sampleLease 2 0 "") (sampleBatch "block-7" events)]

/-- The seventh block is found to be replaced. -/
def sampleReplaced : List Action :=
  [.acquire "tron" "shard" "scanner" minute,
    .rewindReorg (sampleLease 4 7 "block-7") (sampleBatch "rival-7" []) 7 (sampleReorgIDs "1")]

/-- The replacement is scanned. -/
def sampleRescanned (events : List TransferEvent) : List Action :=
  [.acquire "tron" "shard" "scanner" minute,
    .commitRange (sampleLease 6 6 "block-6") (sampleBatch "rival-7" events)]

/-- Two payments of 97 and 3 units are accumulated: the first is collected, and both are settled
once the window of the route has passed. -/
def sampleAccumulation : List Action :=
  sampleScanned [] ++
    [.ingestAndSettle (samplePayment "first" 97 "block-7") 60 (sampleIngestIDs "1"),
      .claimMatching "matcher" 60 minute 10 (fun _ => "lease-1"),
      .reconcileMatching "matcher" ⟨"route","lease-1",1⟩ 60 (sampleReconcileIDs "1"),
      .ingestAndSettle (samplePayment "second" 3 "block-7") 61 (sampleIngestIDs "2"),
      .claimMatching "matcher" 201 minute 10 (fun _ => "lease-2"),
      .reconcileMatching "matcher" ⟨"route","lease-2",2⟩ 201 (sampleReconcileIDs "2")]

end Ocrypt.Workers
