import Ocrypt.Store

/-! Candidate routes for a transfer that no exact route claims: their scores, and the choice
of the one candidate that may be settled without an operator. -/
namespace Ocrypt.Candidates
open Money Domain Matching Store
open Requests (trimSpace)

structure Candidate where
  (routeID intentID : String)
  exceptionClass : ExceptionClass
  score : ℤ
  /-- The signed difference to the expected amount; none when the asset differs. -/
  amountDelta : Option ℤ
  reasons : List String
  deriving DecidableEq, Repr

def automaticCandidateScoreThreshold : ℤ := 75

def automaticLateGraceReason : String := "within_automatic_30_minute_grace"

def candidateCloseAmountToleranceBPS : UInt32 := 500

def candidateHasReason (c : Candidate) (expected : String) : Bool := expected ∈ c.reasons

variable (event : TransferEvent) (candidates : List Candidate)

def uniqueAutomaticCandidate : Option Candidate :=
  match candidates with
  | [] => none
  | top::rest =>
    if top.score < automaticCandidateScoreThreshold ∨ top.exceptionClass = .ambiguous then none
    else if !candidateHasReason top "within_payment_window" &&
        !(top.exceptionClass = .late && candidateHasReason top automaticLateGraceReason) then none
    else if (top.exceptionClass = .partialPayment ∨ top.exceptionClass = .underpaid) ∧
        !candidateHasReason top "underpayment_within_five_percent" then none
    else if rest.head?.any (·.score = top.score) then none
    else some top

/-- `amount * toleranceBPS / 10000`, rounded down. -/
def toleranceOf (amount : Amount) (toleranceBPS : UInt32) : Except String Amount :=
  amount.mulDivFloor ⟨toleranceBPS.toNat,Amount.uint32_fits toleranceBPS⟩ ⟨10000,Amount.basis_fits⟩

/-- The comparison that both tolerances end with. -/
def withinTolerance (difference : Except String Amount) (expected : Amount)
    (toleranceBPS : UInt32) : Bool :=
  match difference, toleranceOf expected toleranceBPS with
  | .ok d, .ok maximum => d.cmp maximum ≠ .gt
  | _, _ => false

def underpaymentWithinTolerance (received expected : Amount) (toleranceBPS : UInt32) : Bool :=
  if toleranceBPS = 0 then false
  else withinTolerance (expected.sub received) expected toleranceBPS

def overpaymentWithinTolerance (received expected : Amount) (toleranceBPS : UInt32) : Bool :=
  if toleranceBPS = 0 ∨ received.cmp expected ≠ .gt then false
  else withinTolerance (received.sub expected) expected toleranceBPS

/-- Points and reasons from the payment time relative to the window of the route. -/
def timeEvidence (route : PaymentRoute) : ℤ × List String :=
  let late := route.expiresAt < event.onChainTime
  if route.startsAt ≤ event.onChainTime ∧ event.onChainTime ≤ route.expiresAt then
    (40,["within_payment_window"])
  else if late ∧ event.onChainTime ≤ automaticLatePaymentDeadline route then
    (10,[automaticLateGraceReason])
  else if late ∧ event.onChainTime ≤ route.graceEndsAt then (5,["within_manual_late_grace"])
  else if event.onChainTime < route.startsAt then (-10,["before_route_start"])
  else (-10,["after_late_grace"])

/-- Class, points and reasons from the amount; the class counts when the payment is not late. -/
def amountEvidence (route : PaymentRoute) (now : ℤ) : ExceptionClass × ℤ × List String :=
  let isOpen := now < route.expiresAt
  match event.amount.cmp route.expectedAmount with
  | .eq => (.exact,55,["exact_amount"])
  | .lt =>
    if underpaymentWithinTolerance event.amount route.expectedAmount
        candidateCloseAmountToleranceBPS then
      if isOpen then (.partialPayment,50,["underpayment_within_five_percent", "route_still_open"])
      else (.underpaid,45,["underpayment_within_five_percent"])
    else if isOpen then (.partialPayment,10,["below_expected_before_expiry"])
    else (.underpaid,5,["below_expected"])
  | .gt =>
    if overpaymentWithinTolerance event.amount route.expectedAmount
        candidateCloseAmountToleranceBPS then
      (.overpaid,30,["overpayment_within_five_percent"])
    else (.overpaid,5,["above_expected"])

/-- The candidate a route gives for the event; other chains and recipients give none. -/
def routeCandidate (now : ℤ) (route : PaymentRoute) : Option Candidate :=
  let base := ["same_chain", "same_recipient"]
  if route.chainID ≠ event.identity.chainID ∨ route.address ≠ event.identity.toAddress then none
  else if route.assetID ≠ event.identity.assetID then
    some ⟨route.id,route.intentID,.wrongAsset,35,none,base ++ ["asset_mismatch"]⟩
  else
    let (timePoints,timeReasons) := timeEvidence event route
    let (amountClass,amountPoints,amountReasons) := amountEvidence event route now
    let late := route.expiresAt < event.onChainTime
    some {
      routeID := route.id
      intentID := route.intentID
      exceptionClass := if late then .late else amountClass
      score := 30+timePoints+amountPoints
      amountDelta := some ((event.amount.n : ℤ) - route.expectedAmount.n)
      reasons := base ++ timeReasons ++ (if late then ["after_expiry"] else []) ++ amountReasons }

/-- The order of the distances to the expected amounts; a known one comes before an unknown. -/
def compareCandidateAmountDistance (left right : Candidate) : Ordering :=
  match left.amountDelta, right.amountDelta with
  | some l, some r => compare l.natAbs r.natAbs
  | some _, none => .lt
  | none, some _ => .gt
  | none, none => .eq

def candidateBefore (a b : Candidate) : Bool :=
  if a.score = b.score then
    match compareCandidateAmountDistance a b with
    | .lt => true
    | .gt => false
    | .eq => a.routeID < b.routeID
  else b.score < a.score

/-- A single large overpayment is still evidence when no other route competes. -/
def rewardUnique : List Candidate :=
  match candidates with
  | [c] =>
    if c.exceptionClass = .overpaid ∧ candidateHasReason c "above_expected" then
      [{ c with score := c.score+10, reasons := c.reasons ++ ["unique_route_candidate"] }]
    else [c]
  | cs => cs

def markAmbiguous : List Candidate :=
  match candidates with
  | top::second::_ =>
    let ties (c : Candidate) : Bool :=
      c.score = top.score ∧ compareCandidateAmountDistance c top = .eq
    if ties second then
      (candidates.takeWhile ties).map (fun c => { c with
        exceptionClass := .ambiguous, reasons := c.reasons ++ ["equal_top_score"] }) ++
        candidates.dropWhile ties
    else candidates
  | cs => cs

def buildCandidates (routes : List PaymentRoute) (now : ℤ) : List Candidate :=
  let candidates := rewardUnique (routes.filterMap (routeCandidate event now))
  markAmbiguous (candidates.insertionSort fun a b => candidateBefore b a = false)

structure AutomaticCandidateContext where
  route : PaymentRoute
  intent : PaymentIntent

def validateCurrency (currency : String) (scale : ℕ) : Bool :=
  currency.toList.length = 3 && currency.toList.all (fun c => 'A' ≤ c && c ≤ 'Z') && scale ≤ 9

/-- A tied candidate whose records still support it: the same invoice facts and a small
overpayment inside the payment window. -/
def contextSupports (c : Candidate) (ctx : AutomaticCandidateContext) : Bool :=
  c.exceptionClass = .overpaid && !candidateHasReason c "candidate_context_truncated" &&
    candidateHasReason c "within_payment_window" &&
    candidateHasReason c "overpayment_within_five_percent" &&
    ctx.route.id ≠ "" && ctx.route.id = c.routeID && ctx.route.intentID ≠ "" &&
    ctx.route.intentID = c.intentID && ctx.intent.id = ctx.route.intentID &&
    ctx.intent.tenantID ≠ "" && ctx.intent.merchantID ≠ "" &&
    trimSpace ctx.intent.customerReference ≠ "" && !ctx.intent.amountMinor.isZero &&
    validateCurrency ctx.intent.currency ctx.intent.currencyScale &&
    decide ctx.route.status.Matchable &&
    ctx.route.chainID = event.identity.chainID && ctx.route.assetID = event.identity.assetID &&
    ctx.route.address = event.identity.toAddress &&
    ctx.route.assetDecimals = event.assetDecimals &&
    ctx.route.startsAt ≤ event.onChainTime && event.onChainTime ≤ ctx.route.expiresAt &&
    !ctx.route.expectedAmount.isZero &&
    overpaymentWithinTolerance event.amount ctx.route.expectedAmount
      candidateCloseAmountToleranceBPS

def sameInvoice (a b : AutomaticCandidateContext) (aMetadata bMetadata : String) : Bool :=
  a.intent.tenantID = b.intent.tenantID && a.intent.merchantID = b.intent.merchantID &&
    a.intent.customerReference = b.intent.customerReference &&
    a.intent.amountMinor.cmp b.intent.amountMinor = .eq &&
    a.intent.currency = b.intent.currency && a.intent.currencyScale = b.intent.currencyScale &&
    aMetadata = bMetadata && a.route.memo = b.route.memo

structure TieBreak where
  seen : List String := []
  reference : Option (AutomaticCandidateContext × String) := none
  /-- The closest candidate so far, its distance, and whether no other has that distance. -/
  best : Option (Candidate × Amount × Bool) := none

def tieBreakStep (ext : Externals) (event : TransferEvent)
    (contexts : List AutomaticCandidateContext) (t : TieBreak) (c : Candidate) : Option TieBreak := do
  let ctx ← contexts.find? (·.route.id = c.routeID)
  guard (c.routeID ∉ t.seen ∧ contextSupports event c ctx)
  let metadata ← ext.canonicalCandidateMetadata ctx.intent.metadata
  guard (t.reference.all fun (r,m) => sameInvoice ctx r metadata m)
  let distance ← (event.amount.sub ctx.route.expectedAmount).toOption
  pure {
    seen := c.routeID::t.seen
    reference := t.reference.or (some (ctx,metadata))
    best := match t.best with
      | none => some (c,distance,true)
      | some (w,closest,only) =>
        match distance.cmp closest with
        | .lt => some (c,distance,true)
        | .eq => some (w,closest,false)
        | .gt => some (w,closest,only) }

/-- The second half of the selection: the closest of equivalent invoices with the full score. -/
def tieBreak (ext : Externals) (event : TransferEvent) (ranked : List Candidate)
    (contexts : List AutomaticCandidateContext) : Option Candidate :=
  match ranked with
  | first::second::_ =>
    if first.score ≠ 100 ∨ second.score ≠ 100 then none
    else do
      let t ← (ranked.takeWhile (·.score = first.score)).foldlM
        (tieBreakStep ext event contexts) {}
      let (winner,_,only) ← t.best
      if only then some winner else none
  | _ => none

/-- The unique automatic candidate or, among several with the full score, the strictly closest
one when all of them are equivalent invoices. -/
def selectAutomaticCandidate (ext : Externals) (event : TransferEvent) (candidates : List Candidate)
    (contexts : List AutomaticCandidateContext) : Option Candidate :=
  let ranked := candidates.insertionSort fun a b => b.score ≤ a.score
  match uniqueAutomaticCandidate ranked with
  | some winner => some winner
  | none => tieBreak ext event ranked contexts

/-- The records of the candidates that tie at the full score; one that does not match its
intent is absent, so that the selection fails closed. -/
def loadAutomaticCandidateContexts (db : Database) (candidates : List Candidate)
    (tenantID : String) : List AutomaticCandidateContext :=
  match candidates with
  | first::second::_ =>
    if first.score ≠ 100 ∨ second.score ≠ 100 then []
    else
      let routeIDs := (candidates.filter (·.score = first.score)).map (·.routeID)
      (db.routes.filter fun r => r.id ∈ routeIDs ∧ r.tenantID = tenantID).filterMap fun r =>
        (db.intents.find? fun i => i.id = r.intentID ∧ i.tenantID = r.tenantID ∧
          i.merchantID = r.merchantID).map fun i => ⟨r,i⟩
  | _ => []

end Ocrypt.Candidates
