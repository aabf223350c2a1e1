import Ocrypt.ReorgEffects
import Ocrypt.Settlement

/-! The net amount that the ledger holds for settlements: what payment_settlement transactions
credited, less what their reversals debited. -/
namespace Ocrypt.Bookkeeping
open Domain Ledger SettlementLegs Store Settlement Reorg ReorgEffects

def booked (asset : String) (tx : LedgerTransaction) : ℤ :=
  match tx.businessType with
  | .paymentSettlement => total .credit asset tx.entries
  | .paymentSettlementReversal => -total .debit asset tx.entries

/-- The net amount of the transactions that `p` selects. -/
def netBooked (p : LedgerTransaction → Prop) [DecidablePred p] (asset : String)
    (ledger : List LedgerTransaction) : ℤ :=
  (ledger.map fun tx => if p tx then booked asset tx else 0).sum

abbrev under (tenantID : String) (κ : Correlation) (tx : LedgerTransaction) : Prop :=
  tx.tenantID = tenantID ∧ tx.correlation = κ

section
variable {p : LedgerTransaction → Prop} [DecidablePred p] {asset : String}

@[simp] lemma netBooked_nil : netBooked p asset [] = 0 := rfl

lemma netBooked_append (xs ys : List LedgerTransaction) :
    netBooked p asset (xs ++ ys) = netBooked p asset xs+netBooked p asset ys := by
  simp [netBooked]

lemma netBooked_singleton (tx : LedgerTransaction) :
    netBooked p asset [tx] = if p tx then booked asset tx else 0 := by
  simp [netBooked]

lemma netBooked_eq_zero {ledger : List LedgerTransaction} (h : ∀ tx ∈ ledger, ¬p tx) :
    netBooked p asset ledger = 0 := by
  have hz : ledger.map (fun tx => if p tx then booked asset tx else 0) = ledger.map fun _ => 0 :=
    List.map_congr_left fun tx htx => if_neg (h tx htx)
  rw [netBooked,hz]
  simp

end

lemma booked_transferLedger (ext : Externals) (tenantID merchantID : String)
    (event : TransferEvent) (settlementID asset : String) :
    booked asset (transferLedger ext tenantID merchantID event settlementID) =
      if event.identity.assetID = asset then (event.amount.n : ℤ) else 0 := by
  simp only [booked,transferLedger,singleTransferLegs,total_cons,reduceCtorEq,false_and,true_and,if_false]
  split_ifs <;> simp

lemma booked_reversalIn (ids : ReorgIDs) (s : ReorgSettlement) (asset : String)
    (hty : s.original.businessType = .paymentSettlement) :
    booked asset (reversalIn ids s) = -booked asset s.original := by
  have hi : total .debit asset (invertEntries s.original.entries) =
      total .credit asset s.original.entries := total_invertEntries .debit asset _
  simp [booked,reversalIn,reversalOf,hty,hi]

end Ocrypt.Bookkeeping
