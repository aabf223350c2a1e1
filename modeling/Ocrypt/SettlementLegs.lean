import Ocrypt.Ledger
import Ocrypt.Matching
import Ocrypt.Table

/-! The ledger legs of a settlement: one debit of the treasury against credits of the
merchant and, for an overpayment that is held, of the overpayment liability. -/
namespace Ocrypt.SettlementLegs
open Money Domain Ledger Matching Table

/-- The account ids read back from ledger_accounts; a uuid is never the empty text. -/
structure SettlementAccounts where
  (treasuryAsset merchantSettlementLiability unmatchedOverpaymentLiability : String)
  treasuryAsset_ne : treasuryAsset ≠ ""
  merchantSettlementLiability_ne : merchantSettlementLiability ≠ ""
  unmatchedOverpaymentLiability_ne : unmatchedOverpaymentLiability ≠ ""

def sampleAccounts : SettlementAccounts :=
  ⟨"treasury","merchant","overpayment",by decide,by decide,by decide⟩

variable (accounts : SettlementAccounts) (assetID : String)

def singleTransferLegs (amount : Amount) : List LedgerEntry :=
  [⟨accounts.treasuryAsset,assetID,.debit,amount,1⟩,
    ⟨accounts.merchantSettlementLiability,assetID,.credit,amount,2⟩]

def insertEntry (entries : List LedgerEntry) (account : String) (direction : EntryDirection)
    (amount : Amount) : List LedgerEntry :=
  if amount.isZero then entries
  else entries ++ [⟨account,assetID,direction,amount,entries.length+1⟩]

/-- The legs of an automated settlement, as `postAutomatedSettlementLedger` inserts them. -/
def automatedSettlementLegs (d : AutomatedMatchDecision) : Except Failure (List LedgerEntry) :=
  let entries := insertEntry assetID [] accounts.treasuryAsset .debit d.treasuryReceived
  let entries := insertEntry assetID entries accounts.merchantSettlementLiability .credit d.credited
  match d.received.sub d.credited with
  | .error e => .error ⟨.unwrapped,e⟩
  | .ok excess =>
    .ok (insertEntry assetID entries accounts.unmatchedOverpaymentLiability .credit excess)

lemma total_insertEntry (entries : List LedgerEntry) (account : String)
    (direction d : EntryDirection) (amount : Amount) (asset : String) :
    total d asset (insertEntry assetID entries account direction amount) =
      total d asset entries+if direction = d ∧ assetID = asset then amount.n else 0 := by
  unfold insertEntry
  by_cases hz : amount.isZero = true
  · rw [if_pos hz]
    rw [Amount.isZero_iff] at hz
    split_ifs <;> omega
  · rw [if_neg hz,total_append,total_cons,total_nil,add_zero]

variable {assetID : String} {d : AutomatedMatchDecision}

/-- What an automated settlement posts: the treasury is debited by what it received, and the
credits add up to what was received. -/
theorem total_automatedSettlementLegs {accounts : SettlementAccounts} {legs : List LedgerEntry}
    (h : automatedSettlementLegs accounts assetID d = .ok legs) (asset : String) :
    total .debit asset legs = (if assetID = asset then d.treasuryReceived.n else 0) ∧
      total .credit asset legs = if assetID = asset then d.received.n else 0 := by
  unfold automatedSettlementLegs at h
  cases hsu : d.received.sub d.credited with
  | error e => simp [hsu] at h
  | ok excess =>
    obtain ⟨hle,hex⟩ := Amount.sub_eq_ok.mp hsu
    simp only [hsu,Except.ok.injEq] at h
    subst h
    simp only [total_insertEntry,total_nil,reduceCtorEq,false_and,if_false,true_and]
    split_ifs <;> omega

lemma forall_wellFormed_insertEntry {entries : List LedgerEntry}
    {account : String} {direction : EntryDirection} {amount : Amount}
    (has : assetID ≠ "") (hac : account ≠ "") (h : ∀ e ∈ entries, e.WellFormed) :
    ∀ e ∈ insertEntry assetID entries account direction amount, e.WellFormed := by
  unfold insertEntry
  split_ifs with hz
  · exact h
  · exact forall_snoc h ⟨has,hac,fun hn => hz (Amount.isZero_iff.mpr hn)⟩

lemma automatedSettlementLegs_balanced (has : assetID ≠ "") (htr : d.treasuryReceived = d.received)
    (hle : d.credited.n ≤ d.received.n) (hp : d.credited.n ≠ 0) :
    ∃ legs, automatedSettlementLegs accounts assetID d = .ok legs ∧
      validateBalanced legs = .ok () := by
  have hsu : d.received.sub d.credited =
      .ok ⟨d.received.n - d.credited.n,lt_of_le_of_lt (Nat.sub_le _ _) d.received.fits⟩ :=
    Amount.sub_eq_ok.mpr ⟨hle,rfl⟩
  obtain ⟨legs,hl⟩ : ∃ legs, automatedSettlementLegs accounts assetID d = .ok legs :=
    ⟨_,by rw [automatedSettlementLegs,hsu]⟩
  have hto := total_automatedSettlementLegs hl
  refine ⟨legs,hl,validateBalanced_eq_ok.mpr ⟨?_,?_,?_,?_⟩⟩
  · rw [automatedSettlementLegs,hsu,Except.ok.injEq] at hl
    rw [← hl]
    unfold insertEntry
    split_ifs <;> simp_all
  · rw [automatedSettlementLegs,hsu,Except.ok.injEq] at hl
    rw [← hl]
    have hn : ∀ e ∈ ([] : List LedgerEntry), e.WellFormed :=
      fun _ he => absurd he List.not_mem_nil
    exact forall_wellFormed_insertEntry has accounts.unmatchedOverpaymentLiability_ne
      (forall_wellFormed_insertEntry has accounts.merchantSettlementLiability_ne
        (forall_wellFormed_insertEntry has accounts.treasuryAsset_ne hn))
  · intro direction asset
    have hf := d.received.fits
    obtain ⟨hde,hcr⟩ := hto asset
    cases direction
    · rw [hde,htr]
      split_ifs <;> omega
    · rw [hcr]
      split_ifs <;> omega
  · intro asset
    rw [(hto asset).1,(hto asset).2,htr]

end Ocrypt.SettlementLegs
