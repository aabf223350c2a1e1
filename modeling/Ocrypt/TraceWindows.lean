import Ocrypt.Domain

/-! Which blocks have to be traced for internal transfers: the balance of a watched account over a
window of blocks is compared with its reported inflow, and a window that is not explained is
halved until single blocks are left. -/
namespace Ocrypt.TraceWindows
open Domain Fallible List

structure AccountState where
  (balance nonce : ℕ)
  code : String
  deriving DecidableEq

structure BalanceWindow where
  delta : ℤ
  (nonceUnchanged eoa : Bool)

/-- The answers of a provider about an account at a height. -/
abbrev Probe := String → ℕ → Except Failure AccountState

structure EVMInternalFilter where
  probes : Probe × Probe
  watched : List String
  nativeAssetID : String

def nativeInflows (events : List TransferEvent) (address nativeAsset : String)
    (fromHeight toHeight : ℕ) : ℕ :=
  ((events.filter fun e => fromHeight ≤ e.blockHeight ∧ e.blockHeight ≤ toHeight ∧
    e.identity.toAddress = address ∧ e.identity.assetID = nativeAsset ∧
    (e.kind = "native_top_level" ∨ e.kind = "native_internal")).map (·.amount.n)).sum

section
variable (s : EVMInternalFilter) (events : List TransferEvent)

variable (fromHeight toHeight : ℕ)

def balanceWindow (address : String) : Except Failure BalanceWindow := do
  let start ← s.probes.1 address (fromHeight - 1)
  let last ← s.probes.1 address toHeight
  let start' ← s.probes.2 address (fromHeight - 1)
  let last' ← s.probes.2 address toHeight
  require (start = start' ∧ last = last')
    ⟨.unwrapped,"independent providers disagree on watched account state"⟩
  pure ⟨(last.balance : ℤ) - start.balance,start.nonce = last.nonce,
    start.code = "0x" ∧ last.code = "0x"⟩

/-- Add the window of one more account; a trace is needed when it is not explained. -/
def watch (seen : List (String × BalanceWindow) × Bool) (address : String) :
    Except Failure (List (String × BalanceWindow) × Bool) := do
  let w ← balanceWindow s fromHeight toHeight address
  pure (seen.1 ++ [(address,w)],seen.2 || !w.eoa || !w.nonceUnchanged ||
    w.delta ≠ nativeInflows events address s.nativeAssetID fromHeight toHeight)

def balanceWindows : Except Failure (List (String × BalanceWindow) × Bool) :=
  if fromHeight = 0 then .ok ([],true)
  else traverse (watch s events fromHeight toHeight) (s.watched.insertionSort (· ≤ ·)) ([],false)

/-- Halve a window that is not explained; a window of `n` blocks needs a fuel of `n`. -/
def locate : ℕ → (first last : ℕ) → Except Failure (List ℕ)
  | 0, _, _ => .ok []
  | fuel+1, first, last => do
    let (_,unexplained) ← balanceWindows s events first last
    if !unexplained then pure []
    else if first = last then pure [first]
    else do
      let middle := first+(last - first) / 2
      let lower ← locate fuel first middle
      let upper ← locate fuel (middle+1) last
      pure (lower ++ upper)

def traceBlocks : Except Failure (List (String × BalanceWindow) × List ℕ) := do
  let (full,needed) ← balanceWindows s events fromHeight toHeight
  if !needed then pure (full,[])
  else do
    let heights ← locate s events (toHeight - fromHeight+1) fromHeight toHeight
    pure (full,heights)

end

/-- An account after every block of a chain, and what is reported to flow in over a window. -/
structure Account where
  state : ℕ → AccountState
  inflow : ℕ → ℕ → ℕ
  split : ∀ {first middle last : ℕ}, first ≤ middle+1 → middle ≤ last →
    inflow first last = inflow first middle+inflow (middle+1) last

namespace Account
variable (x : Account)

/-- The balance change that is not reported. -/
def slack (first last : ℕ) : ℤ :=
  (x.state last).balance - (x.state (first - 1)).balance - x.inflow first last

/-- No code, nothing sent, and what is reported received. -/
structure Explained (first last : ℕ) : Prop where
  plain : (x.state (first - 1)).code = "0x" ∧ (x.state last).code = "0x"
  idle : (x.state (first - 1)).nonce = (x.state last).nonce
  balanced : x.slack first last = 0

instance (first last : ℕ) : Decidable (x.Explained first last) :=
  decidable_of_iff (_ ∧ _ ∧ _) ⟨fun ⟨h₁,h₂,h₃⟩ => ⟨h₁,h₂,h₃⟩,fun ⟨h₁,h₂,h₃⟩ => ⟨h₁,h₂,h₃⟩⟩

/-- Nonces only grow, code does not come and go, and an account that is only paid to receives at
least what is reported. -/
structure Lawful : Prop where
  nonces : Monotone fun h => (x.state h).nonce
  code : ∀ i j k, i ≤ j → j ≤ k → (x.state i).code = "0x" → (x.state k).code = "0x" →
    (x.state j).code = "0x"
  inflow : ∀ h, 1 ≤ h → (x.state (h - 1)).nonce = (x.state h).nonce →
    (x.state (h - 1)).code = "0x" → (x.state h).code = "0x" → (x.inflow h h : ℤ) ≤
      (x.state h).balance - (x.state (h - 1)).balance

variable {x} {first middle last : ℕ}

lemma slack_split (hf : first ≤ middle+1) (hl : middle ≤ last) :
    x.slack first last = x.slack first middle+x.slack (middle+1) last := by
  have hi := x.split hf hl
  simp only [slack,Nat.add_sub_cancel]
  omega

lemma slack_nonneg (hp : 1 ≤ first) (hf : first ≤ last+1)
    (h : ∀ k, first ≤ k → k ≤ last → 0 ≤ x.slack k k) : 0 ≤ x.slack first last := by
  by_cases he : first = last+1
  · subst he
    have hz := x.slack_split le_rfl (le_refl last)
    omega
  · induction last with
    | zero => omega
    | succ last ih =>
      have hu := h (last+1) (by omega) le_rfl
      by_cases ho : first = last+1
      · exact ho ▸ hu
      · rw [slack_split (show first ≤ last+1 by omega) (Nat.le_add_right last 1)]
        have hl := ih (by omega) (fun k hk hle => h k hk (by omega)) ho
        omega

/-- Explained windows compose, and wrong changes inside a window do not cancel. -/
lemma explained_iff (hl : x.Lawful) (hp : 1 ≤ first) (hle : first ≤ last) :
    x.Explained first last ↔ ∀ h, first ≤ h → h ≤ last → x.Explained h h := by
  constructor
  · intro hal
    have hco := fun k hk hkl =>
      hl.code (first - 1) k last hk hkl hal.plain.1 hal.plain.2
    have hn : ∀ k, first - 1 ≤ k → k ≤ last →
        (x.state k).nonce = (x.state (first - 1)).nonce := by
      intro k hk hkl
      have hlw := hl.nonces hk
      have hhi := hl.nonces hkl
      have he := hal.idle
      simp only at hlw hhi
      omega
    have hi : ∀ k, first ≤ k → k ≤ last → (x.state (k - 1)).nonce = (x.state k).nonce := by
      intro k hk hkl
      rw [hn (k - 1) (by omega) (by omega),hn k (by omega) hkl]
    have hsl : ∀ k, first ≤ k → k ≤ last → 0 ≤ x.slack k k := fun k hk hkl =>
      sub_nonneg.mpr (hl.inflow k (by omega) (hi k hk hkl) (hco _ (by omega) (by omega))
        (hco k (by omega) hkl))
    intro h hh hhl
    refine ⟨⟨hco _ (by omega) (by omega),hco h (by omega) hhl⟩,hi h hh hhl,?_⟩
    -- the window is the blocks below, the block itself and the blocks above
    have hz := hal.balanced
    rw [slack_split (show first ≤ h - 1+1 by omega) (show h - 1 ≤ last by omega),
      Nat.sub_add_cancel (by omega),slack_split (show h ≤ h+1 by omega) hhl] at hz
    have hbe := x.slack_nonneg hp (show first ≤ h - 1+1 by omega)
      fun k hk hkl => hsl k hk (by omega)
    have hao := x.slack_nonneg (by omega) (show h+1 ≤ last+1 by omega)
      fun k hk hkl => hsl k (by omega) hkl
    have hse := hsl h hh hhl
    omega
  · intro hal
    induction last, hle using Nat.le_induction with
    | base => exact hal first le_rfl le_rfl
    | succ last hle ih =>
      have hlo := ih fun h hh hhl => hal h hh (by omega)
      have hu := hal (last+1) (by omega) le_rfl
      refine ⟨⟨hlo.plain.1,hu.plain.2⟩,hlo.idle.trans hu.idle,?_⟩
      rw [slack_split (show first ≤ last+1 by omega) (Nat.le_add_right last 1),hlo.balanced,
        hu.balanced]
      rfl

end Account

lemma nativeInflows_split {events : List TransferEvent} {address asset : String}
    {first middle last : ℕ} (hf : first ≤ middle+1) (hl : middle ≤ last) :
    nativeInflows events address asset first last =
      nativeInflows events address asset first middle +
        nativeInflows events address asset (middle+1) last := by
  induction events with
  | nil => rfl
  | cons e events ih =>
    simp only [nativeInflows,filter_cons,apply_ite (List.map _),apply_ite List.sum,
      map_cons,sum_cons,decide_eq_true_eq] at ih ⊢
    by_cases hours : e.identity.toAddress = address ∧ e.identity.assetID = asset ∧
        (e.kind = "native_top_level" ∨ e.kind = "native_internal")
    · simp only [hours,and_true]
      split_ifs <;> omega
    · simp only [hours,and_false]
      exact ih

/-- The history of the watched accounts over a chain, which honest probes answer from. -/
abbrev History := String → ℕ → AccountState

section
variable (history : History) (watched : List String) (asset : String) (events : List TransferEvent)

def honest : EVMInternalFilter :=
  let probe : Probe := fun address height => .ok (history address height)
  ⟨(probe,probe),watched,asset⟩

def account (address : String) : Account :=
  ⟨history address,nativeInflows events address asset,nativeInflows_split⟩

/-- The blocks of a window that are not explained by themselves, in increasing order. -/
def unexplained (first last : ℕ) : List ℕ :=
  (List.range' first (last+1 - first)).filter fun h =>
    ∃ a ∈ watched, ¬(account history asset events a).Explained h h

variable {history watched asset events} {first middle last : ℕ}

lemma watch_honest (seen : List (String × BalanceWindow) × Bool) (a : String) :
    ∃ windows, watch (honest history watched asset) events first last seen a =
      .ok (windows,seen.2 || decide (¬(account history asset events a).Explained first last)) := by
  simp only [watch,balanceWindow,honest,ok_bind]
  refine ⟨_,congrArg (fun needed => Except.ok (_,needed)) ?_⟩
  rw [Bool.or_assoc,Bool.or_assoc]
  refine congrArg (seen.2 || ·) (Bool.eq_iff_iff.mpr ?_)
  simp only [Bool.or_eq_true,Bool.not_eq_true',decide_eq_false_iff_not]
  constructor
  · refine fun h => decide_eq_true fun he => ?_
    rcases h with h | h | h
    · exact h he.plain
    · exact h he.idle
    · exact of_decide_eq_true h (sub_eq_zero.mp he.balanced)
  · intro h
    by_contra hal
    simp only [not_or,not_not] at hal
    have heq := not_not.mp fun hne => hal.2.2 (decide_eq_true hne)
    exact of_decide_eq_true h ⟨hal.1,hal.2.1,sub_eq_zero.mpr heq⟩

lemma balanceWindows_honest (hp : 1 ≤ first) :
    ∃ windows, balanceWindows (honest history watched asset) events first last = .ok (windows,
      decide (∃ a ∈ watched, ¬(account history asset events a).Explained first last)) := by
  have hl : ∀ (addresses : List String) (seen : List (String × BalanceWindow) × Bool),
      ∃ windows, traverse (watch (honest history watched asset) events first last) addresses seen =
        .ok (windows,seen.2 ||
          decide (∃ a ∈ addresses, ¬(account history asset events a).Explained first last)) := by
    intro addresses
    induction addresses with
    | nil => exact fun seen => ⟨seen.1,by simp⟩
    | cons a addresses ih =>
      intro seen
      obtain ⟨windows,hw⟩ := watch_honest seen a
      obtain ⟨windows',hr⟩ := ih (windows,_)
      refine ⟨windows',traverse_cons_eq_ok.mpr ⟨_,hw,?_⟩⟩
      rw [hr]
      simp [Bool.or_assoc]
  obtain ⟨windows,h⟩ := hl (watched.insertionSort (· ≤ ·)) ([],false)
  refine ⟨windows,?_⟩
  rw [balanceWindows,if_neg (by omega)]
  exact h.trans (by simp [mem_insertionSort])

lemma unexplained_eq_nil_iff (hl : ∀ a ∈ watched, (account history asset events a).Lawful)
    (hp : 1 ≤ first) (hle : first ≤ last) :
    unexplained history watched asset events first last = [] ↔
      ¬∃ a ∈ watched, ¬(account history asset events a).Explained first last := by
  simp only [unexplained,filter_eq_nil_iff,mem_range'_1,decide_eq_true_eq,not_exists,
    not_and,not_not]
  constructor
  · intro h a ha
    rw [Account.explained_iff (hl a ha) hp hle]
    exact fun k hk hkl => h k ⟨hk,by omega⟩ a ha
  · intro h k hk a ha
    exact (Account.explained_iff (hl a ha) hp hle).mp (h a ha) k hk.1 (by omega)

lemma unexplained_split (hf : first ≤ middle) (hl : middle < last) :
    unexplained history watched asset events first last =
      unexplained history watched asset events first middle ++
        unexplained history watched asset events (middle+1) last := by
  have hr : List.range' first (last+1 - first) = List.range' first (middle+1 - first) ++
      List.range' (middle+1) (last+1 - (middle+1)) := by
    rw [show last+1 - first = (middle+1 - first)+(last+1 - (middle+1)) by omega,
      ← range'_append_1,show first+(middle+1 - first) = middle+1 by omega]
  rw [unexplained,hr,filter_append]
  rfl

lemma locate_honest (hla : ∀ a ∈ watched, (account history asset events a).Lawful) (fuel : ℕ)
    (hf : last - first < fuel) (hp : 1 ≤ first) (hle : first ≤ last) :
    locate (honest history watched asset) events fuel first last =
      .ok (unexplained history watched asset events first last) := by
  induction fuel generalizing first last with
  | zero => omega
  | succ fuel ih =>
    have hni := unexplained_eq_nil_iff hla hp hle
    obtain ⟨windows,hw⟩ := balanceWindows_honest hp
    rw [locate,hw,ok_bind]
    by_cases hn : ∃ a ∈ watched, ¬(account history asset events a).Explained first last
    · simp only [hn,decide_true,Bool.not_true,Bool.false_eq_true,if_false]
      split_ifs with ho
      · subst ho
        rw [unexplained,Nat.add_sub_cancel_left,range'_one,
          filter_cons_of_pos (by simpa using hn)]
        rfl
      · generalize hm : first+(last - first) / 2 = middle
        have hl := ih (show middle - first < fuel by omega) hp (by omega)
        have hu := ih (show last - (middle+1) < fuel by omega) (by omega) (by omega)
        rw [hl,hu,unexplained_split (show first ≤ middle by omega) (show middle < last by omega)]
        rfl
    · simp only [hn]
      rw [hni.mpr hn]
      rfl

end

/-- With probes that answer from one lawful history, the blocks that are traced are exactly the
blocks of the range that are not explained by themselves, in increasing order. -/
theorem trace_blocks_exact {history : History} {watched : List String} {asset : String}
    {events : List TransferEvent} (hlaws : ∀ a ∈ watched, (account history asset events a).Lawful)
    {fromHeight toHeight : ℕ} (hpos : 1 ≤ fromHeight) (hle : fromHeight ≤ toHeight) :
    ∃ windows, traceBlocks (honest history watched asset) events fromHeight toHeight =
      .ok (windows,unexplained history watched asset events fromHeight toHeight) := by
  obtain ⟨windows,hw⟩ := balanceWindows_honest hpos
  refine ⟨windows,?_⟩
  rw [traceBlocks,hw]
  by_cases hn : ∃ a ∈ watched,
      ¬(account history asset events a).Explained fromHeight toHeight
  · simp only [hn]
    rw [locate_honest hlaws _ (by omega) hpos hle]
    rfl
  · simp only [hn]
    rw [(unexplained_eq_nil_iff hlaws hpos hle).mpr hn]
    rfl

theorem trace_blocks_sample : let history : History := fun _ h => ⟨if h < 2 then 0 else 5,0,"0x"⟩
    ∃ windows, traceBlocks (honest history ["0xa"] "eth") [] 1 3 = .ok (windows,[2]) := by
  intro history
  have hl : ∀ a ∈ ["0xa"], (account history "eth" [] a).Lawful := by
    refine fun a _ => ⟨fun _ _ _ => le_rfl,fun _ _ _ _ _ _ _ => rfl,fun h hh _ _ _ => ?_⟩
    simp only [account,nativeInflows,history,filter_nil,map_nil,sum_nil]
    split_ifs <;> omega
  obtain ⟨windows,h⟩ := trace_blocks_exact hl (le_refl 1) (show 1 ≤ 3 by decide)
  have hbl : unexplained history ["0xa"] "eth" [] 1 3 = [2] := by decide +kernel
  exact ⟨windows,hbl ▸ h⟩

end Ocrypt.TraceWindows
