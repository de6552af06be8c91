import ExponentCore.Lib.Windowed
import ExponentCore.Vault.Handlers

/-!
# Limits on the interest that is claimed

`verify_claim_limits`, which `collect_interest` calls before anything else, and runs of it. A call
that fails is rolled back with its transaction.
-/

set_option autoImplicit false

namespace ExponentCore

namespace ClaimLimits

/-- A window that has elapsed starts again now. -/
def verifyClaimLimits (l : ClaimLimits) (amount : UInt64) (currentTimestamp : UInt32) :
    Outcome ClaimLimits := do
  let windowEnd ← addU32 l.claimWindowStartTimestamp l.claimWindowDurationSeconds
  let l :=
    if windowEnd < currentTimestamp then
      { l with
        claimWindowStartTimestamp := currentTimestamp
        totalClaimAmountInWindow := 0 }
    else l
  let total ← addU64 l.totalClaimAmountInWindow amount
  require (total ≤ l.maxClaimAmountPerWindow) .claimLimitExceeded
  let total ← unwrap (checkedAdd l.totalClaimAmountInWindow amount)
  .ok { l with totalClaimAmountInWindow := total }

/-- The same limits, in another window. -/
structure SameTerms (l l' : ClaimLimits) : Prop where
  maxClaimAmountPerWindow : l'.maxClaimAmountPerWindow = l.maxClaimAmountPerWindow
  claimWindowDurationSeconds : l'.claimWindowDurationSeconds = l.claimWindowDurationSeconds

theorem verifyClaimLimits_sameTerms {l l' : ClaimLimits} {amount : UInt64} {now : UInt32}
    (h : l.verifyClaimLimits amount now = .ok l') : l.SameTerms l' := by
  simp only [verifyClaimLimits, bind_eq_ok, Except.ok.injEq] at h
  obtain ⟨_, -, _, -, _, -, _, -, rfl⟩ := h
  split <;> exact ⟨rfl, rfl⟩

end ClaimLimits

/-- The arguments of a call. -/
structure ClaimCall where
  amount : UInt64
  currentTimestamp : UInt32
deriving DecidableEq

def ClaimLimits.step (l : ClaimLimits) (c : ClaimCall) : Outcome ClaimLimits :=
  l.verifyClaimLimits c.amount c.currentTimestamp

/-- A call that was accepted becomes a claim of the window that it leaves. -/
def ClaimLimits.record (_ : ClaimLimits) (c : ClaimCall) (l' : ClaimLimits)
    (h : List Windowed.Claim) : List Windowed.Claim :=
  h ++ [⟨l'.claimWindowStartTimestamp.toNat, c.currentTimestamp.toNat, c.amount.toNat⟩]

/-- Limits with the claims that they have accepted. -/
abbrev ClaimLimits.logged : ClaimLimits × List Windowed.Claim → ClaimCall →
    Outcome (ClaimLimits × List Windowed.Claim) :=
  Machine.recording ClaimLimits.step ClaimLimits.record

/-- The `collect_interest` instruction with its check of the limits. -/
def collectInterestWithinLimits (vault : Vault) (yieldPosition : YieldTokenPosition)
    (amount : Amount) (currentTimestamp : UInt32) :
    Outcome (Vault × YieldTokenPosition × UInt64 × UInt64) := do
  let amountSy ← amount.toU64 yieldPosition.interest.staged
  let claimLimits ← vault.claimLimits.verifyClaimLimits amountSy currentTimestamp
  collectInterest { vault with claimLimits } yieldPosition amount

end ExponentCore
