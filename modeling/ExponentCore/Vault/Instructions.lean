import ExponentCore.Vault.ClaimLimits
import ExponentCore.Vault.World

/-!
# The vault instructions

An instruction checks its `validate` and then runs its handler. `VaultOp.validate` has the checks of
`Strip`, `Merge`, `DepositYt`, `WithdrawYt`, `CollectInterest` and `CollectEmission`; `StageYield`
has none, and the admin's instructions check who signs.

`collect_interest` checks the limits on claims besides, which are settings: `instructWithinLimits` is
the instruction with that check, and `instruct` allows what it does under any limits.
-/

set_option autoImplicit false

namespace ExponentCore

namespace VaultOp

def validate (vault : Vault) : VaultOp → Outcome Unit
  | .strip now _ amount => do
    require (vault.checkStatusFlags statusCanStrip = true) .strippingDisabled
    require ((← vault.isActive now) = true) .vaultIsNotActive
    require (vault.isMinOpSizeStrip amount = true) .operationAmountTooSmall
  | .merge _ _ amountPy => do
    require (vault.checkStatusFlags statusCanMerge = true) .mergingDisabled
    require (vault.isMinOpSizeMerge amountPy = true) .operationAmountTooSmall
  | .depositYt now _ _ _ => do
    require (vault.checkStatusFlags statusCanDepositYt = true) .depositingYtDisabled
    require ((← vault.isActive now) = true) .vaultExpired
  | .withdrawYt now _ _ _ => do
    require (vault.checkStatusFlags statusCanWithdrawYt = true) .withdrawingYtDisabled
    require ((← vault.isActive now) = true) .vaultExpired
  | .collectInterest .. =>
    require (vault.checkStatusFlags statusCanCollectInterest = true) .collectingInterestDisabled
  | .collectEmission _ _ _ =>
    require (vault.checkStatusFlags statusCanCollectEmissions = true) .collectingEmissionsDisabled
  | _ => .ok ()

/-- The Solana clock does not run backwards. -/
def Clocked (w : VaultWorld) (op : VaultOp) : Prop := ∀ r ∈ op.syRead, w.clock ≤ r.1

instance (w : VaultWorld) (op : VaultOp) : Decidable (op.Clocked w) :=
  inferInstanceAs (Decidable (∀ r ∈ op.syRead, _))

end VaultOp

namespace VaultWorld

variable {w w' : VaultWorld} {op : VaultOp}

def instruct (w : VaultWorld) (op : VaultOp) : Outcome VaultWorld := do
  op.validate w.vault
  w.step op

/-- The instruction under the limits that are set. -/
def instructWithinLimits (w : VaultWorld) (op : VaultOp) : Outcome VaultWorld := do
  op.validate w.vault
  match op with
  | .collectInterest now user amount => do
    let u ← getAt w.userPositions user
    let (vault, u, _) ← collectInterestWithinLimits w.vault u amount now
    .ok { w with vault, userPositions := w.userPositions.set user u }
  | op => w.step op

/-- The same vault with other limits. -/
def withClaimLimits (w : VaultWorld) (claimLimits : ClaimLimits) : VaultWorld :=
  { w with vault := { w.vault with claimLimits } }

/-- Within the limits it is the instruction, in the window that the limits are in then. -/
theorem instruct_of_withinLimits (h : w.instructWithinLimits op = .ok w') :
    ∃ l, w.vault.claimLimits.SameTerms l ∧ (w.withClaimLimits l).instruct op = .ok w' := by
  cases op with
  | collectInterest now user amount =>
    simp only [instructWithinLimits, collectInterestWithinLimits, bind_eq_ok, Except.ok.injEq,
      Prod.exists] at h
    obtain ⟨_, hv, u, hu, v, u', _, _, ⟨n, -, l, hl, hf⟩, rfl⟩ := h
    refine ⟨l, ClaimLimits.verifyClaimLimits_sameTerms hl, ?_⟩
    simp only [instruct, step, bind_eq_ok, Prod.exists]
    exact ⟨_, hv, u, hu, v, u', _, _, hf, rfl⟩
  | _ => exact ⟨w.vault.claimLimits, ⟨rfl, rfl⟩, h⟩

/-- Only claims have limits. -/
theorem instructWithinLimits_eq (hop : ∀ now user amount, op ≠ .collectInterest now user amount) :
    w.instructWithinLimits op = w.instruct op := by
  cases op with
  | collectInterest now user amount => exact absurd rfl (hop now user amount)
  | _ => rfl

theorem timely_of_validate {k : Unit} (h : op.validate w.vault = .ok k) : op.Timely w := by
  cases op with
  | strip =>
    simp only [VaultOp.validate, bind_eq_ok, require_eq_ok] at h
    obtain ⟨-, -, active, hactive, -, rfl, -⟩ := h
    exact hactive
  | depositYt | withdrawYt =>
    simp only [VaultOp.validate, bind_eq_ok, require_eq_ok] at h
    obtain ⟨-, -, active, hactive, rfl⟩ := h
    exact hactive
  | _ => trivial

theorem instruct_eq_ok (h : w.instruct op = .ok w') : op.Timely w ∧ w.step op = .ok w' := by
  simp only [instruct, bind_eq_ok] at h
  obtain ⟨_, hv, hs⟩ := h
  exact ⟨timely_of_validate hv, hs⟩

end VaultWorld

end ExponentCore
