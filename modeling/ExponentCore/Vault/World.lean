import ExponentCore.Lib.Machine
import ExponentCore.Vault.Handlers

/-!
# A vault with its positions

The accounts that the vault instructions share: the vault, its own position and the positions of the
users. `step` runs one instruction on them; an instruction that fails leaves them as they were, so
a run is a `Machine.run`. The clock is the time of the last successful step that read it.

The SY program is outside the repository: what it reports, a `SyState`, is part of the operation.
The limits on claims are settings, and a run here allows what it does under any limits, changed at
any time; `VaultWorld.instructWithinLimits` is the instruction under those that are set.
-/

set_option autoImplicit false

namespace ExponentCore

structure VaultWorld where
  vault : Vault
  yieldPosition : YieldTokenPosition
  userPositions : List YieldTokenPosition
  clock : UInt32

inductive VaultOp
  | initializeYieldPosition (owner vault : Pubkey)
  | strip (now : UInt32) (syState : SyState) (amountSy : UInt64)
  | merge (now : UInt32) (syState : SyState) (amountPy : UInt64)
  | depositYt (now : UInt32) (syState : SyState) (user : Nat) (amount : UInt64)
  | withdrawYt (now : UInt32) (syState : SyState) (user : Nat) (amount : UInt64)
  | stageYield (now : UInt32) (syState : SyState) (user : Nat)
  | collectInterest (now : UInt32) (user : Nat) (amount : Amount)
  | collectTreasuryInterest (amount : Amount) (kind : CollectTreasuryInterestKind)
  | collectEmission (user : Nat) (index : UInt16) (amount : Amount)
  | collectTreasuryEmission (index : UInt16) (amount : Amount) (kind : CollectTreasuryEmissionKind)
  | addEmission (cpiAccounts : CpiAccounts) (syState : SyState)
      (tokenAccount treasuryTokenAccount : Pubkey) (feeBps : UInt16)
  | removeVaultEmission (emissionIndex : UInt8)

/-- The arguments of `initialize_vault`, and the keys of the vault and of its authority. -/
structure InitializeVaultArgs where
  startTimestamp : UInt32
  duration : UInt32
  interestBpsFee : UInt16
  cpiAccounts : CpiAccounts
  minOpSizeStrip : UInt64
  minOpSizeMerge : UInt64
  vault : Pubkey
  authority : Pubkey

namespace VaultWorld

/-- `initialize_vault`: everything that is not set here starts at zero. -/
def initializeVault (args : InitializeVaultArgs) : VaultWorld where
  vault :=
    { startTs := args.startTimestamp
      duration := args.duration
      interestBpsFee := args.interestBpsFee
      minOpSizeStrip := args.minOpSizeStrip
      minOpSizeMerge := args.minOpSizeMerge
      status := statusCanStrip ||| statusCanMerge ||| statusCanDepositYt ||| statusCanWithdrawYt
        ||| statusCanCollectInterest ||| statusCanCollectEmissions
      cpiAccounts := args.cpiAccounts
      claimLimits :=
        { claimWindowStartTimestamp := args.startTimestamp
          totalClaimAmountInWindow := 0
          maxClaimAmountPerWindow := 0xffffffffffffffff
          claimWindowDurationSeconds := args.duration }
      maxPySupply := 0xffffffffffffffff }
  yieldPosition := { owner := args.authority, vault := args.vault }
  userPositions := []
  clock := 0

variable (w : VaultWorld)

/-- All positions, the vault's own first. -/
def positions : List YieldTokenPosition := w.yieldPosition :: w.userPositions

/-- Runs a handler that reads the SY state and touches only the vault's own position. -/
def withOwnPosition (now : UInt32)
    (f : Vault → YieldTokenPosition → Outcome (Vault × YieldTokenPosition × UInt64)) :
    Outcome VaultWorld := do
  let (vault, yieldPosition, _) ← f w.vault w.yieldPosition
  .ok { w with vault, yieldPosition, clock := now }

/-- Runs a handler that reads the SY state and touches the vault's and a user's position. -/
def withUserPosition (now : UInt32) (user : Nat)
    (f : Vault → YieldTokenPosition → YieldTokenPosition →
      Outcome (Vault × YieldTokenPosition × YieldTokenPosition)) :
    Outcome VaultWorld := do
  let userYieldPosition ← getAt w.userPositions user
  let (vault, yieldPosition, userYieldPosition) ← f w.vault w.yieldPosition userYieldPosition
  .ok { w with
    vault, yieldPosition, userPositions := w.userPositions.set user userYieldPosition,
    clock := now }

def step : VaultOp → Outcome VaultWorld
  | .initializeYieldPosition owner vault =>
    .ok { w with userPositions := w.userPositions ++ [{ owner, vault }] }
  | .strip now syState amountSy =>
    w.withOwnPosition now fun v p => handleStrip v p now syState amountSy
  | .merge now syState amountPy =>
    w.withOwnPosition now fun v p => handleMerge v p now syState amountPy
  | .depositYt now syState user amount =>
    w.withUserPosition now user fun v p u => handleDepositYt v p u syState now amount
  | .withdrawYt now syState user amount =>
    w.withUserPosition now user fun v p u => handleWithdrawYt v p u syState now amount
  | .stageYield now syState user =>
    w.withUserPosition now user fun v p u => handleStageYtYield v p u syState now
  | .collectInterest _ user amount => do
    let u ← getAt w.userPositions user
    let (vault, u, _) ← ExponentCore.collectInterest w.vault u amount
    .ok { w with vault, userPositions := w.userPositions.set user u }
  | .collectTreasuryInterest amount kind => do
    let (vault, yieldPosition) ←
      ExponentCore.collectTreasuryInterest w.vault w.yieldPosition amount kind
    .ok { w with vault, yieldPosition }
  | .collectEmission user index amount => do
    let u ← getAt w.userPositions user
    let (u, _) ← ExponentCore.collectEmission w.vault u index amount
    .ok { w with userPositions := w.userPositions.set user u }
  | .collectTreasuryEmission index amount kind => do
    let (vault, yieldPosition) ←
      ExponentCore.collectTreasuryEmission w.vault w.yieldPosition index amount kind
    .ok { w with vault, yieldPosition }
  | .addEmission cpiAccounts syState tokenAccount treasuryTokenAccount feeBps => do
    let vault ← { w.vault with cpiAccounts }.addEmission tokenAccount syState
      treasuryTokenAccount feeBps
    .ok { w with vault }
  | .removeVaultEmission emissionIndex => do
    let vault ← ExponentCore.removeVaultEmission w.vault emissionIndex
    .ok { w with vault }

end VaultWorld

namespace VaultOp

/-- The time and the SY state that an operation records in the vault. -/
def syRead : VaultOp → Option (UInt32 × SyState)
  | .strip now syState _ | .merge now syState _ | .depositYt now syState _ _
  | .withdrawYt now syState _ _ | .stageYield now syState _ => some (now, syState)
  | _ => none

/-- What the environment guarantees: time does not run backwards and rates are positive. -/
def Sane (w : VaultWorld) (op : VaultOp) : Prop :=
  ∀ r ∈ op.syRead, w.clock ≤ r.1 ∧ 0 < r.2.exchangeRate

instance (w : VaultWorld) (op : VaultOp) : Decidable (op.Sane w) :=
  inferInstanceAs (Decidable (∀ r ∈ op.syRead, _))

/-- The part of the handlers' `validate` that looks at the time: stripping and moving YT are for an
active vault. -/
def Timely (w : VaultWorld) : VaultOp → Prop
  | .strip now _ _ | .depositYt now _ _ _ | .withdrawYt now _ _ _ =>
    w.vault.isActive now = .ok true
  | _ => True

instance (w : VaultWorld) : ∀ op : VaultOp, Decidable (op.Timely w)
  | .strip .. | .depositYt .. | .withdrawYt .. => inferInstanceAs (Decidable (_ = _))
  | .initializeYieldPosition .. | .merge .. | .stageYield .. | .collectInterest ..
  | .collectTreasuryInterest .. | .collectEmission .. | .collectTreasuryEmission ..
  | .addEmission .. | .removeVaultEmission .. => instDecidableTrue

end VaultOp

/-! ## Stagings -/

/-- Whose position it is. -/
inductive Holder
  | vault
  | user (index : Nat)
deriving DecidableEq

/-- A call of `earn_all_with_tracking`: the position that earns, and the vault it earns from. -/
structure Staging where
  holder : Holder
  vault : Vault
  position : YieldTokenPosition

namespace VaultWorld

variable (w : VaultWorld)

/-- The vault's own position earns right after the SY state is recorded. -/
def ownStaging (now : UInt32) (syState : SyState) : List Staging :=
  match w.vault.updateFromSyState syState now with
  | .ok v => [⟨.vault, v, w.yieldPosition⟩]
  | .error _ => []

/-- A user's position earns after the vault's own. -/
def userStaging (now : UInt32) (syState : SyState) (user : Nat) : List Staging :=
  match w.userPositions[user]?, updateVaultYield w.vault w.yieldPosition now syState with
  | some u, .ok (v, _) => [⟨.user user, v, u⟩]
  | _, _ => []

/-- The stagings on the way through an operation, in order. -/
def stagingsDuring : VaultOp → List Staging
  | .strip now syState _ | .merge now syState _ => w.ownStaging now syState
  | .depositYt now syState user _ | .withdrawYt now syState user _ | .stageYield now syState user =>
    w.ownStaging now syState ++ w.userStaging now syState user
  | .collectInterest _ user _ =>
    (w.userPositions[user]?).toList.map fun u => ⟨.user user, w.vault, u⟩
  | _ => []

/-- The stagings of an operation; a failing one is undone. -/
def stagings (op : VaultOp) : List Staging :=
  match w.step op with
  | .ok _ => w.stagingsDuring op
  | .error _ => []

end VaultWorld

end ExponentCore
