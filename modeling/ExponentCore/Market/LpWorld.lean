import ExponentCore.Lib.Machine
import ExponentCore.Market.LpHandlers

/-!
# A market with its LP positions

The accounts that the instructions for staked LP tokens share: the market, the LP positions, and the
market's token accounts for farm mints. `step` runs one instruction on them; an instruction that
fails leaves them as they were, so a run is a `Machine.run`. The clock is the time of the last
successful step that read it.

The SY program is outside the repository. Of it the world keeps what the market may claim of each
reward; it pays claims out of that, and `accrue` is its own change of these amounts.
-/

set_option autoImplicit false

namespace ExponentCore

structure LpWorld (K : Type) where
  market : MarketTwo K
  lpPositions : List LpPosition
  /-- what the SY program would pay the market of each of its rewards -/
  amountsClaimable : List UInt64
  /-- the balances of the market's token accounts for farm mints -/
  tokenFarm : Pubkey → UInt64
  clock : UInt32

inductive LpOp
  | initLpPosition (owner : Pubkey)
  | depositLp (now : UInt32) (position : Nat) (amount : UInt64)
  | withdrawLp (now : UInt32) (position : Nat) (amount : UInt64)
  | marketCollectEmission (position : Nat) (emissionIndex : UInt16)
  | addMarketEmission (cpiAccounts : CpiAccounts) (tokenEmission : Pubkey)
  | removeMarketEmission (emissionIndex : UInt8)
  | addFarm (now : UInt32) (mintNew : Pubkey) (tokenRate : UInt64) (untilTimestamp : UInt32)
  | modifyFarm (now : UInt32) (mint : Pubkey) (newExpirationTimestamp : UInt32) (newRate : UInt64)
  | claimFarmEmissions (position : Nat) (mint : Pubkey) (amount : Amount)
  /-- the SY program pays rewards to the market's position, or lists new ones -/
  | accrue (amountsClaimable : List UInt64)

namespace LpWorld

variable {K : Type} (w : LpWorld K)

/-- A market as `MarketTwo::new` leaves it, with any token accounts. -/
structure Fresh : Prop where
  lpEscrowAmount : w.market.lpEscrowAmount = 0
  emissions : w.market.emissions = []
  lpFarm : w.market.lpFarm = {}
  lpPositions : w.lpPositions = []

/-- The farms brought up to a time, which is the first thing that most handlers do. -/
def advanced (now : UInt32) : Outcome (LpWorld K) := do
  let lpFarm ← w.market.lpFarm.increaseShareIndexes now w.market.lpEscrowAmount
  .ok { w with market := { w.market with lpFarm }, clock := now }

/-- Runs a handler on the market and one position. -/
def withPosition (now : UInt32) (position : Nat)
    (f : MarketTwo K → LpPosition → Outcome (MarketTwo K × LpPosition)) : Outcome (LpWorld K) := do
  let p ← getAt w.lpPositions position
  let (market, p) ← f w.market p
  .ok { w with market, lpPositions := w.lpPositions.set position p, clock := now }

/-- Runs a handler on the market and one of its farm token accounts. -/
def withTokenFarm (now : UInt32) (mint : Pubkey)
    (f : MarketTwo K → UInt64 → Outcome (MarketTwo K × UInt64)) : Outcome (LpWorld K) := do
  let (market, tokenFarm) ← f w.market (w.tokenFarm mint)
  .ok { w with market, tokenFarm := Function.update w.tokenFarm mint tokenFarm, clock := now }

def step : LpOp → Outcome (LpWorld K)
  | .initLpPosition owner =>
    .ok { w with lpPositions := w.lpPositions ++ [LpPosition.newFromMarket w.market owner] }
  | .depositLp now position amount =>
    w.withPosition now position fun m p => ExponentCore.depositLp m p now w.amountsClaimable amount
  | .withdrawLp now position amount =>
    w.withPosition now position fun m p => ExponentCore.withdrawLp m p now w.amountsClaimable amount
  | .marketCollectEmission position emissionIndex => do
    let p ← getAt w.lpPositions position
    let (market, p, amountsClaimable) ←
      ExponentCore.marketCollectEmission w.market p w.amountsClaimable emissionIndex
    .ok { w with market, lpPositions := w.lpPositions.set position p, amountsClaimable }
  | .addMarketEmission cpiAccounts tokenEmission =>
    .ok { w with market := ExponentCore.addMarketEmission w.market cpiAccounts tokenEmission }
  | .removeMarketEmission emissionIndex => do
    let market ← ExponentCore.removeMarketEmission w.market emissionIndex
    -- the SY program drops the reward at the same time
    .ok { w with market, amountsClaimable := w.amountsClaimable.eraseIdx emissionIndex.toNat }
  | .addFarm now mintNew tokenRate untilTimestamp =>
    w.withTokenFarm now mintNew fun m t => ExponentCore.addFarm m t now mintNew tokenRate
      untilTimestamp
  | .modifyFarm now mint newExpirationTimestamp newRate =>
    w.withTokenFarm now mint fun m t => ExponentCore.modifyFarm m t now mint newExpirationTimestamp
      newRate
  | .claimFarmEmissions position mint amount => do
    let p ← getAt w.lpPositions position
    let (p, tokenFarm) ←
      ExponentCore.claimFarmEmissions w.market p (w.tokenFarm mint) mint amount
    .ok { w with
      lpPositions := w.lpPositions.set position p
      tokenFarm := Function.update w.tokenFarm mint tokenFarm }
  | .accrue amountsClaimable => .ok { w with amountsClaimable }

end LpWorld

namespace LpOp

variable {K : Type}

/-- The time that an operation reads. -/
def time : LpOp → Option UInt32
  | .depositLp now _ _ | .withdrawLp now _ _ | .addFarm now _ _ _ | .modifyFarm now _ _ _ =>
    some now
  | _ => none

/-- Time does not run backwards. -/
def Timed (w : LpWorld K) (op : LpOp) : Prop := ∀ now ∈ op.time, w.clock ≤ now

instance (w : LpWorld K) (op : LpOp) : Decidable (op.Timed w) :=
  match h : op.time with
  | none => isTrue (by simp [Timed, h])
  | some now => decidable_of_iff (w.clock ≤ now) (by simp [Timed, h])

/-- The SY program takes nothing back: what is claimable only grows, and rewards stay listed. -/
def Accrues (w : LpWorld K) : LpOp → Prop
  | .accrue amountsClaimable =>
    w.amountsClaimable.length ≤ amountsClaimable.length ∧
      ∀ x ∈ w.amountsClaimable.zip amountsClaimable, x.1 ≤ x.2
  | _ => True

instance (w : LpWorld K) : ∀ op : LpOp, Decidable (op.Accrues w)
  | .accrue cs =>
    have : Decidable (∀ x ∈ w.amountsClaimable.zip cs, x.1 ≤ x.2) := List.decidableBAll _ _
    inferInstanceAs (Decidable (_ ∧ _))
  | .initLpPosition _ | .depositLp .. | .withdrawLp .. | .marketCollectEmission ..
  | .addMarketEmission .. | .removeMarketEmission _ | .addFarm .. | .modifyFarm ..
  | .claimFarmEmissions .. => instDecidableTrue

/-- The operation takes an emission off the market's list. -/
def RemovesMarketEmission : LpOp → Prop
  | .removeMarketEmission _ => True
  | _ => False

instance : ∀ op : LpOp, Decidable op.RemovesMarketEmission
  | .removeMarketEmission _ => instDecidableTrue
  | .initLpPosition _ | .depositLp .. | .withdrawLp .. | .marketCollectEmission ..
  | .addMarketEmission .. | .addFarm .. | .modifyFarm .. | .claimFarmEmissions ..
  | .accrue _ => instDecidableFalse

end LpOp

end ExponentCore
