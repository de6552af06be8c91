import ExponentCore.Vault.State

/-!
# The market account

The fields of `MarketTwo` that its functions read or write, in the order of the source, and the
methods of `state/market_two.rs` for the rewards of staked LP tokens. There are two kinds: emissions
of the SY program, which reports how much the market may claim, and farms, which an admin funds for
a span of time. Both have an index per staked LP token.

The prices of a market are `f64` in the source. They are elements of an arbitrary type `K` here.
-/

set_option autoImplicit false

namespace ExponentCore

structure MarketFinancials (K : Type) where
  expirationTs : UInt64
  /-- tracked apart from the PT token account -/
  ptBalance : UInt64
  /-- tracked apart from the market's position in the SY program -/
  syBalance : UInt64
  lnFeeRateRoot : K
  lastLnImpliedRate : K
  rateScalarRoot : K

/-- One reward of the SY program. -/
structure MarketEmission where
  tokenEscrow : Pubkey
  /-- what one staked LP token has earned -/
  lpShareIndex : Number
  /-- what the market could claim when it last looked, less what it has claimed since -/
  lastSeenStaged : UInt64
deriving DecidableEq

structure FarmEmission where
  mint : Pubkey
  tokenRate : UInt64
  expiryTimestamp : UInt32
  /-- what one staked LP token has earned -/
  index : Number
deriving DecidableEq

structure LpFarm where
  lastSeenTimestamp : UInt32 := 0
  farmEmissions : List FarmEmission := []
deriving DecidableEq

structure LiquidityNetBalanceLimits where
  windowStartTimestamp : UInt32
  windowStartNetBalance : UInt64
  maxNetBalanceChangeNegativePercentage : UInt16
  maxNetBalanceChangePositivePercentage : UInt32
  windowDurationSeconds : UInt32
deriving DecidableEq

structure MarketTwo (K : Type) where
  feeTreasurySyBps : UInt16
  statusFlags : UInt8
  financials : MarketFinancials K
  emissions : List MarketEmission := []
  lpFarm : LpFarm := {}
  maxLpSupply : UInt64
  /-- the LP tokens that are staked -/
  lpEscrowAmount : UInt64 := 0
  cpiAccounts : CpiAccounts
  isCurrentFlashSwap : Bool := false
  liquidityNetBalanceLimits : LiquidityNetBalanceLimits

/-! ## Emissions of the SY program -/

namespace MarketEmission

/-- One round of the loop of `update_emissions_from_position_state`. -/
def update (e : MarketEmission) (amountClaimable lpStaked : UInt64) : Outcome MarketEmission := do
  let difference ← subU64 amountClaimable e.lastSeenStaged
  let amountToIncrease :=
    ((Number.fromNaturalU64 difference).checkedDiv (Number.fromNaturalU64 lpStaked)).getD 0
  let lpShareIndex ← e.lpShareIndex.add amountToIncrease
  .ok { e with lpShareIndex, lastSeenStaged := amountClaimable }

/-- The loop of `update_emissions_from_position_state`, over what the SY program reports. -/
def updateAll (lpStaked : UInt64) :
    List MarketEmission → List UInt64 → Outcome (List MarketEmission)
  | es, [] => .ok es
  | [], _ :: _ => .error (.panic .indexOutOfBounds)
  | e :: es, c :: cs => do
    let e ← e.update c lpStaked
    let es ← updateAll lpStaked es cs
    .ok (e :: es)

end MarketEmission

/-! ## Farms -/

/-- `delta_time_farm`: the seconds since the farm was last seen, up to its expiry. -/
def deltaTimeFarm (expiryTimestamp lastSeenTimestamp currentTimestamp : UInt32) : UInt32 :=
  let now := min expiryTimestamp currentTimestamp
  if now ≤ lastSeenTimestamp then 0 else now - lastSeenTimestamp

/-- `inc_index` -/
def FarmEmission.incIndex (e : FarmEmission) (timeDelta : UInt32) (lpStaked : UInt64) :
    Outcome FarmEmission := do
  let tokensEmitted ← mulU64 e.tokenRate timeDelta.toUInt64
  let index ← e.index.add (Number.fromRatio tokensEmitted lpStaked)
  .ok { e with index }

namespace LpFarm

variable (f : LpFarm)

/-- The loop of `increase_share_indexes`. -/
def increaseAll (lastSeenTimestamp currentTimestamp : UInt32) (lpStaked : UInt64) :
    List FarmEmission → Outcome (List FarmEmission)
  | [] => .ok []
  | e :: es => do
    let e ← e.incIndex (deltaTimeFarm e.expiryTimestamp lastSeenTimestamp currentTimestamp) lpStaked
    let es ← increaseAll lastSeenTimestamp currentTimestamp lpStaked es
    .ok (e :: es)

def increaseShareIndexes (currentTimestamp : UInt32) (lpStaked : UInt64) : Outcome LpFarm := do
  let farmEmissions ← increaseAll f.lastSeenTimestamp currentTimestamp lpStaked f.farmEmissions
  .ok { lastSeenTimestamp := currentTimestamp, farmEmissions }

def getLastSeenIndices : List Number := f.farmEmissions.map FarmEmission.index

def findFarmEmissionPosition (mint : Pubkey) : Option Nat :=
  f.farmEmissions.findIdx? fun e => e.mint = mint

end LpFarm

namespace MarketTwo

variable {K : Type} (m : MarketTwo K)

def updateEmissionsFromPositionState (amountsClaimable : List UInt64) (lpStaked : UInt64) :
    Outcome (MarketTwo K) := do
  let emissions ← MarketEmission.updateAll lpStaked m.emissions amountsClaimable
  .ok { m with emissions }

/-- `emissions.get_last_seen_indices` -/
def emissionIndexes : List Number := m.emissions.map MarketEmission.lpShareIndex

def addFarm (tokenRate : UInt64) (expiryTs : UInt32) (tokenMint : Pubkey) : MarketTwo K :=
  { m with lpFarm :=
    { m.lpFarm with
      farmEmissions := m.lpFarm.farmEmissions ++ [⟨tokenMint, tokenRate, expiryTs, 0⟩] } }

end MarketTwo

end ExponentCore
