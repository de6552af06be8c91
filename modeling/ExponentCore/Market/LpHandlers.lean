import ExponentCore.Market.LpPosition
import ExponentCore.Vault.Handlers

/-!
# The handlers of staked LP tokens

The state changes of `deposit_lp`, `withdraw_lp`, `market_collect_emission`, `claim_farm_emissions`
and of the admin instructions for emissions and farms. A handler that mutates accounts in the source
takes them and returns them here; `tokenFarm` is the balance of the market's token account for the
mint of a farm.
-/

set_option autoImplicit false

namespace ExponentCore

variable {K : Type}

/-! ## Staking -/

/-- What `deposit_lp` and `withdraw_lp` do first: the market looks at its position in the SY program
and at the clock, and the LP position stages what it has earned. -/
def updateAndStage (market : MarketTwo K) (lpPosition : LpPosition) (currentUnixTimestamp : UInt32)
    (amountsClaimable : List UInt64) : Outcome (MarketTwo K × LpPosition) := do
  let currentLpEscrowAmount := market.lpEscrowAmount
  let market ← market.updateEmissionsFromPositionState amountsClaimable currentLpEscrowAmount
  let lpFarm ← market.lpFarm.increaseShareIndexes currentUnixTimestamp currentLpEscrowAmount
  let market := { market with lpFarm }
  let lpPosition ← lpPosition.stageAll market.emissionIndexes market.lpFarm.getLastSeenIndices
  .ok (market, lpPosition)

def depositLp (market : MarketTwo K) (lpPosition : LpPosition) (currentUnixTimestamp : UInt32)
    (amountsClaimable : List UInt64) (amount : UInt64) : Outcome (MarketTwo K × LpPosition) := do
  let (market, lpPosition) ←
    updateAndStage market lpPosition currentUnixTimestamp amountsClaimable
  let lpEscrowAmount ← unwrap (checkedAdd market.lpEscrowAmount amount)
  let lpPosition ← lpPosition.addLp amount
  .ok ({ market with lpEscrowAmount }, lpPosition)

def withdrawLp (market : MarketTwo K) (lpPosition : LpPosition) (currentUnixTimestamp : UInt32)
    (amountsClaimable : List UInt64) (amount : UInt64) : Outcome (MarketTwo K × LpPosition) := do
  let (market, lpPosition) ←
    updateAndStage market lpPosition currentUnixTimestamp amountsClaimable
  let lpPosition ← lpPosition.rmLp amount
  let lpEscrowAmount ← unwrap (checkedSub market.lpEscrowAmount amount)
  .ok ({ market with lpEscrowAmount }, lpPosition)

/-! ## Emissions of the SY program -/

/-- Adds an emission at the end of the list. -/
def addMarketEmission (market : MarketTwo K) (cpiAccounts : CpiAccounts) (tokenEmission : Pubkey) :
    MarketTwo K :=
  { market with cpiAccounts, emissions := market.emissions ++ [⟨tokenEmission, 0, 0⟩] }

/-- `MarketAdminAction::RemoveMarketEmission` -/
def removeMarketEmission (market : MarketTwo K) (emissionIndex : UInt8) : Outcome (MarketTwo K) :=
  if emissionIndex.toNat < market.emissions.length then
    .ok { market with emissions := market.emissions.eraseIdx emissionIndex.toNat }
  else .error (.panic .indexOutOfBounds)

/-- `cpi_claim_emission`: the SY program pays what it has reported as claimable, and no more. -/
def claimEmission (amountsClaimable : List UInt64) (index : Nat) (amount : UInt64) :
    Outcome (List UInt64) :=
  match amountsClaimable[index]? with
  | some claimable =>
    if amount.toNat ≤ claimable.toNat then .ok (amountsClaimable.set index (claimable - amount))
    else .error .cpi
  | none => .error .cpi

/-- The state changes of `market_collect_emission`, at the SY program too. -/
def marketCollectEmission (market : MarketTwo K) (lpPosition : LpPosition)
    (amountsClaimable : List UInt64) (emissionIndex : UInt16) :
    Outcome (MarketTwo K × LpPosition × List UInt64) := do
  let emission ← getAt market.emissions emissionIndex.toNat
  let t ← getAt lpPosition.emissions emissionIndex.toNat
  let amount := t.staged
  let trackers ← setAt lpPosition.emissions emissionIndex.toNat { t with staged := 0 }
  let _claimAccounts ← getAt market.cpiAccounts.claimEmission emissionIndex.toNat
  let amountsClaimable ← claimEmission amountsClaimable emissionIndex.toNat amount
  let lastSeenStaged ← unwrap (checkedSub emission.lastSeenStaged amount)
  let emissions ← setAt market.emissions emissionIndex.toNat { emission with lastSeenStaged }
  .ok ({ market with emissions }, { lpPosition with emissions := trackers }, amountsClaimable)

/-! ## Farms -/

/-- The state changes of `add_farm`; the admin pays for the whole span. -/
def addFarm (market : MarketTwo K) (tokenFarm : UInt64) (currentUnixTimestamp : UInt32)
    (mintNew : Pubkey) (tokenRate : UInt64) (untilTimestamp : UInt32) :
    Outcome (MarketTwo K × UInt64) := do
  require (¬ market.lpFarm.farmEmissions.any fun farm => farm.mint = mintNew) .farmAlreadyExists
  let lpFarm ← market.lpFarm.increaseShareIndexes currentUnixTimestamp market.lpEscrowAmount
  let market := { market with lpFarm }.addFarm tokenRate untilTimestamp mintNew
  let duration ← unwrap (checkedSubU32 untilTimestamp currentUnixTimestamp)
  let requiredAmount ← unwrap (toU64 (duration.toUInt64.toNat * tokenRate.toNat))
  let tokenFarm ← transferIn tokenFarm requiredAmount
  .ok (market, tokenFarm)

/-- The transfer at the end of `modify_farm`, from the admin or to the admin. -/
def transferDifference (newTokensNeeded : Int) (tokenFarm : UInt64) : Outcome UInt64 :=
  if newTokensNeeded > asI64 tokenFarm then do
    let requiredAmount ← inI64 (newTokensNeeded - asI64 tokenFarm)
    transferIn tokenFarm (asU64 requiredAmount)
  else do
    let surplusAmount ← inI64 (asI64 tokenFarm - newTokensNeeded)
    transferOut tokenFarm (asU64 surplusAmount)

/-- The state changes of `modify_farm`. The token account is filled up, or emptied down, to what the
new rate needs until the new expiry. -/
def modifyFarm (market : MarketTwo K) (tokenFarm : UInt64) (currentTimestamp : UInt32)
    (mint : Pubkey) (newExpirationTimestamp : UInt32) (newRate : UInt64) :
    Outcome (MarketTwo K × UInt64) := do
  let lpFarm ← market.lpFarm.increaseShareIndexes currentTimestamp market.lpEscrowAmount
  let farmIndex ← unwrap (lpFarm.findFarmEmissionPosition mint)
  let currentFarm ← getAt lpFarm.farmEmissions farmIndex
  let farmEmissions ← setAt lpFarm.farmEmissions farmIndex
    { currentFarm with expiryTimestamp := newExpirationTimestamp, tokenRate := newRate }
  let newTokensNeeded ←
    inI64 (((newExpirationTimestamp.toNat : Int) - currentTimestamp.toNat) * asI64 newRate)
  let tokenFarm ← transferDifference newTokensNeeded tokenFarm
  .ok ({ market with lpFarm := { lpFarm with farmEmissions } }, tokenFarm)

/-- The state changes of `claim_farm_emissions`. Nothing is staged first. -/
def claimFarmEmissions (market : MarketTwo K) (lpPosition : LpPosition) (tokenFarm : UInt64)
    (mint : Pubkey) (amount : Amount) : Outcome (LpPosition × UInt64) := do
  let index ← okOr .farmDoesNotExist (market.lpFarm.findFarmEmissionPosition mint)
  let t ← getAt lpPosition.farms index
  let amountToSend ← amount.toU64 t.staged
  let tokenFarm ← transferOut tokenFarm amountToSend
  let t ← t.decStaged amountToSend
  let farms ← setAt lpPosition.farms index t
  .ok ({ lpPosition with farms }, tokenFarm)

end ExponentCore
