import ExponentCore.Market.Account
import ExponentCore.Market.LpWorld
import ExponentCore.Vault.Instructions

/-!
# A vault, its market and their tokens

`Bank` is everything that the instructions of a market and of its vault share: the accounts of the
program, the market's token accounts, its position in the SY program, and the users' token accounts.
The instructions below move tokens together with the books; each of them calls other programs only.

The token accounts of users are theirs alone: no user passes an account of the market for one. SPL
transfers and the SY program move exactly the stated amounts. What the SY program reports is an
argument, as is the clock.
-/

set_option autoImplicit false

namespace ExponentCore

/-- The token accounts of the users, by user. -/
structure UserTokens where
  sy : Nat → UInt64
  pt : Nat → UInt64
  yt : Nat → UInt64
  lp : Nat → UInt64

def debit (accounts : Nat → UInt64) (user : Nat) (amount : UInt64) : Outcome (Nat → UInt64) := do
  let b ← transferOut (accounts user) amount
  .ok (Function.update accounts user b)

def credit (accounts : Nat → UInt64) (user : Nat) (amount : UInt64) : Outcome (Nat → UInt64) := do
  let b ← transferIn (accounts user) amount
  .ok (Function.update accounts user b)

structure Bank (N : Type) where
  vaultWorld : VaultWorld
  lpWorld : LpWorld N
  users : UserTokens
  /-- the supply of LP tokens -/
  mintLp : UInt64
  /-- the PT that the market holds -/
  tokenPtEscrow : UInt64
  /-- SY on its way between a user and the SY program -/
  tokenSyEscrow : UInt64
  /-- the SY of the market in the SY program -/
  syPosition : UInt64
  tokenFeeTreasurySy : UInt64

namespace Bank

variable {N : Type} (b : Bank N)

def market : MarketTwo N := b.lpWorld.market

def vault : Vault := b.vaultWorld.vault

def setMarket (market : MarketTwo N) : Bank N := { b with lpWorld := { b.lpWorld with market } }

def setVault (vault : Vault) : Bank N := { b with vaultWorld := { b.vaultWorld with vault } }

/-! ## Tokens -/

def debitSy (user : Nat) (amount : UInt64) : Outcome (Bank N) := do
  let sy ← debit b.users.sy user amount
  .ok { b with users := { b.users with sy } }

def creditSy (user : Nat) (amount : UInt64) : Outcome (Bank N) := do
  let sy ← credit b.users.sy user amount
  .ok { b with users := { b.users with sy } }

def debitPt (user : Nat) (amount : UInt64) : Outcome (Bank N) := do
  let pt ← debit b.users.pt user amount
  .ok { b with users := { b.users with pt } }

def creditPt (user : Nat) (amount : UInt64) : Outcome (Bank N) := do
  let pt ← credit b.users.pt user amount
  .ok { b with users := { b.users with pt } }

def debitYt (user : Nat) (amount : UInt64) : Outcome (Bank N) := do
  let yt ← debit b.users.yt user amount
  .ok { b with users := { b.users with yt } }

def creditYt (user : Nat) (amount : UInt64) : Outcome (Bank N) := do
  let yt ← credit b.users.yt user amount
  .ok { b with users := { b.users with yt } }

def debitLp (user : Nat) (amount : UInt64) : Outcome (Bank N) := do
  let lp ← debit b.users.lp user amount
  .ok { b with users := { b.users with lp } }

def creditLp (user : Nat) (amount : UInt64) : Outcome (Bank N) := do
  let lp ← credit b.users.lp user amount
  .ok { b with users := { b.users with lp } }

/-- A user pays PT to the market. -/
def receivePt (user : Nat) (amount : UInt64) : Outcome (Bank N) := do
  let b ← b.debitPt user amount
  let tokenPtEscrow ← transferIn b.tokenPtEscrow amount
  .ok { b with tokenPtEscrow }

/-- The market pays PT to a user. -/
def sendPt (user : Nat) (amount : UInt64) : Outcome (Bank N) := do
  let tokenPtEscrow ← transferOut b.tokenPtEscrow amount
  { b with tokenPtEscrow }.creditPt user amount

/-- A user pays SY into the escrow. -/
def receiveSy (user : Nat) (amount : UInt64) : Outcome (Bank N) := do
  let b ← b.debitSy user amount
  let tokenSyEscrow ← transferIn b.tokenSyEscrow amount
  .ok { b with tokenSyEscrow }

/-- A user is paid SY from the escrow. -/
def sendSy (user : Nat) (amount : UInt64) : Outcome (Bank N) := do
  let tokenSyEscrow ← transferOut b.tokenSyEscrow amount
  { b with tokenSyEscrow }.creditSy user amount

/-- `do_deposit_sy`: from the escrow into the market's position. -/
def depositSy (amount : UInt64) : Outcome (Bank N) := do
  let tokenSyEscrow ← transferOut b.tokenSyEscrow amount
  let syPosition ← transferIn b.syPosition amount
  .ok { b with tokenSyEscrow, syPosition }

/-- `do_withdraw_sy`: from the market's position into the escrow. -/
def withdrawSy (amount : UInt64) : Outcome (Bank N) := do
  let syPosition ← transferOut b.syPosition amount
  let tokenSyEscrow ← transferIn b.tokenSyEscrow amount
  .ok { b with tokenSyEscrow, syPosition }

/-- `cpi_mint_sy`: the SY program mints SY for base tokens. -/
def mintSy (user : Nat) (syOutAmount : UInt64) : Outcome (Bank N) := b.creditSy user syOutAmount

/-- `cpi_redeem_sy`: the SY program burns SY for base tokens. -/
def redeemSy (user : Nat) (amountSy : UInt64) : Outcome (Bank N) := b.debitSy user amountSy

/-! ## Vault instructions -/

/-- Returns the amount of PT and YT minted. -/
def strip (user : Nat) (now : UInt64) (syState : SyState) (amountSy : UInt64) :
    Outcome (Bank N × UInt64) := do
  let b ← b.debitSy user amountSy
  let vaultWorld ← b.vaultWorld.instruct (.strip now.toUInt32 syState amountSy)
  let (_, _, amountPyOut) ←
    handleStrip b.vault b.vaultWorld.yieldPosition now.toUInt32 syState amountSy
  let b ← { b with vaultWorld }.creditPt user amountPyOut
  let b ← b.creditYt user amountPyOut
  .ok (b, amountPyOut)

/-- The YT of a merge is burned while the vault is active. -/
def burnYt (user : Nat) (active : Bool) (amountPy : UInt64) : Outcome (Bank N) :=
  if active then b.debitYt user amountPy else .ok b

/-- Returns the amount of SY paid out. -/
def merge (user : Nat) (now : UInt64) (syState : SyState) (amountPy : UInt64) :
    Outcome (Bank N × UInt64) := do
  let vaultWorld ← b.vaultWorld.instruct (.merge now.toUInt32 syState amountPy)
  let (_, _, amountSyOut) ←
    handleMerge b.vault b.vaultWorld.yieldPosition now.toUInt32 syState amountPy
  let active ← vaultWorld.vault.isActive now.toUInt32
  let b ← { b with vaultWorld }.debitPt user amountPy
  let b ← b.burnYt user active amountPy
  let b ← b.creditSy user amountSyOut
  .ok (b, amountSyOut)

def depositYt (user position : Nat) (now : UInt64) (syState : SyState) (amount : UInt64) :
    Outcome (Bank N) := do
  let vaultWorld ← b.vaultWorld.instruct (.depositYt now.toUInt32 syState position amount)
  { b with vaultWorld }.debitYt user amount

/-- Returns what the user is paid. -/
def collectInterest (user position : Nat) (now : UInt64) (amount : Amount) :
    Outcome (Bank N × UInt64) := do
  let p ← getAt b.vaultWorld.userPositions position
  let vaultWorld ←
    b.vaultWorld.instructWithinLimits (.collectInterest now.toUInt32 position amount)
  let (_, _, amountToUser, _) ← collectInterestWithinLimits b.vault p amount now.toUInt32
  let b ← { b with vaultWorld }.creditSy user amountToUser
  .ok (b, amountToUser)

/-! ## Staking LP tokens -/

def depositLp (user position : Nat) (now : UInt64) (amount : UInt64) : Outcome (Bank N) := do
  let lpWorld ← b.lpWorld.step (.depositLp now.toUInt32 position amount)
  { b with lpWorld }.debitLp user amount

def withdrawLp (user position : Nat) (now : UInt64) (amount : UInt64) : Outcome (Bank N) := do
  let lpWorld ← b.lpWorld.step (.withdrawLp now.toUInt32 position amount)
  { b with lpWorld }.creditLp user amount

/-! ## Trades -/

/-- The SY of a trade. The treasury's part of the fee is in the amount of a purchase, and on top of
the amount of a sale. -/
def transferSy (user : Nat) (isBuyPt : Bool) (amount treasuryFeeAmount : UInt64) :
    Outcome (Bank N) :=
  if isBuyPt then do
    let amountToDeposit ← unwrap (checkedSub amount treasuryFeeAmount)
    let b ← b.receiveSy user amountToDeposit
    let b ← b.depositSy amountToDeposit
    let b ← b.debitSy user treasuryFeeAmount
    let tokenFeeTreasurySy ← transferIn b.tokenFeeTreasurySy treasuryFeeAmount
    .ok { b with tokenFeeTreasurySy }
  else do
    let withdrawn ← unwrap (checkedAdd amount treasuryFeeAmount)
    let b ← b.withdrawSy withdrawn
    let b ← b.sendSy user amount
    let tokenSyEscrow ← transferOut b.tokenSyEscrow treasuryFeeAmount
    let tokenFeeTreasurySy ← transferIn b.tokenFeeTreasurySy treasuryFeeAmount
    .ok { b with tokenSyEscrow, tokenFeeTreasurySy }

def transferPt (user : Nat) (isBuyPt : Bool) (amount : UInt64) : Outcome (Bank N) :=
  if isBuyPt then b.sendPt user amount else b.receivePt user amount

def setFinancials (financials : MarketFinancials N) : Bank N :=
  b.setMarket { b.market with financials }

def validateTradePt (netTraderPt : Int) : Outcome Unit :=
  if 0 < netTraderPt then
    require (b.market.checkStatusFlags statusCanBuyPt = true) .buyingPtDisabled
  else require (b.market.checkStatusFlags statusCanSellPt = true) .sellingPtDisabled

def tradePt [Num N] (user : Nat) (now : UInt64) (syExchangeRate : Number)
    (netTraderPt syConstraint : Int) : Outcome (Bank N × MarketTradeResult) := do
  b.validateTradePt netTraderPt
  assertTrue (b.market.isActive now = true) "market is expired"
  let (financials, r) ← b.market.financials.tradePt syExchangeRate netTraderPt now
    b.market.isCurrentFlashSwap b.market.feeTreasurySyBps
  assertTrue (0 < netTraderPt ∧ r.netTraderSy < 0 ∨ netTraderPt < 0 ∧ 0 < r.netTraderSy)
    "Invalid trade result -- SY change and PT change must have opposite signs"
  assertTrue (syConstraint ≤ r.netTraderSy) "Slippage exceeded for buying PT"
  let isBuyPt := decide (0 < netTraderPt)
  let b ← (b.setFinancials financials).transferPt user isBuyPt (asU64 |r.netTraderPt|)
  let b ← b.transferSy user isBuyPt (asU64 |r.netTraderSy|) r.treasuryFeeAmount
  .ok (b, r)

/-! ## Liquidity -/

def depositLiquidity [Num N] (user : Nat) (now : UInt64) (ptIntent syIntent minLpOut : UInt64) :
    Outcome (Bank N × LiqAddResult) := do
  require (b.market.isActive now = true) .vaultIsNotActive
  require (b.market.checkStatusFlags statusCanDepositLiquidity = true)
    .depositingLiquidityDisabled
  let (financials, r) ← b.market.financials.addLiquidity syIntent ptIntent b.mintLp
  require (minLpOut ≤ r.lpOut) .minLpOutNotMet
  let liquidityNetBalanceLimits ←
    b.market.liquidityNetBalanceLimits.verifyLimits now.toUInt32 b.mintLp (asI64 r.lpOut)
  let b := b.setMarket { b.market with financials, liquidityNetBalanceLimits }
  let b ← b.receivePt user r.ptIn
  let b ← b.receiveSy user r.syIn
  let b ← b.creditLp user r.lpOut
  let mintLp ← transferIn b.mintLp r.lpOut
  let b ← { b with mintLp }.depositSy r.syIn
  require (b.market.checkSupplyLp mintLp = true) .lpSupplyMaximumExceeded
  .ok (b, r)

def withdrawLiquidity [Num N] (user : Nat) (now : UInt64) (lpIn minPtOut minSyOut : UInt64) :
    Outcome (Bank N × LiqRmResult) := do
  require (b.market.checkStatusFlags statusCanWithdrawLiquidity = true)
    .withdrawingLiquidityDisabled
  let change ← inI64 (-asI64 lpIn)
  let liquidityNetBalanceLimits ←
    b.market.liquidityNetBalanceLimits.verifyLimits now.toUInt32 b.mintLp change
  let (financials, r) ← b.market.financials.rmLiquidity lpIn b.mintLp
  require (minSyOut ≤ r.syOut) .minSyOutNotMet
  require (minPtOut ≤ r.ptOut) .minPtOutNotMet
  let b := b.setMarket { b.market with financials, liquidityNetBalanceLimits }
  let b ← b.debitLp user lpIn
  let mintLp ← transferOut b.mintLp lpIn
  let b ← { b with mintLp }.withdrawSy r.syOut
  let b ← b.sendPt user r.ptOut
  let b ← b.sendSy user r.syOut
  .ok (b, r)

/-! ## Creating the market -/

/-- `market_two_init`: the market, from the world of its vault and the token accounts of the users.
The market's own accounts are created by the instruction, and the SY program's record of the market
is new. -/
def marketTwoInit [Num N] (vaultWorld : VaultWorld) (users : UserTokens)
    (tokenFeeTreasurySy : UInt64) (tokenFarm : Pubkey → UInt64) (payer : Nat) (now : UInt64)
    (args : MarketTwoInitArgs N) : Outcome (Bank N) := do
  let expirationTs ← addU32 vaultWorld.vault.startTs vaultWorld.vault.duration
  let market ← MarketTwo.new expirationTs.toUInt64 now args
  let lpWorld :=
    { market, lpPositions := [], amountsClaimable := [], tokenFarm, clock := now.toUInt32 }
  let b : Bank N :=
    { vaultWorld, lpWorld, users, mintLp := 0, tokenPtEscrow := 0, tokenSyEscrow := 0,
      syPosition := 0, tokenFeeTreasurySy }
  let b ← b.receivePt payer args.ptInit
  let b ← b.receiveSy payer args.syInit
  let mintLp ← calcLpTokensOut args.ptInit args.syInit
  let b ← { b with mintLp }.creditLp payer mintLp
  b.depositSy args.syInit

end Bank

end ExponentCore
