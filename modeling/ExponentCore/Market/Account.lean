import ExponentCore.Market.Financials

/-!
# Creating a market and checking its limits

`MarketTwo::new`, the status flags, and the limits on how much the supply of LP tokens may change in
a window of time.
-/

set_option autoImplicit false

namespace ExponentCore

/-! ## Status flags -/

def statusCanDepositLiquidity : UInt8 := 0b00000001
def statusCanWithdrawLiquidity : UInt8 := 0b00000010
def statusCanBuyPt : UInt8 := 0b00000100
def statusCanSellPt : UInt8 := 0b00001000
def statusCanBuyYt : UInt8 := 0b00010000
def statusCanSellYt : UInt8 := 0b00100000

def allFlags : UInt8 :=
  statusCanDepositLiquidity ||| statusCanWithdrawLiquidity ||| statusCanBuyPt ||| statusCanSellPt
    ||| statusCanBuyYt ||| statusCanSellYt

/-! ## Limits -/

/-- `u64::checked_add_signed` -/
def checkedAddSigned (a : UInt64) (n : Int) : Option UInt64 :=
  if 0 ≤ a.toNat + n then toU64 (a.toNat + n).toNat else none

namespace LiquidityNetBalanceLimits

/-- A change in hundredths of a percent of the balance at the start, rounded up, and cast to an
integer type with the given maximum. The `f64` is read as exact: nothing of nothing is not a number,
which is cast to zero, and anything else of nothing is infinite. -/
def percentage (change startBalance : UInt64) (max : Nat) : Nat :=
  if startBalance = 0 then if change = 0 then 0 else max
  else min max ((change.toNat * 10000 + startBalance.toNat - 1) / startBalance.toNat)

def verifyChange (l : LiquidityNetBalanceLimits) (newBalance : UInt64) : Outcome Unit :=
  let startBalance := l.windowStartNetBalance
  if startBalance ≤ newBalance then
    require (percentage (newBalance - startBalance) startBalance (2 ^ 32 - 1)
      ≤ l.maxNetBalanceChangePositivePercentage.toNat) .netBalanceChangeExceedsLimit
  else
    require (percentage (startBalance - newBalance) startBalance (2 ^ 16 - 1)
      ≤ l.maxNetBalanceChangeNegativePercentage.toNat) .netBalanceChangeExceedsLimit

/-- A window that has elapsed starts again from the current balance. -/
def verifyLimits (l : LiquidityNetBalanceLimits) (currentTimestamp : UInt32)
    (currentNetBalance : UInt64) (proposedChange : Int) : Outcome LiquidityNetBalanceLimits := do
  let windowEnd ← addU32 l.windowStartTimestamp l.windowDurationSeconds
  let l :=
    if windowEnd < currentTimestamp then
      { l with
        windowStartTimestamp := currentTimestamp
        windowStartNetBalance := currentNetBalance }
    else l
  let newBalance ← unwrap (checkedAddSigned currentNetBalance proposedChange)
  l.verifyChange newBalance
  .ok l

end LiquidityNetBalanceLimits

/-! ## The market -/

/-- The arguments of `market_two_init`. -/
structure MarketTwoInitArgs (N : Type) where
  lnFeeRateRoot : N
  rateScalarRoot : N
  initRateAnchor : N
  syExchangeRate : Number
  ptInit : UInt64
  syInit : UInt64
  feeTreasurySyBps : UInt16
  cpiAccounts : CpiAccounts
  seedId : UInt8

namespace MarketTwo

variable {N : Type}

def checkStatusFlags (m : MarketTwo N) (requiredFlags : UInt8) : Bool :=
  m.statusFlags &&& requiredFlags = requiredFlags

def checkSupplyLp (m : MarketTwo N) (lpSupply : UInt64) : Bool := lpSupply ≤ m.maxLpSupply

def isExpired (m : MarketTwo N) (now : UInt64) : Bool := m.financials.expirationTs < now

def isActive (m : MarketTwo N) (now : UInt64) : Bool := !m.isExpired now

/-- `MarketTwo::new` -/
def new [Num N] (expirationTs now : UInt64) (args : MarketTwoInitArgs N) :
    Outcome (MarketTwo N) := do
  let asset ← (Number.fromNaturalU64 args.syInit).mul args.syExchangeRate
  let asset ← asset.floorU64
  let secRemaining ← expect "Vault expired" (checkedSub expirationTs now)
  let rateScalar := TimeCurve.rateScalar args.rateScalarRoot secRemaining
  let lnImpliedRate :=
    TimeCurve.lnImpliedRate args.ptInit asset rateScalar args.initRateAnchor secRemaining
  assertTrue (args.feeTreasurySyBps < 10000) "Treasury fee BPS is too high"
  assertTrue (args.seedId ≠ 0) "New seed id cannot be zero"
  .ok
    { feeTreasurySyBps := args.feeTreasurySyBps
      statusFlags := allFlags
      financials :=
        { expirationTs
          ptBalance := args.ptInit
          syBalance := args.syInit
          lnFeeRateRoot := args.lnFeeRateRoot
          lastLnImpliedRate := lnImpliedRate
          rateScalarRoot := args.rateScalarRoot }
      maxLpSupply := 0xffffffffffffffff
      cpiAccounts := args.cpiAccounts
      liquidityNetBalanceLimits :=
        { windowStartTimestamp := now.toUInt32
          windowStartNetBalance := 0
          maxNetBalanceChangeNegativePercentage := 10000
          maxNetBalanceChangePositivePercentage := 0xffffffff
          windowDurationSeconds := 0 } }

end MarketTwo

/-- `calc_lp_tokens_out`: the geometric mean; the root is that of the exact product. -/
def calcLpTokensOut (ptIn syIn : UInt64) : Outcome UInt64 := do
  let product ← expect "Overflow occurred during multiplication" (toU64 (ptIn.toNat * syIn.toNat))
  .ok (UInt64.ofNat (Nat.sqrt product.toNat))

end ExponentCore
