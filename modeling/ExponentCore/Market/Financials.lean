import ExponentCore.Curve.Math
import ExponentCore.Market.State

/-!
# The books of a market

The methods of `MarketFinancials`: trades against the curve, and liquidity in and out. A trade looks
up the scalar, the anchor and the fee at the current time, prices the trade, moves the balances by
whole units of SY, takes the treasury's part of the fee out of the books, and stores the implied
yield that the new balances stand for.
-/

set_option autoImplicit false

namespace ExponentCore

/-- `try_into` from `u64` to `i64` -/
def toI64 (n : UInt64) : Option Int := if n.toNat < 2 ^ 63 then some n.toNat else none

theorem toI64_eq_some {n : UInt64} {i : Int} :
    toI64 n = some i ↔ n.toNat < 2 ^ 63 ∧ i = n.toNat := by
  unfold toI64
  split
  · rename_i h
    simp only [Option.some.injEq, h, true_and]
    exact eq_comm
  · rename_i h
    simp only [h, reduceCtorEq, false_and]

section
variable {N : Type} [Num N]

/-- The floor is taken before the magnitude, so a payment is rounded away from zero and proceeds are
rounded towards it. -/
def syMagnitudeFromNetTraderAsset (netTraderAsset : N) (syExchangeRate : Number) :
    Outcome UInt64 := do
  let assetMagnitude ←
    expect "f64 overflow for u64" (f64ToU64Checked (Num.abs (Num.floor netTraderAsset)))
  let syMagnitude ← (Number.fromNaturalU64 assetMagnitude).div syExchangeRate
  if Num.isSignNegative netTraderAsset then syMagnitude.ceilU64 else syMagnitude.floorU64

def netTraderSyFromNetTraderAsset (netTraderAsset : N) (syExchangeRate : Number) :
    Outcome Int := do
  let syMagnitude ← syMagnitudeFromNetTraderAsset netTraderAsset syExchangeRate
  let n ← expect "u64 overflow for i64" (toI64 syMagnitude)
  .ok (if Num.isSignNegative netTraderAsset then n * -1 else n)

def syFeeFromAssetFee (assetFee : N) (syExchangeRate : Number) : Outcome UInt64 := do
  let syExchangeRate : N ← unwrap syExchangeRate.toF64
  expect "f64 overflow for u64" (f64ToU64Checked (Num.floor (assetFee / syExchangeRate)))

end

/-- What `trade_pt` reports; a positive change is in the trader's favour. -/
structure MarketTradeResult where
  netTraderPt : Int
  netTraderSy : Int
  syFee : UInt64
  treasuryFeeAmount : UInt64
deriving DecidableEq

structure LiqAddResult where
  ptIn : UInt64
  syIn : UInt64
  lpOut : UInt64
deriving DecidableEq

structure LiqRmResult where
  ptOut : UInt64
  syOut : UInt64
deriving DecidableEq

namespace MarketFinancials

variable {N : Type} (f : MarketFinancials N)

def decPtBalance (amt : UInt64) : Outcome (MarketFinancials N) := do
  let ptBalance ← expect "pt balance underflow" (checkedSub f.ptBalance amt)
  .ok { f with ptBalance }

def incPtBalance (amt : UInt64) : Outcome (MarketFinancials N) := do
  let ptBalance ← expect "pt balance overflow" (checkedAdd f.ptBalance amt)
  .ok { f with ptBalance }

def decSyBalance (amt : UInt64) : Outcome (MarketFinancials N) := do
  let syBalance ← expect "sy balance underflow" (checkedSub f.syBalance amt)
  .ok { f with syBalance }

def incSyBalance (amt : UInt64) : Outcome (MarketFinancials N) := do
  let syBalance ← expect "sy balance overflow" (checkedAdd f.syBalance amt)
  .ok { f with syBalance }

def secRemaining (now : UInt64) : UInt64 :=
  if now ≤ f.expirationTs then f.expirationTs - now else 0

def assetBalance (syExchangeRate : Number) : Outcome Number :=
  (Number.fromNaturalU64 f.syBalance).mul syExchangeRate

variable [Num N]

/-! ## Trades -/

def currentRateScalar (now : UInt64) : N :=
  TimeCurve.rateScalar f.rateScalarRoot (f.secRemaining now)

def currentRateAnchor (syExchangeRate : Number) (now : UInt64) : Outcome N := do
  let asset ← (← f.assetBalance syExchangeRate).floorU64
  .ok (TimeCurve.findRateAnchor f.ptBalance asset (f.currentRateScalar now) f.lastLnImpliedRate
    (f.secRemaining now))

def curFeeRate (now : UInt64) : N := TimeCurve.feeRate f.lnFeeRateRoot (f.secRemaining now)

/-- The asset is cheaper for a buyer and dearer for a seller. -/
def roundAssetBalance (isBuy : Bool) (assetBalance : Number) : Outcome UInt64 :=
  if isBuy then assetBalance.ceilU64 else assetBalance.floorU64

/-- The PT and the SY of a trade change hands. -/
def exchange (isBuy : Bool) (netTraderPt : Int) (marketSyChange : UInt64) :
    Outcome (MarketFinancials N) :=
  if isBuy then do
    let f ← f.decPtBalance (asU64 netTraderPt)
    f.incSyBalance marketSyChange
  else do
    let f ← f.incPtBalance (asU64 (← inI64 (-netTraderPt)))
    f.decSyBalance marketSyChange

/-- `trade_pt`. A positive `net_trader_pt` buys PT. -/
def tradePt (syExchangeRate : Number) (netTraderPt : Int) (now : UInt64)
    (isCurrentFlashSwap : Bool) (feeTreasurySyBps : UInt16) :
    Outcome (MarketFinancials N × MarketTradeResult) := do
  let isBuy := decide (0 < netTraderPt)
  let assetBalance ← roundAssetBalance isBuy (← f.assetBalance syExchangeRate)
  let currentRateScalar := f.currentRateScalar now
  let currentRateAnchor ← f.currentRateAnchor syExchangeRate now
  let tradeResult ← TimeCurve.trade f.ptBalance assetBalance currentRateScalar currentRateAnchor
    (f.curFeeRate now) (Num.fromI64 netTraderPt) isCurrentFlashSwap
  let netTraderSy ← netTraderSyFromNetTraderAsset tradeResult.netTraderAsset syExchangeRate
  let marketSyChange := asU64 |netTraderSy|
  let syFee ← syFeeFromAssetFee tradeResult.assetFee syExchangeRate
  let treasuryFeeAmount := (← mulU64 syFee feeTreasurySyBps.toUInt64) / 10000
  let f ← f.exchange isBuy netTraderPt marketSyChange
  let f ← f.decSyBalance treasuryFeeAmount
  let newAsset ← (← f.assetBalance syExchangeRate).floorU64
  let lastLnImpliedRate := TimeCurve.lnImpliedRate f.ptBalance newAsset currentRateScalar
    currentRateAnchor (f.secRemaining now)
  .ok ({ f with lastLnImpliedRate }, { syFee, netTraderSy, netTraderPt, treasuryFeeAmount })

/-! ## Liquidity -/

def addLiquidity (syIntent ptIntent lpSupply : UInt64) :
    Outcome (MarketFinancials N × LiqAddResult) := do
  let r := TimeCurve.addLiquidity N syIntent ptIntent lpSupply f.syBalance f.ptBalance
  let f ← f.incPtBalance r.ptIn
  let f ← f.incSyBalance r.syIn
  .ok (f, { ptIn := r.ptIn, syIn := r.syIn, lpOut := r.lpTokensOut })

def rmLiquidity (lpIn lpSupply : UInt64) : Outcome (MarketFinancials N × LiqRmResult) := do
  assertTrue (lpIn ≤ lpSupply) "LP intent too large"
  let r ← TimeCurve.rmLiquidity N lpIn lpSupply f.syBalance f.ptBalance
  let f ← f.decPtBalance r.ptOut
  let f ← f.decSyBalance r.syOut
  .ok (f, { ptOut := r.ptOut, syOut := r.syOut })

end MarketFinancials

/-! ## A pool and its LP tokens -/

/-- The books of a market with the supply of its LP tokens. -/
structure LiquidityPool (N : Type) where
  financials : MarketFinancials N
  lpSupply : UInt64

inductive PoolOp
  | deposit (ptIntent syIntent : UInt64)
  | withdraw (lpIn : UInt64)
deriving DecidableEq

namespace LiquidityPool

variable {N : Type} [Num N] (p : LiquidityPool N)

/-- What `deposit_liquidity` does to the books and to the LP tokens. -/
def deposit (ptIntent syIntent : UInt64) : Outcome (LiquidityPool N × LiqAddResult) := do
  let (financials, r) ← p.financials.addLiquidity syIntent ptIntent p.lpSupply
  let lpSupply ← transferIn p.lpSupply r.lpOut
  .ok ({ financials, lpSupply }, r)

/-- What `withdraw_liquidity` does to the books and to the LP tokens. -/
def withdraw (lpIn : UInt64) : Outcome (LiquidityPool N × LiqRmResult) := do
  let (financials, r) ← p.financials.rmLiquidity lpIn p.lpSupply
  let lpSupply ← transferOut p.lpSupply lpIn
  .ok ({ financials, lpSupply }, r)

def step (p : LiquidityPool N) : PoolOp → Outcome (LiquidityPool N)
  | .deposit ptIntent syIntent => do
    let (p, _) ← p.deposit ptIntent syIntent
    .ok p
  | .withdraw lpIn => do
    let (p, _) ← p.withdraw lpIn
    .ok p

end LiquidityPool

end ExponentCore
