import ExponentCore.Curve.Num

/-!
# The pricing curve

The functions of `time_curve/math.rs` that the markets call, over any number type. PT is priced by
the logit of its share of the market: the exchange rate of a PT for the asset is
`logit / rate_scalar + rate_anchor`, where the scalar depends on the time that remains, and the
anchor is solved for so that the implied yield does not jump when the time moves on.
-/

set_option autoImplicit false

namespace ExponentCore

namespace TimeCurve

variable {N : Type} [Num N]

def daySec : UInt64 := 86400

def yearSec : UInt64 := daySec * 365

/-! ## The curve -/

def proportionPt (pt asset : UInt64) : N :=
  (Num.fromU64 pt : N) / (Num.fromU64 pt + Num.fromU64 asset)

def logit (p : N) : N := Num.ln (p / (Num.one - p))

def exchangeRate (logit rateScalar rateAnchor : N) : N := logit / rateScalar + rateAnchor

def normalizedSecRemaining (secRemaining : UInt64) : N := Num.fromRatio secRemaining yearSec

def feeRate (lnFeeRateRoot : N) (secRemaining : UInt64) : N :=
  Num.exp (lnFeeRateRoot * normalizedSecRemaining secRemaining)

def rateScalar (rateScalarRoot : N) (secRemaining : UInt64) : N :=
  if secRemaining = 0 then Num.max
  else rateScalarRoot / normalizedSecRemaining secRemaining

def lnImpliedRate (pt asset : UInt64) (rateScalar rateAnchor : N) (secRemaining : UInt64) : N :=
  let rate := exchangeRate (logit (proportionPt pt asset)) rateScalar rateAnchor
  Num.ln rate / normalizedSecRemaining secRemaining

def exchangeRateFromLnImpliedRate (lnImpliedRate : N) (secRemaining : UInt64) : N :=
  Num.exp (lnImpliedRate * normalizedSecRemaining secRemaining)

def findRateAnchor (pt asset : UInt64) (rateScalar lastLnImpliedRate : N)
    (secRemaining : UInt64) : N :=
  let newExchangeRate := exchangeRateFromLnImpliedRate lastLnImpliedRate secRemaining
  let p := logit (proportionPt pt asset)
  newExchangeRate - p / rateScalar

/-! ## Liquidity -/

structure AddLiquidityResult where
  lpTokensOut : UInt64
  syIn : UInt64
  ptIn : UInt64
deriving DecidableEq

/-- The token that buys fewer LP tokens is taken whole; the other is rounded up from the LP tokens,
which are rounded down after that. -/
def addLiquidity (N : Type) [Num N] (intentSy intentPt marketTotalLp marketTotalSy
    marketTotalPt : UInt64) : AddLiquidityResult :=
  let intentSy : N := Num.fromU64 intentSy
  let intentPt : N := Num.fromU64 intentPt
  let marketTotalLp : N := Num.fromU64 marketTotalLp
  let marketTotalSy : N := Num.fromU64 marketTotalSy
  let marketTotalPt : N := Num.fromU64 marketTotalPt
  let lpFromPt := marketTotalLp * intentPt / marketTotalPt
  let lpFromSy := marketTotalLp * intentSy / marketTotalSy
  if lpFromPt < lpFromSy then
    { lpTokensOut := Num.toU64 lpFromPt
      syIn := Num.toU64
        ((marketTotalSy * lpFromPt + marketTotalLp - Num.one) / marketTotalLp)
      ptIn := Num.toU64 intentPt }
  else
    { lpTokensOut := Num.toU64 lpFromSy
      syIn := Num.toU64 intentSy
      ptIn := Num.toU64
        ((marketTotalPt * lpFromSy + marketTotalLp - Num.one) / marketTotalLp) }

structure RemoveLiquidityResult where
  syOut : UInt64
  ptOut : UInt64
deriving DecidableEq

def rmLiquidity (N : Type) [Num N] (lpIn marketTotalLp marketTotalSy marketTotalPt : UInt64) :
    Outcome RemoveLiquidityResult := do
  assertTrue (lpIn ≤ marketTotalLp) ""
  let lpIn : N := Num.fromU64 lpIn
  let marketTotalLp : N := Num.fromU64 marketTotalLp
  let marketTotalSy : N := Num.fromU64 marketTotalSy
  let marketTotalPt : N := Num.fromU64 marketTotalPt
  .ok { syOut := Num.toU64 (marketTotalSy * lpIn / marketTotalLp)
        ptOut := Num.toU64 (marketTotalPt * lpIn / marketTotalLp) }

/-! ## Trades -/

def assetFee (netTraderAsset feeRate : N) : Outcome N := do
  assertTrue (Num.one ≤ feeRate) ""
  if Num.zero < netTraderAsset then
    .ok (netTraderAsset * (feeRate - Num.one))
  else
    .ok (-netTraderAsset * (feeRate - Num.one) / feeRate)

structure TradeResult (N : Type) where
  /-- after the fee -/
  netTraderAsset : N
  assetFee : N

def trade (marketPt marketAsset : UInt64) (rateScalar rateAnchor feeRate netTraderPt : N)
    (isCurrentFlashSwap : Bool) : Outcome (TradeResult N) := do
  assertTrue (netTraderPt < Num.zero ∨ Num.toU64 netTraderPt < marketPt) ""
  let marketPtN : N := Num.fromU64 marketPt
  let newPt := marketPtN - netTraderPt
  let p := newPt / (marketPtN + Num.fromU64 marketAsset)
  let er := exchangeRate (logit p) rateScalar rateAnchor
  assertTrue (Num.one < er) "Asset cannot be worth less than PT"
  let preFeeNetTraderAsset := -netTraderPt / er
  -- in a flash swap the fee is taken on the value of the YT
  let fee ← assetFee
    (if isCurrentFlashSwap then (Num.one - Num.one / er) * Num.abs netTraderPt
     else preFeeNetTraderAsset) feeRate
  .ok { netTraderAsset := preFeeNetTraderAsset - fee, assetFee := fee }

end TimeCurve

end ExponentCore
