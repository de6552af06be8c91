import ExponentCore.Market.Calls

/-!
# The instructions that call instructions

`buy_yt`, `sell_yt` and the wrappers as handlers: each loads the market, the vault, or both, calls
instructions and reloads what they have changed. `FlashSwap` is `buy_yt` and `sell_yt`, which a
wrapper may call in turn; `Wrapper` is the wrappers. The events that the handlers emit are not
modelled.

`Bank.step` runs any instruction that a transaction may hold, so that a run is a `Machine.run`.
-/

set_option autoImplicit false

namespace ExponentCore

open Cached Handler

/-- Who runs a handler and when, and what the SY program reports to it and to the instructions that
it calls. -/
structure Invocation where
  user : Nat
  /-- the user's position in the vault -/
  yieldPosition : Nat
  /-- the user's position in the market -/
  lpPosition : Nat
  now : UInt64
  /-- what the handler reads itself -/
  syExchangeRate : Number
  /-- what a flash swap reads that the handler calls -/
  nestedSyExchangeRate : Number
  /-- what `strip` or `merge` reads -/
  vaultSyState : SyState
  /-- what `deposit_yt` reads -/
  depositSyState : SyState
  /-- what `trade_pt` reads -/
  tradeSyExchangeRate : Number
  /-- the SY minted for the base tokens -/
  syOutAmount : UInt64
deriving DecidableEq

namespace Invocation

variable (i : Invocation)

/-- As the flash swap sees it that a handler calls. -/
def inner : Invocation := { i with syExchangeRate := i.nestedSyExchangeRate }

end Invocation

variable {N : Type} [Num N] {β : Type} {nested : β → Bank N → Outcome (Bank N × UInt64)}

/-- Calls an instruction. -/
def doCpi (c : Call) : Handler (bankProgram β nested) c.Ret :=
  call (P := bankProgram β nested) (.inl c)

def loadMarket : Handler (bankProgram β nested) (MarketTwo N) :=
  read (P := bankProgram β nested) AccountName.market

def loadMintLp : Handler (bankProgram β nested) UInt64 :=
  read (P := bankProgram β nested) AccountName.mintLp

def loadTokenLp : Handler (bankProgram β nested) (Nat → UInt64) :=
  read (P := bankProgram β nested) AccountName.tokenLp

def setFlash (value : Bool) : Handler (bankProgram β nested) Unit :=
  edit (P := bankProgram β nested) (MarketEdit.setIsCurrentFlashSwap value)

def reloadAccount (a : AccountName) : Handler (bankProgram β nested) Unit :=
  reload (P := bankProgram β nested) a

def exitAccount (a : AccountName) : Handler (bankProgram β nested) Unit :=
  exit (P := bankProgram β nested) a

/-! ## Flash swaps -/

/-- `buy_yt`. Returns the PT sold, which is the YT bought. -/
def buyYt (i : Invocation) (syIn ytOut : UInt64) : Handler (bankProgram β nested) UInt64 := do
  let market ← loadMarket
  require (market.checkStatusFlags statusCanBuyYt = true) .buyingYtDisabled
  let syToStrip ← pyToSyCeil i.syExchangeRate ytOut
  assertTrue (syIn < syToStrip) "sy_to_strip must be greater than max_sy_in"
  let syToBorrow ← subU64 syToStrip syIn
  assertTrue (syToBorrow < syToStrip) "sy_to_borrow must be less than sy_to_strip"
  let netSySpend ← subU64 syToStrip syToBorrow
  assertTrue (netSySpend ≤ syIn) "net_sy_spend must be less than or equal to max_sy_in"
  doCpi (.withdrawSy syToBorrow)
  doCpi (.sendSy i.user syToBorrow)
  let ptOut ← doCpi (.strip i.user i.now i.vaultSyState syToStrip)
  setFlash true
  exitAccount .market
  let market ← loadMarket
  let marketPreSyBalance := market.financials.syBalance
  let ptSell ← unwrap (toI64 ptOut)
  let syConstraint ← unwrap (toI64 syToBorrow)
  let res ← doCpi (.tradePt i.user i.now i.tradeSyExchangeRate (ptSell * -1) syConstraint)
  let receivedSy := asU64 res.netTraderSy
  assertTrue (syToBorrow ≤ receivedSy)
    "received SY must be greater than or equal to borrowed SY"
  let syLeftover ← unwrap (checkedSub receivedSy syToBorrow)
  reloadAccount .market
  setFlash false
  let market ← loadMarket
  let marketPostSyBalance := market.financials.syBalance
  let bound ← subU64 marketPreSyBalance receivedSy
  assertTrue (marketPostSyBalance ≤ bound)
    ("market SY post balance must be less than or equal to pre-trade SY balance, "
      ++ "because of the treasury fee")
  let syToRepay ← addU64 syToBorrow syLeftover
  doCpi (.receiveSy i.user syToRepay)
  doCpi (.depositSy syToRepay)
  return ptOut

/-- `sell_yt`. Returns the SY that the seller keeps. -/
def sellYt (i : Invocation) (ytIn minSyOut : UInt64) : Handler (bankProgram β nested) UInt64 := do
  let market ← loadMarket
  require (market.checkStatusFlags statusCanSellYt = true) .sellingYtDisabled
  -- the PT is borrowed from the market and bought back from it
  let twice ← mulU64 ytIn 2
  assertTrue (twice ≤ market.financials.ptBalance) "insufficient PT liquidity in the market"
  doCpi (.sendPt i.user ytIn)
  let syRecv ← doCpi (.merge i.user i.now i.vaultSyState ytIn)
  let syConstraint ← expect "overflow converting sy u64 to i64" (toI64 syRecv)
  setFlash true
  exitAccount .market
  let amount ← expect "overflow converting yt_in to i64" (toI64 ytIn)
  let res ← doCpi (.tradePt i.user i.now i.tradeSyExchangeRate amount (syConstraint * -1))
  let sySpent := asU64 |res.netTraderSy|
  reloadAccount .market
  setFlash false
  let syLeftover ← expect "spent more SY than received from merge" (checkedSub syRecv sySpent)
  assertTrue (minSyOut ≤ syLeftover) "did not meet min_sy_out"
  doCpi (.receivePt i.user ytIn)
  return syLeftover

/-- A flash swap with its amounts. -/
inductive FlashSwap
  | buyYt (i : Invocation) (syIn ytOut : UInt64)
  | sellYt (i : Invocation) (ytIn minSyOut : UInt64)
deriving DecidableEq

/-- What flash swaps run in: they call no flash swaps. -/
abbrev coreProgram (N : Type) [Num N] : Program (Bank N) Fault := bankProgram Empty fun x => x.elim

namespace FlashSwap

def handler : FlashSwap → Handler (coreProgram N) UInt64
  | .buyYt i syIn ytOut => ExponentCore.buyYt i syIn ytOut
  | .sellYt i ytIn minSyOut => ExponentCore.sellYt i ytIn minSyOut

/-- Runs the instruction. Returns the log beside its result. -/
def run (x : FlashSwap) (b : Bank N) : Outcome (Bank N × UInt64 × List (Event (coreProgram N))) :=
  (x.handler (N := N)).run [AccountName.market] b

/-- As another instruction sees it. -/
def act (x : FlashSwap) (b : Bank N) : Outcome (Bank N × UInt64) := do
  let (b, r, _) ← x.run b
  .ok (b, r)

end FlashSwap

/-! ## Wrappers -/

/-- What wrappers run in. -/
abbrev wrapperProgram (N : Type) [Num N] : Program (Bank N) Fault :=
  bankProgram FlashSwap FlashSwap.act

/-- Calls a flash swap. -/
def doCpiFlashSwap (x : FlashSwap) : Handler (wrapperProgram N) UInt64 :=
  call (P := wrapperProgram N) (.inr x)

/-- `wrapper_strip` -/
def wrapperStrip (i : Invocation) (amountBase : UInt64) : Handler (wrapperProgram N) Unit := do
  doCpi (.mintSy i.user amountBase i.syOutAmount)
  assertTrue (0 < i.syOutAmount) "sy_amount cannot be 0"
  let amountPyOut ← doCpi (.strip i.user i.now i.vaultSyState i.syOutAmount)
  reloadAccount .vault
  doCpi (.depositYt i.user i.yieldPosition i.now i.depositSyState amountPyOut)
  reloadAccount .vault

/-- `wrapper_merge` -/
def wrapperMerge (i : Invocation) (amountPy : UInt64) : Handler (wrapperProgram N) Unit := do
  let amountSyOut ← doCpi (.merge i.user i.now i.vaultSyState amountPy)
  reloadAccount .vault
  doCpi (.redeemSy i.user amountSyOut)

/-- `wrapper_collect_interest` -/
def wrapperCollectInterest (i : Invocation) : Handler (wrapperProgram N) Unit := do
  let amountToUser ← doCpi (.collectInterest i.user i.yieldPosition i.now .all)
  reloadAccount .vault
  doCpi (.redeemSy i.user amountToUser)

/-- `wrapper_buy_pt` -/
def wrapperBuyPt (i : Invocation) (ptAmount maxBaseAmount : UInt64) :
    Handler (wrapperProgram N) Unit := do
  let market ← loadMarket
  let (_, simulated) ← market.financials.tradePt i.syExchangeRate (asI64 ptAmount) i.now false
    market.feeTreasurySyBps
  let requiredBaseAmount ← syToPyCeil i.syExchangeRate (asU64 |simulated.netTraderSy|)
  assertTrue (requiredBaseAmount ≤ maxBaseAmount) "Exceeded max base amount"
  doCpi (.mintSy i.user requiredBaseAmount i.syOutAmount)
  let _ ← doCpi (.tradePt i.user i.now i.tradeSyExchangeRate (asI64 ptAmount)
    (-|simulated.netTraderSy|))
  reloadAccount .market

/-- `wrapper_sell_pt` -/
def wrapperSellPt (i : Invocation) (amountPt minBaseAmount : UInt64) :
    Handler (wrapperProgram N) Unit := do
  let netTraderPt ← inI64 (-asI64 amountPt)
  let syConstraint ← pyToSyCeil i.syExchangeRate minBaseAmount
  let res ← doCpi (.tradePt i.user i.now i.tradeSyExchangeRate netTraderPt (asI64 syConstraint))
  reloadAccount .market
  doCpi (.redeemSy i.user (asU64 res.netTraderSy))

/-- `sim_buy_yt`: the asset to spend for an amount of YT. -/
def simBuyYt (ytOut : UInt64) (syExchangeRate : Number) (now : UInt64) (mf : MarketFinancials N)
    (feeTreasurySyBps : UInt16) : Outcome UInt64 := do
  let targetSy ← pyToSyCeil syExchangeRate ytOut
  let ptSell ← unwrap (toI64 ytOut)
  let (_, sold) ← mf.tradePt syExchangeRate (-1 * ptSell) now true feeTreasurySyBps
  let sySpend ← subU64 targetSy (asU64 |sold.netTraderSy|)
  let asset ← syExchangeRate.mul (Number.fromNaturalU64 sySpend)
  asset.ceilU64

/-- `wrapper_buy_yt` -/
def wrapperBuyYt (i : Invocation) (ytOut maxBaseAmount : UInt64) :
    Handler (wrapperProgram N) Unit := do
  let market ← loadMarket
  let assetSpend ← simBuyYt ytOut i.syExchangeRate i.now market.financials market.feeTreasurySyBps
  assertTrue (assetSpend ≤ maxBaseAmount)
    "slippage exceeded:asset_spend is greater than max_base_amount"
  doCpi (.mintSy i.user assetSpend i.syOutAmount)
  let ptOut ← doCpiFlashSwap (.buyYt i.inner i.syOutAmount ytOut)
  reloadAccount .market
  reloadAccount .vault
  doCpi (.depositYt i.user i.yieldPosition i.now i.depositSyState ptOut)
  reloadAccount .vault

/-- `wrapper_sell_yt` -/
def wrapperSellYt (i : Invocation) (ytAmount minBaseAmount : UInt64) :
    Handler (wrapperProgram N) Unit := do
  let syConstraint ← pyToSyCeil i.syExchangeRate minBaseAmount
  let minSyOut ← inI64 |asI64 syConstraint|
  let amountSyOut ← doCpiFlashSwap (.sellYt i.inner ytAmount (asU64 minSyOut))
  reloadAccount .market
  doCpi (.redeemSy i.user amountSyOut)

/-- `calc_strip_amount`: the part of the SY to strip, so that what is left and the PT are in the
proportion of the market. -/
def calcStripAmount (totalAmountSy : UInt64) (curSyRate : Number)
    (marketPtLiq marketSyLiq : UInt64) : Outcome UInt64 := do
  let numerator ← (Number.fromNaturalU64 totalAmountSy).mul (Number.fromNaturalU64 marketPtLiq)
  let asset ← curSyRate.mul (Number.fromNaturalU64 marketSyLiq)
  let denominator ← asset.add (Number.fromNaturalU64 marketPtLiq)
  let toStrip ← numerator.div denominator
  toStrip.ceilU64

/-- `wrapper_provide_liquidity` -/
def wrapperProvideLiquidity (i : Invocation) (amountBase minLpOut : UInt64) :
    Handler (wrapperProgram N) Unit := do
  doCpi (.mintSy i.user amountBase i.syOutAmount)
  assertTrue (0 < i.syOutAmount) "sy_amount cannot be 0"
  let market ← loadMarket
  let toStrip ← calcStripAmount i.syOutAmount i.syExchangeRate market.financials.ptBalance
    market.financials.syBalance
  let syRemainder ← unwrap (checkedSub i.syOutAmount toStrip)
  let pyAmount ← doCpi (.strip i.user i.now i.vaultSyState toStrip)
  reloadAccount .vault
  let lpBefore ← loadTokenLp
  let _ ← doCpi (.depositLiquidity i.user i.now pyAmount syRemainder minLpOut)
  reloadAccount .market
  reloadAccount .mintLp
  reloadAccount .tokenLp
  let lpAfter ← loadTokenLp
  doCpi (.depositYt i.user i.yieldPosition i.now i.depositSyState pyAmount)
  reloadAccount .vault
  let lpBalanceDiff ← subU64 (lpAfter i.user) (lpBefore i.user)
  doCpi (.depositLp i.user i.lpPosition i.now lpBalanceDiff)
  reloadAccount .market

/-- `wrapper_provide_liquidity_base` -/
def wrapperProvideLiquidityBase (i : Invocation)
    (minLpOut externalPtToBuy externalSyConstraint : UInt64) :
    Handler (wrapperProgram N) Unit := do
  let market ← loadMarket
  let (financials, traded) ← market.financials.tradePt i.syExchangeRate (asI64 externalPtToBuy)
    i.now true market.feeTreasurySyBps
  let lpSupply ← loadMintLp
  let (_, added) ← financials.addLiquidity 0xffffffffffffffff externalPtToBuy lpSupply
  let totalSyNeeded ← unwrap (checkedAdd (asU64 |traded.netTraderSy|) added.syIn)
  let baseAmountNeeded ← syToPyCeil i.syExchangeRate totalSyNeeded
  doCpi (.mintSy i.user baseAmountNeeded i.syOutAmount)
  setFlash true
  exitAccount .market
  let syConstraint ← unwrap (checkedI64 (asI64 externalSyConstraint * -1))
  let res ← doCpi (.tradePt i.user i.now i.tradeSyExchangeRate (asI64 externalPtToBuy)
    syConstraint)
  reloadAccount .market
  let deposited ← doCpi (.depositLiquidity i.user i.now (asU64 res.netTraderPt) 0xffffffffffffffff
    minLpOut)
  reloadAccount .market
  reloadAccount .mintLp
  doCpi (.depositLp i.user i.lpPosition i.now deposited.lpOut)
  reloadAccount .market
  setFlash false

/-- `wrapper_provide_liquidity_classic` -/
def wrapperProvideLiquidityClassic (i : Invocation) (amountBase amountPt minLpOut : UInt64) :
    Handler (wrapperProgram N) Unit := do
  doCpi (.mintSy i.user amountBase i.syOutAmount)
  assertTrue (0 < i.syOutAmount) "sy_amount cannot be 0"
  let deposited ← doCpi (.depositLiquidity i.user i.now amountPt i.syOutAmount minLpOut)
  reloadAccount .market
  reloadAccount .mintLp
  doCpi (.depositLp i.user i.lpPosition i.now deposited.lpOut)
  reloadAccount .market

/-- `wrapper_withdraw_liquidity` -/
def wrapperWithdrawLiquidity (i : Invocation) (amountLp syConstraint : UInt64) :
    Handler (wrapperProgram N) Unit := do
  doCpi (.withdrawLp i.user i.lpPosition i.now amountLp)
  reloadAccount .market
  let withdrawn ← doCpi (.withdrawLiquidity i.user i.now amountLp 0 0)
  reloadAccount .market
  reloadAccount .mintLp
  let netTraderPt ← inI64 (-asI64 withdrawn.ptOut)
  let res ← doCpi (.tradePt i.user i.now i.tradeSyExchangeRate netTraderPt (asI64 syConstraint))
  reloadAccount .market
  let amountSy ← addU64 (asU64 res.netTraderSy) withdrawn.syOut
  doCpi (.redeemSy i.user amountSy)

/-- `wrapper_withdraw_liquidity_classic` -/
def wrapperWithdrawLiquidityClassic (i : Invocation) (amountLp : UInt64) :
    Handler (wrapperProgram N) Unit := do
  doCpi (.withdrawLp i.user i.lpPosition i.now amountLp)
  reloadAccount .market
  let withdrawn ← doCpi (.withdrawLiquidity i.user i.now amountLp 0 0)
  reloadAccount .market
  reloadAccount .mintLp
  doCpi (.redeemSy i.user withdrawn.syOut)

/-- A wrapper with its arguments. -/
inductive Wrapper
  | strip (i : Invocation) (amountBase : UInt64)
  | merge (i : Invocation) (amountPy : UInt64)
  | collectInterest (i : Invocation)
  | buyPt (i : Invocation) (ptAmount maxBaseAmount : UInt64)
  | sellPt (i : Invocation) (amountPt minBaseAmount : UInt64)
  | buyYt (i : Invocation) (ytOut maxBaseAmount : UInt64)
  | sellYt (i : Invocation) (ytAmount minBaseAmount : UInt64)
  | provideLiquidity (i : Invocation) (amountBase minLpOut : UInt64)
  | provideLiquidityBase (i : Invocation) (minLpOut externalPtToBuy externalSyConstraint : UInt64)
  | provideLiquidityClassic (i : Invocation) (amountBase amountPt minLpOut : UInt64)
  | withdrawLiquidity (i : Invocation) (amountLp syConstraint : UInt64)
  | withdrawLiquidityClassic (i : Invocation) (amountLp : UInt64)
deriving DecidableEq

namespace Wrapper

/-- The accounts that are declared as typed accounts, and so loaded. -/
def loaded : Wrapper → List AccountName
  | strip .. | merge .. | collectInterest .. => [.vault]
  | buyPt .. | sellPt .. | sellYt .. => [.market]
  | buyYt .. => [.market, .vault]
  | provideLiquidity .. => [.vault, .market, .tokenLp, .mintLp]
  | provideLiquidityBase .. | provideLiquidityClassic .. | withdrawLiquidity ..
  | withdrawLiquidityClassic .. => [.market, .mintLp]

def handler : Wrapper → Handler (wrapperProgram N) Unit
  | strip i amountBase => wrapperStrip i amountBase
  | merge i amountPy => wrapperMerge i amountPy
  | collectInterest i => wrapperCollectInterest i
  | buyPt i ptAmount maxBaseAmount => wrapperBuyPt i ptAmount maxBaseAmount
  | sellPt i amountPt minBaseAmount => wrapperSellPt i amountPt minBaseAmount
  | buyYt i ytOut maxBaseAmount => wrapperBuyYt i ytOut maxBaseAmount
  | sellYt i ytAmount minBaseAmount => wrapperSellYt i ytAmount minBaseAmount
  | provideLiquidity i amountBase minLpOut => wrapperProvideLiquidity i amountBase minLpOut
  | provideLiquidityBase i minLpOut externalPtToBuy externalSyConstraint =>
    wrapperProvideLiquidityBase i minLpOut externalPtToBuy externalSyConstraint
  | provideLiquidityClassic i amountBase amountPt minLpOut =>
    wrapperProvideLiquidityClassic i amountBase amountPt minLpOut
  | withdrawLiquidity i amountLp syConstraint => wrapperWithdrawLiquidity i amountLp syConstraint
  | withdrawLiquidityClassic i amountLp => wrapperWithdrawLiquidityClassic i amountLp

/-- Runs the instruction. Returns the log beside the bank. -/
def run (w : Wrapper) (b : Bank N) : Outcome (Bank N × Unit × List (Event (wrapperProgram N))) :=
  (w.handler (N := N)).run w.loaded b

end Wrapper

/-! ## Every instruction -/

namespace Call

/-- Nobody can sign for the market's accounts but the market. -/
def signedByUser : Call → Bool
  | depositSy _ | withdrawSy _ | sendSy .. | sendPt .. => false
  | _ => true

end Call

/-- The instruction moves tokens of the bank, and so is a `Call` or `BankOp.withdrawYt`. -/
def VaultOp.movesTokens : VaultOp → Bool
  | .strip .. | .merge .. | .depositYt .. | .withdrawYt .. | .collectInterest .. => true
  | _ => false

def LpOp.movesTokens : LpOp → Bool
  | .depositLp .. | .withdrawLp .. => true
  | _ => false

inductive BankOp
  | call (c : Call) (h : c.signedByUser = true)
  | withdrawYt (user position : Nat) (now : UInt64) (syState : SyState) (amount : UInt64)
  | flashSwap (x : FlashSwap)
  | wrapper (w : Wrapper)
  | vault (op : VaultOp) (h : op.movesTokens = false)
  | lp (op : LpOp) (h : op.movesTokens = false)

namespace Bank

def step (b : Bank N) : BankOp → Outcome (Bank N)
  | .call c _ => do
    let (b, _) ← c.act b
    .ok b
  | .withdrawYt user position now syState amount => do
    let vaultWorld ← b.vaultWorld.instruct (.withdrawYt now.toUInt32 syState position amount)
    { b with vaultWorld }.creditYt user amount
  | .flashSwap x => do
    let (b, _) ← x.run b
    .ok b
  | .wrapper w => do
    let (b, _) ← w.run b
    .ok b
  | .vault op _ => do
    let vaultWorld ← b.vaultWorld.instruct op
    .ok { b with vaultWorld }
  | .lp op _ => do
    let lpWorld ← b.lpWorld.step op
    .ok { b with lpWorld }

end Bank

end ExponentCore
