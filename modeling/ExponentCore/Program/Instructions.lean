import ExponentCore.Lib.Borsh
import ExponentCore.Market.Wrappers
import ExponentCore.Vault.Settings

/-!
# The instructions of the program and their data

`CoreInstruction` is what the program module declares, and `declared` has the discriminator of each
instruction and a reader for its parameters, in the order of the source. `dispatch` is what happens
to the data of a transaction: the first instruction whose discriminator the data starts with reads
its parameters from the rest. Anchor tries its own discriminators, of eight bytes, after these.

The encoders of `self_cpi.rs` build the data of the instructions that the program sends to itself:
`Call.data` and `FlashSwap.data` for the calls of handlers, and `Call.receive` and
`FlashSwap.receive` for what the instruction called makes of its arguments.
-/

set_option autoImplicit false

namespace ExponentCore

open Borsh

/-! ## Parameters -/

/-- The bits of an `f64`. -/
abbrev F64 := UInt64

/-- Borsh accepts no NaN. -/
def readF64 : Reader F64 := do
  let bits ← u64
  if 0x7ff0000000000000 < bits &&& 0x7fffffffffffffff then fail else return bits

/-- Four `u64` words, the lowest first. -/
def readNumber : Reader Number := do
  let raw ← nat 32
  ofOption (Number.ofRaw raw)

def readPubkey : Reader Pubkey := BitVec.ofNat 256 <$> nat 32

def readCpiInterfaceContext : Reader CpiInterfaceContext :=
  CpiInterfaceContext.mk <$> u8 <*> bool <*> bool

def readCpiAccounts : Reader CpiAccounts :=
  CpiAccounts.mk <$> vec readCpiInterfaceContext <*> vec readCpiInterfaceContext
    <*> vec readCpiInterfaceContext <*> vec (vec readCpiInterfaceContext)
    <*> vec readCpiInterfaceContext

def readAmount : Reader Amount := do
  match ← u8 with
  | 0 => return .all
  | 1 => Amount.some <$> u64
  | _ => fail

def readCollectTreasuryEmissionKind : Reader CollectTreasuryEmissionKind := do
  match ← u8 with
  | 0 => return .yieldPosition
  | 1 => return .treasuryEmission
  | _ => fail

def readCollectTreasuryInterestKind : Reader CollectTreasuryInterestKind := do
  match ← u8 with
  | 0 => return .yieldPosition
  | 1 => return .treasuryInterest
  | _ => fail

def readAdminAction : Reader AdminAction := do
  match ← u8 with
  | 0 => .setVaultStatus <$> u8
  | 1 => .changeVaultBpsFee <$> u16
  | 2 => .changeVaultTreasuryTokenAccount <$> readPubkey
  | 3 => .changeEmissionTreasuryTokenAccount <$> u16 <*> readPubkey
  | 4 => .changeMinOperationSize <$> bool <*> u64
  | 5 => .changeEmissionBpsFee <$> u16 <*> u16
  | 6 => .changeCpiAccounts <$> readCpiAccounts
  | 7 => .changeClaimLimits <$> u64 <*> u32
  | 8 => .changeMaxPySupply <$> u64
  | 9 => .changeAddressLookupTable <$> readPubkey
  | 10 => .removeVaultEmission <$> u8
  | _ => fail

/-- The actions of `modify_market_setting`. -/
inductive MarketAdminAction
  | setStatus (newStatus : UInt8)
  | setMaxLpSupply (newMaxLpSupply : UInt64)
  | changeTreasuryTradeSyBpsFee (newFee : UInt16)
  | changeLnFeeRateRoot (newLnFeeRateRoot : F64)
  | changeRateScalarRoot (newRateScalarRoot : F64)
  | changeCpiAccounts (cpiAccounts : CpiAccounts)
  | changeLiquidityNetBalanceLimits (maxNetBalanceChangeNegativePercentage : UInt16)
      (maxNetBalanceChangePositivePercentage windowDurationSeconds : UInt32)
  | changeAddressLookupTable (addressLookupTable : Pubkey)
  | removeMarketEmission (emissionIndex : UInt8)

def readMarketAdminAction : Reader MarketAdminAction := do
  match ← u8 with
  | 0 => .setStatus <$> u8
  | 1 => .setMaxLpSupply <$> u64
  | 2 => .changeTreasuryTradeSyBpsFee <$> u16
  | 3 => .changeLnFeeRateRoot <$> readF64
  | 4 => .changeRateScalarRoot <$> readF64
  | 5 => .changeCpiAccounts <$> readCpiAccounts
  | 6 => .changeLiquidityNetBalanceLimits <$> u16 <*> u32 <*> u32
  | 7 => .changeAddressLookupTable <$> readPubkey
  | 8 => .removeMarketEmission <$> u8
  | _ => fail

/-! ## The program module -/

/-- An instruction with its arguments. -/
inductive CoreInstruction
  | initializeVault (startTimestamp duration : UInt32) (interestBpsFee : UInt16)
      (cpiAccounts : CpiAccounts) (minOpSizeStrip minOpSizeMerge : UInt64)
      (ptMetadataName ptMetadataSymbol ptMetadataUri : String)
  | initializeYieldPosition
  | strip (amount : UInt64)
  | merge (amount : UInt64)
  | collectInterest (amount : Amount)
  | depositYt (amount : UInt64)
  | withdrawYt (amount : UInt64)
  | stageYtYield
  | initMarketTwo (lnFeeRateRoot rateScalarRoot initRateAnchor : F64) (syExchangeRate : Number)
      (ptInit syInit : UInt64) (feeTreasurySyBps : UInt16) (cpiAccounts : CpiAccounts)
      (seedId : UInt8)
  | marketTwoDepositLiquidity (ptIntent syIntent minLpOut : UInt64)
  | marketTwoWithdrawLiquidity (lpIn minPtOut minSyOut : UInt64)
  | initLpPosition
  | marketDepositLp (amount : UInt64)
  | marketWithdrawLp (amount : UInt64)
  | marketCollectEmission (emissionIndex : UInt16)
  | tradePt (netTraderPt syConstraint : Int64)
  | sellYt (ytIn minSyOut : UInt64)
  | buyYt (syIn ytOut : UInt64)
  | addEmission (cpiAccounts : CpiAccounts) (treasuryFeeBps : UInt16)
  | collectEmission (index : UInt16) (amount : Amount)
  | collectTreasuryEmission (emissionIndex : UInt16) (amount : Amount)
      (kind : CollectTreasuryEmissionKind)
  | collectTreasuryInterest (amount : Amount) (kind : CollectTreasuryInterestKind)
  | addFarm (tokenRate : UInt64) (untilTimestamp : UInt32)
  | modifyFarm (untilTimestamp : UInt32) (newRate : UInt64)
  | claimFarmEmissions (amount : Amount)
  | addMarketEmission (cpiAccounts : CpiAccounts)
  | modifyVaultSetting (action : AdminAction)
  | modifyMarketSetting (action : MarketAdminAction)
  | wrapperProvideLiquidity (amountBase minLpOut : UInt64) (mintBaseAccountsUntil : UInt8)
  | wrapperBuyPt (ptAmount maxBaseAmount : UInt64) (mintSyRemAccountsUntil : UInt8)
  | wrapperSellPt (amountPt minBaseAmount : UInt64) (redeemSyRemAccountsUntil : UInt8)
  | wrapperBuyYt (ytOut maxBaseAmount : UInt64) (mintSyAccountsLength : UInt8)
  | wrapperSellYt (ytAmount minBaseAmount : UInt64) (redeemSyAccountsUntil : UInt8)
  | wrapperCollectInterest (redeemSyAccountsLength : UInt8)
  | wrapperWithdrawLiquidity (amountLp syConstraint : UInt64) (redeemSyAccountsLength : UInt8)
  | wrapperWithdrawLiquidityClassic (amountLp : UInt64) (redeemSyAccountsLength : UInt8)
  | wrapperProvideLiquidityBase (amountBase minLpOut : UInt64) (mintSyAccountsUntil : UInt8)
      (externalPtToBuy externalSyConstraint : UInt64)
  | wrapperProvideLiquidityClassic (amountBase amountPt minLpOut : UInt64)
      (mintSyAccountsUntil : UInt8)
  | wrapperStrip (amountBase : UInt64) (mintSyAccountsUntil : UInt8)
  | wrapperMerge (amountPy : UInt64) (redeemSyAccountsUntil : UInt8)
  | reallocMarket (additionalBytes : UInt64)
  | addLpTokensMetadata (name symbol uri : String)

structure DeclaredInstruction where
  discriminator : List UInt8
  params : Reader CoreInstruction

def declared : List DeclaredInstruction :=
  [⟨[2], .initializeVault <$> u32 <*> u32 <*> u16 <*> readCpiAccounts <*> u64 <*> u64 <*> string
      <*> string <*> string⟩,
    ⟨[3], pure .initializeYieldPosition⟩,
    ⟨[4], .strip <$> u64⟩,
    ⟨[5], .merge <$> u64⟩,
    ⟨[6], .collectInterest <$> readAmount⟩,
    ⟨[7], .depositYt <$> u64⟩,
    ⟨[8], .withdrawYt <$> u64⟩,
    ⟨[9], pure .stageYtYield⟩,
    ⟨[10], .initMarketTwo <$> readF64 <*> readF64 <*> readF64 <*> readNumber <*> u64 <*> u64
      <*> u16 <*> readCpiAccounts <*> u8⟩,
    ⟨[11], .marketTwoDepositLiquidity <$> u64 <*> u64 <*> u64⟩,
    ⟨[12], .marketTwoWithdrawLiquidity <$> u64 <*> u64 <*> u64⟩,
    ⟨[13], pure .initLpPosition⟩,
    ⟨[14], .marketDepositLp <$> u64⟩,
    ⟨[15], .marketWithdrawLp <$> u64⟩,
    ⟨[16], .marketCollectEmission <$> u16⟩,
    ⟨[17], .tradePt <$> i64 <*> i64⟩,
    ⟨[1], .sellYt <$> u64 <*> u64⟩,
    ⟨[0], .buyYt <$> u64 <*> u64⟩,
    ⟨[18], .addEmission <$> readCpiAccounts <*> u16⟩,
    ⟨[19], .collectEmission <$> u16 <*> readAmount⟩,
    ⟨[20], .collectTreasuryEmission <$> u16 <*> readAmount <*> readCollectTreasuryEmissionKind⟩,
    ⟨[21], .collectTreasuryInterest <$> readAmount <*> readCollectTreasuryInterestKind⟩,
    ⟨[22], .addFarm <$> u64 <*> u32⟩,
    ⟨[23], .modifyFarm <$> u32 <*> u64⟩,
    ⟨[24], .claimFarmEmissions <$> readAmount⟩,
    ⟨[25], .addMarketEmission <$> readCpiAccounts⟩,
    ⟨[26], .modifyVaultSetting <$> readAdminAction⟩,
    ⟨[27], .modifyMarketSetting <$> readMarketAdminAction⟩,
    ⟨[28], .wrapperProvideLiquidity <$> u64 <*> u64 <*> u8⟩,
    ⟨[29], .wrapperBuyPt <$> u64 <*> u64 <*> u8⟩,
    ⟨[30], .wrapperSellPt <$> u64 <*> u64 <*> u8⟩,
    ⟨[31], .wrapperBuyYt <$> u64 <*> u64 <*> u8⟩,
    ⟨[32], .wrapperSellYt <$> u64 <*> u64 <*> u8⟩,
    ⟨[33], .wrapperCollectInterest <$> u8⟩,
    ⟨[34], .wrapperWithdrawLiquidity <$> u64 <*> u64 <*> u8⟩,
    ⟨[35], .wrapperWithdrawLiquidityClassic <$> u64 <*> u8⟩,
    ⟨[36], .wrapperProvideLiquidityBase <$> u64 <*> u64 <*> u8 <*> u64 <*> u64⟩,
    ⟨[37], .wrapperProvideLiquidityClassic <$> u64 <*> u64 <*> u64 <*> u8⟩,
    ⟨[38], .wrapperStrip <$> u64 <*> u8⟩,
    ⟨[39], .wrapperMerge <$> u64 <*> u8⟩,
    ⟨[40], .reallocMarket <$> u64⟩,
    ⟨[41], .addLpTokensMetadata <$> string <*> string <*> string⟩]

/-! ## Dispatch -/

/-- Anchor's errors. -/
inductive DispatchError
  | instructionFallbackNotFound
  | instructionDidNotDeserialize
deriving DecidableEq

/-- The instruction that the data is for, and what it leaves unread. -/
def dispatch (data : List UInt8) : Except DispatchError (CoreInstruction × List UInt8) :=
  match declared.find? fun d => d.discriminator.isPrefixOf data with
  | none => .error .instructionFallbackNotFound
  | some d =>
    match d.params.run (data.drop d.discriminator.length) with
    | some r => .ok r
    | none => .error .instructionDidNotDeserialize

/-! ## Encoders -/

/-- `Amount::serialize` -/
def Amount.bytes : Amount → List UInt8
  | .all => [0]
  | .some requestedAmount => [1] ++ u64Bytes requestedAmount

def doCpiDepositYt (amountYt : UInt64) : List UInt8 := [7] ++ u64Bytes amountYt

def doCpiWithdrawYt (amountYt : UInt64) : List UInt8 := [8] ++ u64Bytes amountYt

def doCpiDepositLiquidity (ptIntent syIntent minLpOut : UInt64) : List UInt8 :=
  [11] ++ u64Bytes ptIntent ++ u64Bytes syIntent ++ u64Bytes minLpOut

def doCpiDepositLp (amountLp : UInt64) : List UInt8 := [14] ++ u64Bytes amountLp

def doCpiStrip (amountSy : UInt64) : List UInt8 := [4] ++ u64Bytes amountSy

def doCpiMerge (amountPy : UInt64) : List UInt8 := [5] ++ u64Bytes amountPy

def doCpiTradePt (netTraderPt syConstraint : Int64) : List UInt8 :=
  [17] ++ i64Bytes netTraderPt ++ i64Bytes syConstraint

def doCpiCollectInterest (amount : Amount) : List UInt8 := [6] ++ amount.bytes

def doCpiBuyYt (maxSyIn ytOut : UInt64) : List UInt8 :=
  [0] ++ u64Bytes maxSyIn ++ u64Bytes ytOut

def doCpiSellYt (ytIn minSyOut : UInt64) : List UInt8 :=
  [1] ++ u64Bytes ytIn ++ u64Bytes minSyOut

def doCpiWithdrawLp (amount : UInt64) : List UInt8 := [15] ++ u64Bytes amount

def doCpiWithdrawLiquidity (lpIn minPtOut minSyOut : UInt64) : List UInt8 :=
  [12] ++ u64Bytes lpIn ++ u64Bytes minPtOut ++ u64Bytes minSyOut

/-! ## Calls -/

namespace Call

/-- The data of a call, where the instruction called is this program's. -/
def data : Call → Option (List UInt8)
  | strip _ _ _ amountSy => some (doCpiStrip amountSy)
  | merge _ _ _ amountPy => some (doCpiMerge amountPy)
  | depositYt _ _ _ _ amount => some (doCpiDepositYt amount)
  | collectInterest _ _ _ amount => some (doCpiCollectInterest amount)
  | depositLp _ _ _ amount => some (doCpiDepositLp amount)
  | withdrawLp _ _ _ amount => some (doCpiWithdrawLp amount)
  | tradePt _ _ _ netTraderPt syConstraint =>
    some (doCpiTradePt (Int64.ofInt netTraderPt) (Int64.ofInt syConstraint))
  | depositLiquidity _ _ ptIntent syIntent minLpOut =>
    some (doCpiDepositLiquidity ptIntent syIntent minLpOut)
  | withdrawLiquidity _ _ lpIn minPtOut minSyOut =>
    some (doCpiWithdrawLiquidity lpIn minPtOut minSyOut)
  | _ => none

/-- With the accounts of a call, what the instruction that its data selects is called with. -/
def receive : Call → CoreInstruction → Option Call
  | strip user now syState _, .strip amount => some (strip user now syState amount)
  | merge user now syState _, .merge amount => some (merge user now syState amount)
  | depositYt user position now syState _, .depositYt amount =>
    some (depositYt user position now syState amount)
  | collectInterest user position now _, .collectInterest amount =>
    some (collectInterest user position now amount)
  | depositLp user position now _, .marketDepositLp amount =>
    some (depositLp user position now amount)
  | withdrawLp user position now _, .marketWithdrawLp amount =>
    some (withdrawLp user position now amount)
  | tradePt user now syExchangeRate _ _, .tradePt netTraderPt syConstraint =>
    some (tradePt user now syExchangeRate netTraderPt.toInt syConstraint.toInt)
  | depositLiquidity user now _ _ _, .marketTwoDepositLiquidity ptIntent syIntent minLpOut =>
    some (depositLiquidity user now ptIntent syIntent minLpOut)
  | withdrawLiquidity user now _ _ _, .marketTwoWithdrawLiquidity lpIn minPtOut minSyOut =>
    some (withdrawLiquidity user now lpIn minPtOut minSyOut)
  | _, _ => none

/-- The amounts of a trade are `i64` values. -/
def I64Args : Call → Prop
  | tradePt _ _ _ netTraderPt syConstraint =>
    (-2 ^ 63 ≤ netTraderPt ∧ netTraderPt < 2 ^ 63) ∧ -2 ^ 63 ≤ syConstraint ∧ syConstraint < 2 ^ 63
  | _ => True

end Call

namespace FlashSwap

def data : FlashSwap → List UInt8
  | buyYt _ syIn ytOut => doCpiBuyYt syIn ytOut
  | sellYt _ ytIn minSyOut => doCpiSellYt ytIn minSyOut

def receive : FlashSwap → CoreInstruction → Option FlashSwap
  | buyYt i _ _, .buyYt syIn ytOut => some (buyYt i syIn ytOut)
  | sellYt i _ _, .sellYt ytIn minSyOut => some (sellYt i ytIn minSyOut)
  | _, _ => none

end FlashSwap

end ExponentCore
