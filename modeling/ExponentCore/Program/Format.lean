import ExponentCore.Program.Instructions

/-!
# The borsh form of the instructions

What a client sends for an instruction: the discriminator, and the parameters in borsh, in their
order. A parameter without a borsh form (a NaN, a vector whose length does not fit a `u32`) makes the
whole instruction one that cannot be sent.
-/

set_option autoImplicit false

namespace ExponentCore

open Borsh

/-! ## Parameters -/

/-- Borsh writes no NaN. -/
def f64Bytes (bits : F64) : Option (List UInt8) :=
  if 0x7ff0000000000000 < bits &&& 0x7fffffffffffffff then none else some (u64Bytes bits)

def Number.bytes (a : Number) : List UInt8 := leBytes 32 a.raw

def pubkeyBytes (key : Pubkey) : List UInt8 := leBytes 32 key.toNat

def CpiInterfaceContext.bytes (c : CpiInterfaceContext) : List UInt8 :=
  [c.altIndex] ++ (boolBytes c.isSigner ++ boolBytes c.isWritable)

/-- Accounts for one call of the SY program. -/
def cpiContextsBytes (cs : List CpiInterfaceContext) : Option (List UInt8) :=
  vecBytes (fun c => some c.bytes) cs

def CpiAccounts.bytes (c : CpiAccounts) : Option (List UInt8) := do
  let getSyState ← cpiContextsBytes c.getSyState
  let depositSy ← cpiContextsBytes c.depositSy
  let withdrawSy ← cpiContextsBytes c.withdrawSy
  let claimEmission ← vecBytes cpiContextsBytes c.claimEmission
  let getPositionState ← cpiContextsBytes c.getPositionState
  some (getSyState ++ (depositSy ++ (withdrawSy ++ (claimEmission ++ getPositionState))))

def CollectTreasuryEmissionKind.bytes : CollectTreasuryEmissionKind → List UInt8
  | yieldPosition => [0]
  | treasuryEmission => [1]

def CollectTreasuryInterestKind.bytes : CollectTreasuryInterestKind → List UInt8
  | yieldPosition => [0]
  | treasuryInterest => [1]

def AdminAction.bytes : AdminAction → Option (List UInt8)
  | setVaultStatus newStatus => some ([0] ++ [newStatus])
  | changeVaultBpsFee newFee => some ([1] ++ u16Bytes newFee)
  | changeVaultTreasuryTokenAccount newAccount => some ([2] ++ pubkeyBytes newAccount)
  | changeEmissionTreasuryTokenAccount emissionIndex newTokenAccount =>
    some ([3] ++ (u16Bytes emissionIndex ++ pubkeyBytes newTokenAccount))
  | changeMinOperationSize isStrip newSize => some ([4] ++ (boolBytes isStrip ++ u64Bytes newSize))
  | changeEmissionBpsFee emissionIndex newFeeBps =>
    some ([5] ++ (u16Bytes emissionIndex ++ u16Bytes newFeeBps))
  | changeCpiAccounts cpiAccounts => do
    let cpiAccounts ← cpiAccounts.bytes
    some ([6] ++ cpiAccounts)
  | changeClaimLimits maxClaimAmountPerWindow claimWindowDurationSeconds =>
    some ([7] ++ (u64Bytes maxClaimAmountPerWindow ++ u32Bytes claimWindowDurationSeconds))
  | changeMaxPySupply newMaxPySupply => some ([8] ++ u64Bytes newMaxPySupply)
  | changeAddressLookupTable addressLookupTable => some ([9] ++ pubkeyBytes addressLookupTable)
  | removeVaultEmission emissionIndex => some ([10] ++ [emissionIndex])

def MarketAdminAction.bytes : MarketAdminAction → Option (List UInt8)
  | setStatus newStatus => some ([0] ++ [newStatus])
  | setMaxLpSupply newMaxLpSupply => some ([1] ++ u64Bytes newMaxLpSupply)
  | changeTreasuryTradeSyBpsFee newFee => some ([2] ++ u16Bytes newFee)
  | changeLnFeeRateRoot newLnFeeRateRoot => do
    let newLnFeeRateRoot ← f64Bytes newLnFeeRateRoot
    some ([3] ++ newLnFeeRateRoot)
  | changeRateScalarRoot newRateScalarRoot => do
    let newRateScalarRoot ← f64Bytes newRateScalarRoot
    some ([4] ++ newRateScalarRoot)
  | changeCpiAccounts cpiAccounts => do
    let cpiAccounts ← cpiAccounts.bytes
    some ([5] ++ cpiAccounts)
  | changeLiquidityNetBalanceLimits negative positive windowDurationSeconds =>
    some ([6] ++ (u16Bytes negative ++ (u32Bytes positive ++ u32Bytes windowDurationSeconds)))
  | changeAddressLookupTable addressLookupTable => some ([7] ++ pubkeyBytes addressLookupTable)
  | removeMarketEmission emissionIndex => some ([8] ++ [emissionIndex])

/-! ## Instructions -/

/-- The data of an instruction. -/
def CoreInstruction.bytes : CoreInstruction → Option (List UInt8)
  | initializeVault startTimestamp duration interestBpsFee cpiAccounts minOpSizeStrip
      minOpSizeMerge ptMetadataName ptMetadataSymbol ptMetadataUri => do
    let cpiAccounts ← cpiAccounts.bytes
    let ptMetadataName ← stringBytes ptMetadataName
    let ptMetadataSymbol ← stringBytes ptMetadataSymbol
    let ptMetadataUri ← stringBytes ptMetadataUri
    some ([2] ++ (u32Bytes startTimestamp ++ (u32Bytes duration ++ (u16Bytes interestBpsFee ++
      (cpiAccounts ++ (u64Bytes minOpSizeStrip ++ (u64Bytes minOpSizeMerge ++
      (ptMetadataName ++ (ptMetadataSymbol ++ ptMetadataUri)))))))))
  | initializeYieldPosition => some [3]
  | strip amount => some ([4] ++ u64Bytes amount)
  | merge amount => some ([5] ++ u64Bytes amount)
  | collectInterest amount => some ([6] ++ amount.bytes)
  | depositYt amount => some ([7] ++ u64Bytes amount)
  | withdrawYt amount => some ([8] ++ u64Bytes amount)
  | stageYtYield => some [9]
  | initMarketTwo lnFeeRateRoot rateScalarRoot initRateAnchor syExchangeRate ptInit syInit
      feeTreasurySyBps cpiAccounts seedId => do
    let lnFeeRateRoot ← f64Bytes lnFeeRateRoot
    let rateScalarRoot ← f64Bytes rateScalarRoot
    let initRateAnchor ← f64Bytes initRateAnchor
    let cpiAccounts ← cpiAccounts.bytes
    some ([10] ++ (lnFeeRateRoot ++ (rateScalarRoot ++ (initRateAnchor ++ (syExchangeRate.bytes ++
      (u64Bytes ptInit ++ (u64Bytes syInit ++ (u16Bytes feeTreasurySyBps ++
      (cpiAccounts ++ [seedId])))))))))
  | marketTwoDepositLiquidity ptIntent syIntent minLpOut =>
    some ([11] ++ (u64Bytes ptIntent ++ (u64Bytes syIntent ++ u64Bytes minLpOut)))
  | marketTwoWithdrawLiquidity lpIn minPtOut minSyOut =>
    some ([12] ++ (u64Bytes lpIn ++ (u64Bytes minPtOut ++ u64Bytes minSyOut)))
  | initLpPosition => some [13]
  | marketDepositLp amount => some ([14] ++ u64Bytes amount)
  | marketWithdrawLp amount => some ([15] ++ u64Bytes amount)
  | marketCollectEmission emissionIndex => some ([16] ++ u16Bytes emissionIndex)
  | tradePt netTraderPt syConstraint =>
    some ([17] ++ (i64Bytes netTraderPt ++ i64Bytes syConstraint))
  | sellYt ytIn minSyOut => some ([1] ++ (u64Bytes ytIn ++ u64Bytes minSyOut))
  | buyYt syIn ytOut => some ([0] ++ (u64Bytes syIn ++ u64Bytes ytOut))
  | addEmission cpiAccounts treasuryFeeBps => do
    let cpiAccounts ← cpiAccounts.bytes
    some ([18] ++ (cpiAccounts ++ u16Bytes treasuryFeeBps))
  | collectEmission index amount => some ([19] ++ (u16Bytes index ++ amount.bytes))
  | collectTreasuryEmission emissionIndex amount kind =>
    some ([20] ++ (u16Bytes emissionIndex ++ (amount.bytes ++ kind.bytes)))
  | collectTreasuryInterest amount kind => some ([21] ++ (amount.bytes ++ kind.bytes))
  | addFarm tokenRate untilTimestamp =>
    some ([22] ++ (u64Bytes tokenRate ++ u32Bytes untilTimestamp))
  | modifyFarm untilTimestamp newRate =>
    some ([23] ++ (u32Bytes untilTimestamp ++ u64Bytes newRate))
  | claimFarmEmissions amount => some ([24] ++ amount.bytes)
  | addMarketEmission cpiAccounts => do
    let cpiAccounts ← cpiAccounts.bytes
    some ([25] ++ cpiAccounts)
  | modifyVaultSetting action => do
    let action ← action.bytes
    some ([26] ++ action)
  | modifyMarketSetting action => do
    let action ← action.bytes
    some ([27] ++ action)
  | wrapperProvideLiquidity amountBase minLpOut mintBaseAccountsUntil =>
    some ([28] ++ (u64Bytes amountBase ++ (u64Bytes minLpOut ++ [mintBaseAccountsUntil])))
  | wrapperBuyPt ptAmount maxBaseAmount mintSyRemAccountsUntil =>
    some ([29] ++ (u64Bytes ptAmount ++ (u64Bytes maxBaseAmount ++ [mintSyRemAccountsUntil])))
  | wrapperSellPt amountPt minBaseAmount redeemSyRemAccountsUntil =>
    some ([30] ++ (u64Bytes amountPt ++ (u64Bytes minBaseAmount ++ [redeemSyRemAccountsUntil])))
  | wrapperBuyYt ytOut maxBaseAmount mintSyAccountsLength =>
    some ([31] ++ (u64Bytes ytOut ++ (u64Bytes maxBaseAmount ++ [mintSyAccountsLength])))
  | wrapperSellYt ytAmount minBaseAmount redeemSyAccountsUntil =>
    some ([32] ++ (u64Bytes ytAmount ++ (u64Bytes minBaseAmount ++ [redeemSyAccountsUntil])))
  | wrapperCollectInterest redeemSyAccountsLength => some ([33] ++ [redeemSyAccountsLength])
  | wrapperWithdrawLiquidity amountLp syConstraint redeemSyAccountsLength =>
    some ([34] ++ (u64Bytes amountLp ++ (u64Bytes syConstraint ++ [redeemSyAccountsLength])))
  | wrapperWithdrawLiquidityClassic amountLp redeemSyAccountsLength =>
    some ([35] ++ (u64Bytes amountLp ++ [redeemSyAccountsLength]))
  | wrapperProvideLiquidityBase amountBase minLpOut mintSyAccountsUntil externalPtToBuy
      externalSyConstraint =>
    some ([36] ++ (u64Bytes amountBase ++ (u64Bytes minLpOut ++ ([mintSyAccountsUntil] ++
      (u64Bytes externalPtToBuy ++ u64Bytes externalSyConstraint)))))
  | wrapperProvideLiquidityClassic amountBase amountPt minLpOut mintSyAccountsUntil =>
    some ([37] ++ (u64Bytes amountBase ++ (u64Bytes amountPt ++ (u64Bytes minLpOut ++
      [mintSyAccountsUntil]))))
  | wrapperStrip amountBase mintSyAccountsUntil =>
    some ([38] ++ (u64Bytes amountBase ++ [mintSyAccountsUntil]))
  | wrapperMerge amountPy redeemSyAccountsUntil =>
    some ([39] ++ (u64Bytes amountPy ++ [redeemSyAccountsUntil]))
  | reallocMarket additionalBytes => some ([40] ++ u64Bytes additionalBytes)
  | addLpTokensMetadata name symbol uri => do
    let name ← stringBytes name
    let symbol ← stringBytes symbol
    let uri ← stringBytes uri
    some ([41] ++ (name ++ (symbol ++ uri)))

end ExponentCore
