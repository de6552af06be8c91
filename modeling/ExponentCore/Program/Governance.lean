import ExponentCore.Program.Instructions

/-!
# The program with its administrators

`Deployment` is a market with its vault and the account of the admin program. A `Transaction` is one
instruction with the key that signs it: of the admin program, of a user or an administrator on the
market and the vault, or one of the two that change settings. `Deployment.step` asks the admin
account who may sign and runs the instruction; one that fails is undone, so a run is a
`Machine.run`.

The fields that administrators set are `Vault.settings` and `MarketTwo.settings`. `Switch` names the
status flags of the vault and of the market, and `BankOp.needs` the ones that an instruction and the
instructions that it calls check.
-/

set_option autoImplicit false

namespace ExponentCore

open ExponentAdmin (Admin AdminAccount AdminOp Principle)

variable {N : Type}

/-! ## Settings of a market -/

namespace MarketAdminAction

/-- Who may take an action. -/
def validate (market : MarketTwo N) (adminState : Admin) (signer : Pubkey) :
    MarketAdminAction → Except ExponentAdmin.Fault Unit
  | .setStatus newStatus => validateStatusUpdate adminState signer market.statusFlags newStatus
  | .setMaxLpSupply _ | .changeLnFeeRateRoot _ | .changeLiquidityNetBalanceLimits .. =>
    adminState.principles.hotAdmin.isAdmin signer
  | .changeTreasuryTradeSyBpsFee _ | .changeRateScalarRoot _ | .changeCpiAccounts _
  | .changeAddressLookupTable _ | .removeMarketEmission _ =>
    adminState.principles.coldAdmin.isAdmin signer

/-- What an action does, where `price` reads an `f64`. The lookup table and the rent for more
account data are left out: nothing here reads them. -/
def apply (price : F64 → N) (market : MarketTwo N) (unixTimestamp : UInt32) :
    MarketAdminAction → Outcome (MarketTwo N)
  | .setStatus newStatus => .ok { market with statusFlags := newStatus }
  | .setMaxLpSupply maxSupply => .ok { market with maxLpSupply := maxSupply }
  | .changeTreasuryTradeSyBpsFee newFee => do
    assertTrue (newFee ≤ 10000) "Treasury trade SY BPS fee must be less than or equal to 10000"
    .ok { market with feeTreasurySyBps := newFee }
  | .changeLnFeeRateRoot newLnFeeRateRoot =>
    .ok { market with
      financials := { market.financials with lnFeeRateRoot := price newLnFeeRateRoot } }
  | .changeRateScalarRoot newRateScalarRoot =>
    .ok { market with
      financials := { market.financials with rateScalarRoot := price newRateScalarRoot } }
  | .changeCpiAccounts cpiAccounts => .ok { market with cpiAccounts }
  | .changeLiquidityNetBalanceLimits maxNetBalanceChangeNegativePercentage
      maxNetBalanceChangePositivePercentage windowDurationSeconds =>
    .ok { market with
      liquidityNetBalanceLimits :=
        { windowStartTimestamp := unixTimestamp
          windowStartNetBalance := market.liquidityNetBalanceLimits.windowStartNetBalance
          maxNetBalanceChangeNegativePercentage
          maxNetBalanceChangePositivePercentage
          windowDurationSeconds } }
  | .changeAddressLookupTable _ => .ok market
  | .removeMarketEmission emissionIndex => ExponentCore.removeMarketEmission market emissionIndex

/-- What the SY program lists afterwards: it drops a reward when the market does. -/
def listed (amountsClaimable : List UInt64) : MarketAdminAction → List UInt64
  | .removeMarketEmission emissionIndex => amountsClaimable.eraseIdx emissionIndex.toNat
  | _ => amountsClaimable

end MarketAdminAction

/-! ## Administrators -/

/-- The administrators that the instructions on a vault are for; without an entry, anyone's. -/
def VaultOp.principle : VaultOp → Option Principle
  | addEmission .. => some .hotAdmin
  | collectTreasuryInterest .. | collectTreasuryEmission .. | removeVaultEmission _ =>
    some .coldAdmin
  | _ => none

def LpOp.principle : LpOp → Option Principle
  | addMarketEmission .. | addFarm .. => some .hotAdmin
  | modifyFarm .. | removeMarketEmission _ => some .coldAdmin
  | _ => none

def BankOp.principle : BankOp → Option Principle
  | vault op _ => op.principle
  | lp op _ => op.principle
  | call .. | withdrawYt .. | flashSwap _ | wrapper _ => none

/-- What an instruction asks the admin account about its signer. -/
def BankOp.validate (adminState : Admin) (signer : Pubkey) (op : BankOp) :
    Except ExponentAdmin.Fault Unit :=
  match op.principle with
  | some principle => (adminState.principles.details principle).isAdmin signer
  | none => .ok ()

/-- The key that signs an instruction of the admin program; `realloc_admin` takes any. -/
def adminSigner : AdminOp → Option Pubkey
  | .inviteAdmin uberAdmin _ | .addPrincipleAdmin uberAdmin _ _
  | .removePrincipleAdmin uberAdmin _ _ => some uberAdmin
  | .acceptInvitation newUberAdmin => some newUberAdmin
  | .reallocAdmin _ => none

structure Deployment (N : Type) where
  adminAccount : AdminAccount
  bank : Bank N

inductive Transaction
  | admin (op : AdminOp)
  | bank (signer : Pubkey) (op : BankOp)
  | modifyVaultSetting (signer : Pubkey) (unixTimestamp : UInt32) (action : AdminAction)
  | modifyMarketSetting (signer : Pubkey) (unixTimestamp : UInt32) (action : MarketAdminAction)

/-- Whoever signs, if anybody in particular does. -/
def Transaction.signer : Transaction → Option Pubkey
  | admin op => adminSigner op
  | bank signer _ | modifyVaultSetting signer .. | modifyMarketSetting signer .. => some signer

namespace Deployment

variable [Num N] (price : F64 → N) (d : Deployment N)

/-- The value that the admin account holds. -/
def adminState : Admin := d.adminAccount.admin

def step : Transaction → Except SettingFault (Deployment N)
  | .admin op => do
    let adminAccount ← asked (d.adminAccount.step op)
    .ok { d with adminAccount }
  | .bank signer op => do
    asked (op.validate d.adminState signer)
    let bank ← handled (d.bank.step op)
    .ok { d with bank }
  | .modifyVaultSetting signer unixTimestamp action => do
    asked (action.validate d.bank.vault d.adminState signer)
    let vault ← handled (action.apply d.bank.vault unixTimestamp)
    .ok { d with bank := d.bank.setVault vault }
  | .modifyMarketSetting signer unixTimestamp action => do
    asked (action.validate d.bank.market d.adminState signer)
    let market ← handled (action.apply price d.bank.market unixTimestamp)
    let amountsClaimable := action.listed d.bank.lpWorld.amountsClaimable
    .ok { d with
      bank := { d.bank with lpWorld := { d.bank.lpWorld with market, amountsClaimable } } }

end Deployment

/-! ## Settings -/

/-- What administrators have set for an emission of the vault. -/
structure EmissionSettings where
  tokenAccount : Pubkey
  initialIndex : Number
  treasuryTokenAccount : Pubkey
  feeBps : UInt16
deriving DecidableEq

def EmissionInfo.settings (e : EmissionInfo) : EmissionSettings :=
  { tokenAccount := e.tokenAccount
    initialIndex := e.initialIndex
    treasuryTokenAccount := e.treasuryTokenAccount
    feeBps := e.feeBps }

/-- The fields of a vault that are no books. The running window of the limits on claims is books. -/
structure VaultSettings where
  startTs : UInt32
  duration : UInt32
  interestBpsFee : UInt16
  minOpSizeStrip : UInt64
  minOpSizeMerge : UInt64
  status : UInt8
  emissions : List EmissionSettings
  cpiAccounts : CpiAccounts
  maxClaimAmountPerWindow : UInt64
  claimWindowDurationSeconds : UInt32
  maxPySupply : UInt64
deriving DecidableEq

def Vault.settings (v : Vault) : VaultSettings :=
  { startTs := v.startTs
    duration := v.duration
    interestBpsFee := v.interestBpsFee
    minOpSizeStrip := v.minOpSizeStrip
    minOpSizeMerge := v.minOpSizeMerge
    status := v.status
    emissions := v.emissions.map EmissionInfo.settings
    cpiAccounts := v.cpiAccounts
    maxClaimAmountPerWindow := v.claimLimits.maxClaimAmountPerWindow
    claimWindowDurationSeconds := v.claimLimits.claimWindowDurationSeconds
    maxPySupply := v.maxPySupply }

/-- What administrators have set for a farm. -/
structure FarmSettings where
  mint : Pubkey
  tokenRate : UInt64
  expiryTimestamp : UInt32
deriving DecidableEq

def FarmEmission.settings (e : FarmEmission) : FarmSettings :=
  { mint := e.mint, tokenRate := e.tokenRate, expiryTimestamp := e.expiryTimestamp }

/-- The fields of a market that are no books. -/
structure MarketSettings (N : Type) where
  feeTreasurySyBps : UInt16
  statusFlags : UInt8
  expirationTs : UInt64
  lnFeeRateRoot : N
  rateScalarRoot : N
  tokenEscrows : List Pubkey
  farms : List FarmSettings
  maxLpSupply : UInt64
  cpiAccounts : CpiAccounts
  maxNetBalanceChangeNegativePercentage : UInt16
  maxNetBalanceChangePositivePercentage : UInt32
  windowDurationSeconds : UInt32

def MarketTwo.settings (m : MarketTwo N) : MarketSettings N :=
  { feeTreasurySyBps := m.feeTreasurySyBps
    statusFlags := m.statusFlags
    expirationTs := m.financials.expirationTs
    lnFeeRateRoot := m.financials.lnFeeRateRoot
    rateScalarRoot := m.financials.rateScalarRoot
    tokenEscrows := m.emissions.map MarketEmission.tokenEscrow
    farms := m.lpFarm.farmEmissions.map FarmEmission.settings
    maxLpSupply := m.maxLpSupply
    cpiAccounts := m.cpiAccounts
    maxNetBalanceChangeNegativePercentage :=
      m.liquidityNetBalanceLimits.maxNetBalanceChangeNegativePercentage
    maxNetBalanceChangePositivePercentage :=
      m.liquidityNetBalanceLimits.maxNetBalanceChangePositivePercentage
    windowDurationSeconds := m.liquidityNetBalanceLimits.windowDurationSeconds }

structure Settings (N : Type) where
  vault : VaultSettings
  market : MarketSettings N

def Bank.settings (b : Bank N) : Settings N :=
  { vault := b.vault.settings, market := b.market.settings }

/-! ## Switches -/

/-- The status flags, those of the vault first. -/
inductive Switch
  | strip | merge | depositYt | withdrawYt | collectInterest | collectEmissions
  | depositLiquidity | withdrawLiquidity | buyPt | sellPt | buyYt | sellYt
deriving DecidableEq

namespace Switch

def isOn (v : Vault) (m : MarketTwo N) : Switch → Bool
  | strip => v.checkStatusFlags statusCanStrip
  | merge => v.checkStatusFlags statusCanMerge
  | depositYt => v.checkStatusFlags statusCanDepositYt
  | withdrawYt => v.checkStatusFlags statusCanWithdrawYt
  | collectInterest => v.checkStatusFlags statusCanCollectInterest
  | collectEmissions => v.checkStatusFlags statusCanCollectEmissions
  | depositLiquidity => m.checkStatusFlags statusCanDepositLiquidity
  | withdrawLiquidity => m.checkStatusFlags statusCanWithdrawLiquidity
  | buyPt => m.checkStatusFlags statusCanBuyPt
  | sellPt => m.checkStatusFlags statusCanSellPt
  | buyYt => m.checkStatusFlags statusCanBuyYt
  | sellYt => m.checkStatusFlags statusCanSellYt

/-- The direction of a trade. -/
def trade (netTraderPt : Int) : Switch := if 0 < netTraderPt then buyPt else sellPt

end Switch

/-- What an instruction needs is a list of choices: of each, one switch has to be on. -/
abbrev Needs := List (List Switch)

/-- What an instruction checks itself. -/
def Call.needs : Call → Needs
  | strip .. => [[.strip]]
  | merge .. => [[.merge]]
  | depositYt .. => [[.depositYt]]
  | collectInterest .. => [[.collectInterest]]
  | tradePt _ _ _ netTraderPt _ => [[.trade netTraderPt]]
  | depositLiquidity .. => [[.depositLiquidity]]
  | withdrawLiquidity .. => [[.withdrawLiquidity]]
  | _ => []

/-- YT is bought by stripping and selling the PT, and sold by merging with bought PT. -/
def FlashSwap.needs : FlashSwap → Needs
  | buyYt .. => [[.buyYt], [.strip], [.sellPt]]
  | sellYt _ ytIn _ => [[.sellYt], [.merge], [.trade ytIn.toNat]]

def Wrapper.needs : Wrapper → Needs
  | strip .. => [[.strip], [.depositYt]]
  | merge .. => [[.merge]]
  | collectInterest _ => [[.collectInterest]]
  | buyPt _ ptAmount _ => [[.trade (asI64 ptAmount)]]
  | sellPt _ amountPt _ => [[.trade (-asI64 amountPt)]]
  | buyYt .. => [[.buyYt], [.strip], [.sellPt], [.depositYt]]
  | sellYt _ ytAmount _ => [[.sellYt], [.merge], [.trade ytAmount.toNat]]
  | provideLiquidity .. => [[.strip], [.depositLiquidity], [.depositYt]]
  | provideLiquidityBase _ _ externalPtToBuy _ =>
    [[.trade (asI64 externalPtToBuy)], [.depositLiquidity]]
  | provideLiquidityClassic .. => [[.depositLiquidity]]
  -- a cast of the PT withdrawn decides the direction of the trade
  | withdrawLiquidity .. => [[.withdrawLiquidity], [.sellPt, .buyPt]]
  | withdrawLiquidityClassic .. => [[.withdrawLiquidity]]

def VaultOp.needs : VaultOp → Needs
  | strip .. => [[.strip]]
  | merge .. => [[.merge]]
  | depositYt .. => [[.depositYt]]
  | withdrawYt .. => [[.withdrawYt]]
  | collectInterest .. => [[.collectInterest]]
  | collectEmission .. => [[.collectEmissions]]
  | _ => []

def BankOp.needs : BankOp → Needs
  | call c _ => c.needs
  | withdrawYt .. => [[.withdrawYt]]
  | flashSwap x => x.needs
  | wrapper w => w.needs
  | vault op _ => op.needs
  | lp _ _ => []

def Transaction.needs : Transaction → Needs
  | bank _ op => op.needs
  | admin _ | modifyVaultSetting .. | modifyMarketSetting .. => []

end ExponentCore
