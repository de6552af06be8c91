import ExponentCore.Vault.Position

/-!
# The vault handlers

`handle_strip`, `handle_merge`, `handle_deposit_yt`, `handle_withdraw_yt` and
`handle_stage_yt_yield`, and the state changes of the collect instructions. A handler that mutates
accounts in the source takes them and returns them here.
-/

set_option autoImplicit false

namespace ExponentCore

/-- An amount to collect: everything, or a number that must be available. -/
inductive Amount
  | all
  | some (requestedAmount : UInt64)
deriving DecidableEq

def Amount.toU64 : Amount → UInt64 → Outcome UInt64
  | .all, positionBalance => .ok positionBalance
  | .some requestedAmount, positionBalance =>
    if requestedAmount ≤ positionBalance then .ok requestedAmount
    else .error (.amountError .amountLargerThanAvailable)

/-! ## Shared steps -/

/-- `update_vault_yield`: record the SY state, then stage what the vault's own YT has earned. -/
def updateVaultYield (vault : Vault) (vaultYieldPosition : YieldTokenPosition) (now : UInt32)
    (syState : SyState) : Outcome (Vault × YieldTokenPosition) := do
  let vault ← vault.updateFromSyState syState now
  vaultYieldPosition.earnAllWithTracking vault

/-- `yield_position_earn` -/
def yieldPositionEarn (vault : Vault) (yieldPosition : YieldTokenPosition) :
    Outcome (Vault × YieldTokenPosition) :=
  yieldPosition.earnAllWithTracking vault

def requireNoEmergency (vault : Vault) : Outcome Unit :=
  require (vault.isInEmergencyMode = false) .vaultInEmergencyMode

/-! ## Strip and merge -/

/-- Returns the amount of PT and YT to mint. -/
def handleStrip (vault : Vault) (vaultYieldPosition : YieldTokenPosition)
    (currentUnixTimestamp : UInt32) (syState : SyState) (amountSy : UInt64) :
    Outcome (Vault × YieldTokenPosition × UInt64) := do
  let (vault, vaultYieldPosition) ←
    updateVaultYield vault vaultYieldPosition currentUnixTimestamp syState
  requireNoEmergency vault
  let amountPy ← syToPy vault.lastSeenSyExchangeRate amountSy
  let vault ← vault.incTotalSyInEscrow amountSy
  let vault ← vault.incPtSupply amountPy
  let vaultYieldPosition ← vaultYieldPosition.incYtBalance amountPy
  let vault ← vault.setSyForPt
  .ok (vault, vaultYieldPosition, amountPy)

/-- `calc_amount_sy`: the SY that an amount of PT redeems. -/
def calcAmountSy (vault : Vault) (amountPy : UInt64) : Outcome UInt64 := do
  let sy ← (Number.fromNaturalU64 amountPy).mul vault.ptRedemptionRate
  sy.floorU64

def adjustVaultBalances (vault : Vault) (amountSy amountPt : UInt64) : Outcome Vault := do
  let vault ← vault.decTotalSyInEscrow amountSy
  vault.decPtSupply amountPt

/-- The YT of a merge is only burned while the vault is active. -/
def YieldTokenPosition.burnYt (p : YieldTokenPosition) (active : Bool) (amountPy : UInt64) :
    Outcome YieldTokenPosition :=
  if active then p.decYtBalance amountPy else .ok p

/-- Returns the amount of SY to pay out. -/
def handleMerge (vault : Vault) (vaultYieldPosition : YieldTokenPosition) (now : UInt32)
    (syState : SyState) (amountPy : UInt64) :
    Outcome (Vault × YieldTokenPosition × UInt64) := do
  let (vault, vaultYieldPosition) ← updateVaultYield vault vaultYieldPosition now syState
  requireNoEmergency vault
  let active ← vault.isActive now
  let vaultYieldPosition ← vaultYieldPosition.burnYt active amountPy
  let amountSy ← calcAmountSy vault amountPy
  let vault ← adjustVaultBalances vault amountSy amountPy
  let vault ← vault.setSyForPt
  .ok (vault, vaultYieldPosition, amountSy)

/-! ## Moving YT between the vault and a user -/

def handleDepositYt (vault : Vault) (vaultYieldPosition userYieldPosition : YieldTokenPosition)
    (syState : SyState) (now : UInt32) (amount : UInt64) :
    Outcome (Vault × YieldTokenPosition × YieldTokenPosition) := do
  let (vault, vaultYieldPosition) ← updateVaultYield vault vaultYieldPosition now syState
  requireNoEmergency vault
  let (vault, userYieldPosition) ← yieldPositionEarn vault userYieldPosition
  let userYieldPosition ← userYieldPosition.incYtBalance amount
  let vaultYieldPosition ← vaultYieldPosition.decYtBalance amount
  let vault ← vault.setSyForPt
  .ok (vault, vaultYieldPosition, userYieldPosition)

/-- The only handler that goes on in emergency mode after recording the rate. -/
def handleWithdrawYt (vault : Vault) (vaultYieldPosition userYieldPosition : YieldTokenPosition)
    (syState : SyState) (now : UInt32) (amount : UInt64) :
    Outcome (Vault × YieldTokenPosition × YieldTokenPosition) := do
  let (vault, vaultYieldPosition) ← updateVaultYield vault vaultYieldPosition now syState
  let (vault, userYieldPosition) ← yieldPositionEarn vault userYieldPosition
  let userYieldPosition ← userYieldPosition.decYtBalance amount
  let vaultYieldPosition ← vaultYieldPosition.incYtBalance amount
  let vault ← vault.setSyForPt
  .ok (vault, vaultYieldPosition, userYieldPosition)

def handleStageYtYield (vault : Vault) (vaultYieldPosition userYieldPosition : YieldTokenPosition)
    (syState : SyState) (now : UInt32) :
    Outcome (Vault × YieldTokenPosition × YieldTokenPosition) := do
  let (vault, vaultYieldPosition) ← updateVaultYield vault vaultYieldPosition now syState
  requireNoEmergency vault
  let (vault, userYieldPosition) ← yieldPositionEarn vault userYieldPosition
  let vault ← vault.setSyForPt
  .ok (vault, vaultYieldPosition, userYieldPosition)

/-! ## Collecting interest -/

/-- The fee is rounded up and taken out of the amount. Returns the user's part and the fee. -/
def calcCollectInterest (amountSy : UInt64) (interestBpsFee : UInt16) :
    Outcome (UInt64 × UInt64) := do
  -- the `u128` product cannot overflow; the cast back to `u64` truncates
  let feeSy := UInt64.ofNat ((amountSy.toNat * interestBpsFee.toNat + 9999) / 10000)
  let userSy ← unwrap (checkedSub amountSy feeSy)
  .ok (userSy, feeSy)

def handleCollectInterest (vault : Vault) (yieldPosition : YieldTokenPosition)
    (amountSy : UInt64) : Outcome (Vault × YieldTokenPosition × UInt64 × UInt64) := do
  let (userSy, feeSy) ← calcCollectInterest amountSy vault.interestBpsFee
  let vault ← vault.decTotalSyInEscrow amountSy
  let interest ← yieldPosition.interest.collect amountSy
  let vault ← vault.decUncollectedSy amountSy
  .ok (vault, { yieldPosition with interest }, userSy, feeSy)

/-- The state changes of the `collect_interest` instruction, with limits that allow them. The amount
is checked against what was staged before the position earns, and the vault does not look at the SY
state. -/
def collectInterest (vault : Vault) (yieldPosition : YieldTokenPosition) (amount : Amount) :
    Outcome (Vault × YieldTokenPosition × UInt64 × UInt64) := do
  let amountSy ← amount.toU64 yieldPosition.interest.staged
  let (vault, yieldPosition) ← yieldPositionEarn vault yieldPosition
  handleCollectInterest vault yieldPosition amountSy

inductive CollectTreasuryInterestKind
  | yieldPosition
  | treasuryInterest
deriving DecidableEq

/-- The state changes of `collect_treasury_interest`; the position is the vault's own. -/
def collectTreasuryInterest (vault : Vault) (yieldPosition : YieldTokenPosition) (amount : Amount) :
    CollectTreasuryInterestKind → Outcome (Vault × YieldTokenPosition)
  | .yieldPosition => do
    let amountToSend ← amount.toU64 yieldPosition.interest.staged
    let interest ← yieldPosition.interest.collect amountToSend
    let vault ← vault.decUncollectedSy amountToSend
    let vault ← vault.decTotalSyInEscrow amountToSend
    .ok (vault, { yieldPosition with interest })
  | .treasuryInterest => do
    let amountToSend ← amount.toU64 vault.treasurySy
    let vault ← vault.collectTreasuryInterest amountToSend
    let vault ← vault.decTotalSyInEscrow amountToSend
    .ok (vault, yieldPosition)

/-! ## Collecting emissions -/

/-- The fee is rounded up; all in `u64`, so a large amount overflows. -/
def handleCollectEmission (amountToSend : UInt64) (feeBps : UInt16) :
    Outcome (UInt64 × UInt64) := do
  let product ← mulU64 amountToSend feeBps.toUInt64
  let rounded ← addU64 product 9999
  let treasuryAmount := rounded / 10000
  -- `saturating_sub`
  let userAmount := if treasuryAmount ≤ amountToSend then amountToSend - treasuryAmount else 0
  let sum ← addU64 userAmount treasuryAmount
  assertTrue (sum = amountToSend)
    "The sum of user_amount and treasury_amount should be equal to amount_to_send"
  .ok (userAmount, treasuryAmount)

/-- Takes an amount out of what a position has staged for one emission. -/
def YieldTokenPosition.collectEmissionAt (p : YieldTokenPosition) (index : UInt16)
    (amount : UInt64) : Outcome YieldTokenPosition := do
  let t ← getAt p.emissions index.toNat
  let t ← t.collect amount
  let emissions ← setAt p.emissions index.toNat t
  .ok { p with emissions }

/-- The state changes of the `collect_emission` instruction. -/
def collectEmission (vault : Vault) (position : YieldTokenPosition) (index : UInt16)
    (amount : Amount) : Outcome (YieldTokenPosition × UInt64 × UInt64) := do
  let t ← getAt position.emissions index.toNat
  let amountToSend ← amount.toU64 t.staged
  let _claimAccounts ← getAt vault.cpiAccounts.claimEmission index.toNat
  let emission ← getAt vault.emissions index.toNat
  let (userAmount, treasuryAmount) ← handleCollectEmission amountToSend emission.feeBps
  let position ← position.collectEmissionAt index amountToSend
  .ok (position, userAmount, treasuryAmount)

inductive CollectTreasuryEmissionKind
  | yieldPosition
  | treasuryEmission
deriving DecidableEq

/-- The state changes of `collect_treasury_emission`; the position is the vault's own. -/
def collectTreasuryEmission (vault : Vault) (yieldPosition : YieldTokenPosition) (index : UInt16)
    (amount : Amount) : CollectTreasuryEmissionKind → Outcome (Vault × YieldTokenPosition)
  | .yieldPosition => do
    let t ← getAt yieldPosition.emissions index.toNat
    let amountToSend ← amount.toU64 t.staged
    let _claimAccounts ← getAt vault.cpiAccounts.claimEmission index.toNat
    let yieldPosition ← yieldPosition.collectEmissionAt index amountToSend
    .ok (vault, yieldPosition)
  | .treasuryEmission => do
    let emission ← getAt vault.emissions index.toNat
    let amountToSend ← amount.toU64 emission.treasuryEmission
    let _claimAccounts ← getAt vault.cpiAccounts.claimEmission index.toNat
    let t ← unwrap (checkedSub emission.treasuryEmission amountToSend)
    let emissions ← setAt vault.emissions index.toNat { emission with treasuryEmission := t }
    .ok ({ vault with emissions }, yieldPosition)

/-- `AdminAction::RemoveVaultEmission` -/
def removeVaultEmission (vault : Vault) (emissionIndex : UInt8) : Outcome Vault :=
  if emissionIndex.toNat < vault.emissions.length then
    .ok { vault with emissions := vault.emissions.eraseIdx emissionIndex.toNat }
  else .error (.panic .indexOutOfBounds)

end ExponentCore
