import ExponentCore.Num.PreciseNumber

/-!
# The vault account

The fields of `Vault` that its functions read or write, in the order of the source, and the methods
of `state/vault.rs`. The rates are per SY; `emissions` has one entry per reward of the SY program,
in the order in which the SY program lists them.
-/

set_option autoImplicit false

namespace ExponentCore

/-- An account key; the program only compares them. -/
abbrev Pubkey := BitVec 256

/-- What the SY program reports. -/
structure SyState where
  exchangeRate : Number
  emissionIndexes : List Number
deriving DecidableEq

/-- An account to pass to the SY program, as an index into the address lookup table. -/
structure CpiInterfaceContext where
  altIndex : UInt8
  isSigner : Bool
  isWritable : Bool
deriving DecidableEq

structure CpiAccounts where
  getSyState : List CpiInterfaceContext := []
  depositSy : List CpiInterfaceContext := []
  withdrawSy : List CpiInterfaceContext := []
  claimEmission : List (List CpiInterfaceContext) := []
  getPositionState : List CpiInterfaceContext := []
deriving DecidableEq

structure ClaimLimits where
  claimWindowStartTimestamp : UInt32 := 0
  totalClaimAmountInWindow : UInt64 := 0
  maxClaimAmountPerWindow : UInt64 := 0
  claimWindowDurationSeconds : UInt32 := 0
deriving DecidableEq

/-- One reward of the SY program. -/
structure EmissionInfo where
  tokenAccount : Pubkey
  /-- the first index that yield positions may claim from -/
  initialIndex : Number
  lastSeenIndex : Number
  /-- the last index that yield positions may claim up to, frozen when the vault expires -/
  finalIndex : Number
  treasuryTokenAccount : Pubkey
  feeBps : UInt16
  treasuryEmission : UInt64
deriving DecidableEq

def EmissionInfo.new (tokenAccount treasuryTokenAccount : Pubkey) (currentIndex : Number)
    (feeBps : UInt16) : EmissionInfo :=
  { tokenAccount, treasuryTokenAccount, initialIndex := currentIndex, lastSeenIndex := currentIndex,
    finalIndex := currentIndex, treasuryEmission := 0, feeBps }

structure Vault where
  startTs : UInt32 := 0
  duration : UInt32 := 0
  /-- updated even after maturity, to follow the appreciation that goes to the treasury -/
  lastSeenSyExchangeRate : Number := 0
  allTimeHighSyExchangeRate : Number := 0
  /-- the rate when the vault expires -/
  finalSyExchangeRate : Number := 0
  totalSyInEscrow : UInt64 := 0
  /-- the SY set aside to back the PT holders -/
  syForPt : UInt64 := 0
  ptSupply : UInt64 := 0
  treasurySy : UInt64 := 0
  /-- SY earned by YT holders and not yet collected -/
  uncollectedSy : UInt64 := 0
  interestBpsFee : UInt16 := 0
  minOpSizeStrip : UInt64 := 0
  minOpSizeMerge : UInt64 := 0
  status : UInt8 := 0
  emissions : List EmissionInfo := []
  cpiAccounts : CpiAccounts := {}
  claimLimits : ClaimLimits := {}
  maxPySupply : UInt64 := 0

/-! ## Status flags -/

def statusCanStrip : UInt8 := 0b00000001
def statusCanMerge : UInt8 := 0b00000010
def statusCanDepositYt : UInt8 := 0b00000100
def statusCanWithdrawYt : UInt8 := 0b00001000
def statusCanCollectInterest : UInt8 := 0b00010000
def statusCanCollectEmissions : UInt8 := 0b00100000

/-! ## Pure helpers -/

/-- `calc_sy_appreciation`: the SY earned from an appreciation of the exchange rate. -/
def calcSyAppreciation (lastSeenRate currentRate : Number) (syBalance : UInt64) :
    Outcome UInt64 :=
  if currentRate ≤ lastSeenRate then .ok 0
  else do
    let delta ← currentRate.sub lastSeenRate
    let appreciation ← delta.mul (Number.fromNaturalU64 syBalance)
    let sy ← appreciation.div currentRate
    sy.floorU64

/-- `sy_backing_for_pt`: the value of the PT in SY, but no more than the SY there is. -/
def syBackingForPt (syExchangeRate : Number) (ptSupply syInEscrow : UInt64) : Outcome UInt64 :=
  if syExchangeRate = 0 then .ok 0
  else do
    let syNormal ← (Number.fromNaturalU64 ptSupply).div syExchangeRate
    let syNormal ← syNormal.floorU64
    .ok (min syNormal syInEscrow)

namespace Vault

variable (v : Vault)

/-! ## Time and rates -/

def isExpired (currentTs : UInt32) : Outcome Bool := do
  let maturity ← addU32 v.startTs v.duration
  .ok (maturity < currentTs)

/-- `&&` does not look at the maturity before the start. -/
def isActive (currentTs : UInt32) : Outcome Bool :=
  if v.startTs ≤ currentTs then do
    let expired ← v.isExpired currentTs
    .ok (!expired)
  else .ok false

/-- `sy_balance_invariant`: what is set aside is in the escrow. The sum is that of the naturals. -/
def SyBalanceInvariant : Prop :=
  v.syForPt.toNat + v.treasurySy.toNat + v.uncollectedSy.toNat ≤ v.totalSyInEscrow.toNat

instance : Decidable v.SyBalanceInvariant := inferInstanceAs (Decidable (_ ≤ _))

/-- The SY rate is below its all-time high. -/
def isInEmergencyMode : Bool := v.lastSeenSyExchangeRate < v.allTimeHighSyExchangeRate

/-- The share of the backing that one PT redeems. -/
def ptRedemptionRate : Number := Number.fromRatio v.syForPt v.ptSupply

def checkStatusFlags (requiredFlags : UInt8) : Bool := v.status &&& requiredFlags = requiredFlags

def isMinOpSizeStrip (amount : UInt64) : Bool := v.minOpSizeStrip ≤ amount

def isMinOpSizeMerge (amount : UInt64) : Bool := v.minOpSizeMerge ≤ amount

/-! ## Counters -/

def incTotalSyInEscrow (amount : UInt64) : Outcome Vault := do
  let t ← expect "overflow adding SY to escrow for vault" (checkedAdd v.totalSyInEscrow amount)
  .ok { v with totalSyInEscrow := t }

def decTotalSyInEscrow (amount : UInt64) : Outcome Vault := do
  let t ← expect "underflow subtracting SY from escrow for vault"
    (checkedSub v.totalSyInEscrow amount)
  .ok { v with totalSyInEscrow := t }

def incPtSupply (amount : UInt64) : Outcome Vault := do
  let t ← expect "overflow adding PT supply for vault" (checkedAdd v.ptSupply amount)
  assertTrue (t ≤ v.maxPySupply) ""
  .ok { v with ptSupply := t }

def decPtSupply (amount : UInt64) : Outcome Vault := do
  let t ← expect "underflow subtracting PT supply for vault" (checkedSub v.ptSupply amount)
  .ok { v with ptSupply := t }

def incTreasurySy (amount : UInt64) : Outcome Vault := do
  let t ← expect "overflow adding treasury SY for vault" (checkedAdd v.treasurySy amount)
  .ok { v with treasurySy := t }

def incUncollectedSy (amount : UInt64) : Outcome Vault := do
  let t ← expect "overflow adding uncollected SY for vault" (checkedAdd v.uncollectedSy amount)
  .ok { v with uncollectedSy := t }

def decUncollectedSy (amount : UInt64) : Outcome Vault := do
  let t ← expect "underflow subtracting uncollected SY for vault"
    (checkedSub v.uncollectedSy amount)
  .ok { v with uncollectedSy := t }

def collectTreasuryInterest (amount : UInt64) : Outcome Vault := do
  let t ← unwrap (checkedSub v.treasurySy amount)
  .ok { v with treasurySy := t }

/-- The SY that is neither the treasury's nor set aside for YT holders; `0` when they exceed the
escrow. -/
def activeSy : UInt64 :=
  ((checkedSub v.totalSyInEscrow v.treasurySy).bind fun x => checkedSub x v.uncollectedSy).getD 0

def syBackingPt : Outcome UInt64 :=
  syBackingForPt v.lastSeenSyExchangeRate v.ptSupply v.activeSy

def setSyForPt : Outcome Vault := do
  let sy ← v.syBackingPt
  .ok { v with syForPt := sy }

/-! ## Updating from the SY state -/

/-- After maturity, and only beyond the all-time high, SY appreciation goes to the treasury. -/
def canCollectSyLambo (now : UInt32) (curSyState : SyState) : Outcome Bool := do
  let expired ← v.isExpired now
  .ok (expired && decide (v.allTimeHighSyExchangeRate < curSyState.exchangeRate))

def canCollectEmissionLambo (now : UInt32) : Outcome Bool := v.isExpired now

def calcSySurplus (curSyState : SyState) : Outcome UInt64 :=
  calcSyAppreciation v.lastSeenSyExchangeRate curSyState.exchangeRate v.activeSy

def calcEmissionSurpluses (curSyState : SyState) : Outcome (List UInt64) :=
  (v.emissions.zip curSyState.emissionIndexes).mapM fun (emission, index) =>
    calcShareValue emission.lastSeenIndex index v.totalSyInEscrow

/-- The loop of `increase_emission_lambo_fund`. -/
def addTreasuryEmissions : List EmissionInfo → List UInt64 → Outcome (List EmissionInfo)
  | es, [] => .ok es
  | [], _ :: _ => .error (.panic .indexOutOfBounds)
  | e :: es, s :: ss => do
    let t ← unwrap (checkedAdd e.treasuryEmission s)
    let es ← addTreasuryEmissions es ss
    .ok ({ e with treasuryEmission := t } :: es)

def increaseEmissionLamboFund (surpluses : List UInt64) : Outcome Vault := do
  let emissions ← addTreasuryEmissions v.emissions surpluses
  .ok { v with emissions }

/-- The loop of `update_from_sy_state` over the reported indexes. -/
def recordIndexes (active : Bool) : List EmissionInfo → List Number → Outcome (List EmissionInfo)
  | es, [] => .ok es
  | [], _ :: _ => .error (.panic .indexOutOfBounds)
  | e :: es, x :: xs => do
    let es ← recordIndexes active es xs
    .ok ({ e with lastSeenIndex := x, finalIndex := if active then x else e.finalIndex } :: es)

/-- The SY part of the treasury's share. -/
def skimSy (syState : SyState) (now : UInt32) : Outcome Vault := do
  if ← v.canCollectSyLambo now syState then
    let surplusSy ← v.calcSySurplus syState
    v.incTreasurySy surplusSy
  else .ok v

/-- The emission part of the treasury's share. -/
def skimEmissions (syState : SyState) (now : UInt32) : Outcome Vault := do
  if ← v.canCollectEmissionLambo now then
    let surplusEmissions ← v.calcEmissionSurpluses syState
    v.increaseEmissionLamboFund surplusEmissions
  else .ok v

/-- The rates and indexes of the SY state; the final ones only while the vault is active. -/
def recordSyState (syState : SyState) (now : UInt32) : Outcome Vault := do
  let curRate := syState.exchangeRate
  let active ← v.isActive now
  let emissions ← recordIndexes active v.emissions syState.emissionIndexes
  .ok { v with
    lastSeenSyExchangeRate := curRate
    allTimeHighSyExchangeRate := max curRate v.allTimeHighSyExchangeRate
    finalSyExchangeRate := if active then curRate else v.finalSyExchangeRate
    emissions }

def updateFromSyState (syState : SyState) (now : UInt32) : Outcome Vault := do
  let v ← v.skimSy syState now
  let v ← v.skimEmissions syState now
  let v ← v.recordSyState syState now
  v.setSyForPt

/-! ## Emissions -/

def addEmission (tokenAccount : Pubkey) (syState : SyState) (treasuryTokenAccount : Pubkey)
    (feeBps : UInt16) : Outcome Vault := do
  let lastSeenIndex ← getAt syState.emissionIndexes v.emissions.length
  .ok { v with
    emissions := v.emissions ++
      [EmissionInfo.new tokenAccount treasuryTokenAccount lastSeenIndex feeBps] }

end Vault

end ExponentCore
