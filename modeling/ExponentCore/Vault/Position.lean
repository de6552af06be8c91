import ExponentCore.Vault.State

/-!
# Yield token positions

A position holds YT and stages what the YT earns: interest in SY, and one tracker per emission of
the vault. The vault owns a position too; it holds all YT that no user has deposited.
-/

set_option autoImplicit false

namespace ExponentCore

structure YieldTokenTracker where
  lastSeenIndex : Number := 0
  staged : UInt64 := 0
deriving DecidableEq

structure YieldTokenPosition where
  owner : Pubkey := 0
  vault : Pubkey := 0
  ytBalance : UInt64 := 0
  interest : YieldTokenTracker := {}
  emissions : List YieldTokenTracker := []
deriving DecidableEq

namespace YieldTokenTracker

variable (t : YieldTokenTracker)

def incStaged (amount : UInt64) : Outcome YieldTokenTracker := do
  let s ← unwrap (checkedAdd t.staged amount)
  .ok { t with staged := s }

def collect (amount : UInt64) : Outcome YieldTokenTracker := do
  let s ← unwrap (checkedSub t.staged amount)
  .ok { t with staged := s }

end YieldTokenTracker

/-- `calc_earned_sy`: the SY that YT earns while the rate rises from one value to another. -/
def calcEarnedSy (ytBalance : UInt64) (syExchangeRateLastSeen syExchangeRateCur : Number) :
    Outcome UInt64 :=
  if syExchangeRateCur ≤ syExchangeRateLastSeen ∨ ytBalance = 0 ∨ syExchangeRateLastSeen = 0 then
    .ok 0
  else do
    let before ← Number.div 1 syExchangeRateLastSeen
    let after ← Number.div 1 syExchangeRateCur
    let delta ← before.sub after
    let syEarned ← delta.mul (Number.fromNaturalU64 ytBalance)
    syEarned.floorU64

/-- `scale_sy_to_current_rate`: what was earned up to the final rate is worth less SY at a higher
current rate. -/
def scaleSyToCurrentRate (syAmount : UInt64) (finalRate currentRate : Number) : Outcome UInt64 :=
  if currentRate ≤ finalRate then .ok syAmount
  else do
    let scale ← finalRate.div currentRate
    let scaled ← scale.mul (Number.fromNaturalU64 syAmount)
    scaled.floorU64

namespace YieldTokenPosition

variable (p : YieldTokenPosition)

def incYtBalance (amount : UInt64) : Outcome YieldTokenPosition := do
  let b ← unwrap (checkedAdd p.ytBalance amount)
  .ok { p with ytBalance := b }

def decYtBalance (amount : UInt64) : Outcome YieldTokenPosition := do
  let b ← unwrap (checkedSub p.ytBalance amount)
  .ok { p with ytBalance := b }

/-- The interest that staging the position credits, at the frozen rate of the vault. -/
def interestDue (vault : Vault) : Outcome UInt64 := do
  let rate := vault.finalSyExchangeRate
  let syEarned ← calcEarnedSy p.ytBalance p.interest.lastSeenIndex rate
  scaleSyToCurrentRate syEarned rate vault.lastSeenSyExchangeRate

def earnSyInterest (vault : Vault) : Outcome (Vault × YieldTokenPosition) :=
  if vault.isInEmergencyMode then .ok (vault, p)
  else do
    let syEarned ← p.interestDue vault
    let interest ← p.interest.incStaged syEarned
    let vault ← vault.incUncollectedSy syEarned
    .ok (vault,
      { p with interest := { interest with lastSeenIndex := vault.finalSyExchangeRate } })

/-- The balance that emissions are paid on. -/
def totalSyBalance (vault : Vault) : Outcome UInt64 := do
  let sy ← pyToSy vault.finalSyExchangeRate p.ytBalance
  addU64 p.interest.staged sy

/-- The loop of `earn_emissions`. -/
def earnTrackers (syBalance : UInt64) :
    List YieldTokenTracker → List EmissionInfo → Outcome (List YieldTokenTracker)
  | ts, [] => .ok ts
  | [], _ :: _ => .error (.panic .indexOutOfBounds)
  | t :: ts, e :: es => do
    let earnedEmission ← calcShareValue t.lastSeenIndex e.finalIndex syBalance
    let t ← t.incStaged earnedEmission
    let ts ← earnTrackers syBalance ts es
    .ok ({ t with lastSeenIndex := e.finalIndex } :: ts)

def earnEmissions (vault : Vault) : Outcome YieldTokenPosition := do
  let syBalance ← p.totalSyBalance vault
  let emissions ← earnTrackers syBalance p.emissions vault.emissions
  .ok { p with emissions }

/-- One tracker per emission of the vault; the missing ones start from zero. -/
def ensureTrackers (vault : Vault) : YieldTokenPosition :=
  { p with
    emissions := p.emissions ++ List.replicate (vault.emissions.length - p.emissions.length) {} }

def earnAll (vault : Vault) : Outcome (Vault × YieldTokenPosition) := do
  let (vault, p) ← p.earnSyInterest vault
  let p ← p.earnEmissions vault
  .ok (vault, p)

def earnAllWithTracking (vault : Vault) : Outcome (Vault × YieldTokenPosition) :=
  (p.ensureTrackers vault).earnAll vault

end YieldTokenPosition

end ExponentCore
