import ExponentCore.Market.State

/-!
# LP positions

A position stakes LP tokens and stages what they earn: one tracker per emission of the market and
one per farm. Trackers are matched with the market's lists by their place; a tracker that is missing
starts from index zero.
-/

set_option autoImplicit false

namespace ExponentCore

structure PersonalYieldTracker where
  lastSeenIndex : Number := 0
  staged : UInt64 := 0
deriving DecidableEq

structure LpPosition where
  owner : Pubkey := 0
  lpBalance : UInt64 := 0
  emissions : List PersonalYieldTracker := []
  farms : List PersonalYieldTracker := []
deriving DecidableEq

namespace PersonalYieldTracker

variable (t : PersonalYieldTracker)

def calcEarnedEmissions (currentIndex : Number) (lpAmountUser : UInt64) : Outcome UInt64 := do
  let delta ← currentIndex.sub t.lastSeenIndex
  let earned ← delta.mul (Number.fromNaturalU64 lpAmountUser)
  earned.floorU64

def decStaged (amount : UInt64) : Outcome PersonalYieldTracker := do
  let s ← expect "insufficient staged balance" (checkedSub t.staged amount)
  .ok { t with staged := s }

end PersonalYieldTracker

namespace PersonalYieldTrackers

/-- One tracker per index. -/
def ensureTrackers (ts : List PersonalYieldTracker) (emissionIndexes : List Number) :
    List PersonalYieldTracker :=
  ts ++ List.replicate (emissionIndexes.length - ts.length) ⟨0, 0⟩

/-- One round of the loop of `earn_all`. -/
def earn (lpBalanceUser : UInt64) (t : PersonalYieldTracker) (emissionIndex : Number) :
    Outcome PersonalYieldTracker := do
  let earnedEmission ← t.calcEarnedEmissions emissionIndex lpBalanceUser
  let staged ← expect "overflow on staging emission" (checkedAdd t.staged earnedEmission)
  .ok ⟨emissionIndex, staged⟩

/-- The loop of `earn_all`. -/
def earnAll (lpBalanceUser : UInt64) :
    List PersonalYieldTracker → List Number → Outcome (List PersonalYieldTracker)
  | ts, [] => .ok ts
  | [], _ :: _ => .error (.panic .indexOutOfBounds)
  | t :: ts, x :: xs => do
    let t ← earn lpBalanceUser t x
    let ts ← earnAll lpBalanceUser ts xs
    .ok (t :: ts)

def ensureTrackersAndEarnAll (ts : List PersonalYieldTracker) (emissionIndexes : List Number)
    (lpBalanceUser : UInt64) : Outcome (List PersonalYieldTracker) :=
  earnAll lpBalanceUser (ensureTrackers ts emissionIndexes) emissionIndexes

end PersonalYieldTrackers

namespace LpPosition

def newFromMarket {K : Type} (m : MarketTwo K) (owner : Pubkey) : LpPosition :=
  { owner
    lpBalance := 0
    emissions := m.emissions.map fun e => ⟨e.lpShareIndex, 0⟩
    farms := m.lpFarm.farmEmissions.map fun e => ⟨e.index, 0⟩ }

variable (p : LpPosition)

def stageAll (emissionIndexes farmIndexes : List Number) : Outcome LpPosition := do
  let emissions ←
    PersonalYieldTrackers.ensureTrackersAndEarnAll p.emissions emissionIndexes p.lpBalance
  let farms ← PersonalYieldTrackers.ensureTrackersAndEarnAll p.farms farmIndexes p.lpBalance
  .ok { p with emissions, farms }

def rmLp (amount : UInt64) : Outcome LpPosition := do
  let b ← expect "insufficent LP token balance" (checkedSub p.lpBalance amount)
  .ok { p with lpBalance := b }

def addLp (amount : UInt64) : Outcome LpPosition := do
  let b ← expect "lp balance overflow" (checkedAdd p.lpBalance amount)
  .ok { p with lpBalance := b }

end LpPosition

end ExponentCore
