import ExponentCore.Vault.World

/-!
# A position that follows the indexes of a vault

`update_from_sy_state` observes what the SY program reports, and `earn_all_with_tracking` stages a
position from it. `Observation` is a vault and one of its positions under any sequence of the two;
`IndexLog` is the history of the index of one slot, recorded beside it.
-/

set_option autoImplicit false

namespace ExponentCore

structure Observation where
  vault : Vault
  position : YieldTokenPosition
  clock : UInt32

inductive ObservationOp
  | update (now : UInt32) (syState : SyState)
  | stage

namespace Observation

def step (s : Observation) : ObservationOp → Outcome Observation
  | .update now syState => do
    let vault ← s.vault.updateFromSyState syState now
    .ok { s with vault, clock := now }
  | .stage => do
    let (vault, position) ← s.position.earnAllWithTracking s.vault
    .ok { s with vault, position }

end Observation

/-- The highest indexes of a slot so far. -/
structure IndexLog where
  /-- observed while the vault was active -/
  highestActive : Nat
  /-- observed up to maturity -/
  highestToMaturity : Nat
  /-- observed at all -/
  highest : Nat
  /-- that the tracker of the position has had -/
  highestTracker : Nat
deriving DecidableEq

namespace IndexLog

/-- The index that an update has observed, read from the vault after it. -/
def observe (slot : Nat) (now : UInt32) (before after : Vault) (l : IndexLog) : IndexLog :=
  match after.emissions[slot]? with
  | some e =>
    { l with
      highestActive :=
        if before.isActive now = .ok true then max l.highestActive e.lastSeenIndex.raw
        else l.highestActive
      highestToMaturity :=
        if before.isExpired now = .ok false then max l.highestToMaturity e.lastSeenIndex.raw
        else l.highestToMaturity
      highest := max l.highest e.lastSeenIndex.raw }
  | none => l

/-- The index at which a staging has left the tracker. -/
def settle (slot : Nat) (after : YieldTokenPosition) (l : IndexLog) : IndexLog :=
  { l with
    highestTracker := max l.highestTracker
      (((after.emissions[slot]?).map fun t => t.lastSeenIndex.raw).getD 0) }

def record (slot : Nat) (s : Observation) (op : ObservationOp) (s' : Observation) (l : IndexLog) :
    IndexLog :=
  match op with
  | .update now _ => l.observe slot now s.vault s'.vault
  | .stage => l.settle slot s'.position

end IndexLog

end ExponentCore
