import ExponentCore.Vault.World

/-!
# The history of a vault

A vault does not remember what it has minted or paid. `VaultLedger` does: it is recorded beside the
run (`Machine.recording`), from the state before and the state after each successful operation.

What was ever credited is what is still staged and what was paid out of it: `interestCredited`,
`emissionCredited` and `treasuryEmissionCredited`.
-/

set_option autoImplicit false

namespace ExponentCore

/-- A strip: the PY it minted and the rate it recorded. -/
structure StripRecord where
  py : Nat
  rate : Number
deriving DecidableEq

/-- A merge: the PY it burned, the rate it recorded, and whether YT was burned with the PT. -/
structure MergeRecord where
  py : Nat
  rate : Number
  burnsYt : Bool
deriving DecidableEq

structure VaultLedger where
  /-- SY paid out of the staged interest of positions -/
  interestPaid : Nat := 0
  strips : List StripRecord := []
  merges : List MergeRecord := []
  /-- the highest rate that was recorded while the vault was active -/
  highestRate : Number := 0
  /-- emissions paid out of the trackers of positions, by slot -/
  emissionPaid : Nat → Nat := fun _ => 0
  /-- emissions paid out of the treasury's share, by slot -/
  treasuryEmissionPaid : Nat → Nat := fun _ => 0
  /-- growth of the index times the SY in escrow, summed over the updates, by slot -/
  accrual : Nat → Nat := fun _ => 0

/-! ## Totals over the positions -/

namespace YieldTokenPosition

/-- What a position has staged of one emission; a missing tracker has staged nothing. -/
def stagedEmission (p : YieldTokenPosition) (slot : Nat) : Nat :=
  ((p.emissions[slot]?).map fun t => t.staged.toNat).getD 0

end YieldTokenPosition

namespace VaultWorld

variable (w : VaultWorld)

def stagedInterest : Nat := (w.positions.map fun p => p.interest.staged.toNat).sum

def stagedEmission (slot : Nat) : Nat := (w.positions.map fun p => p.stagedEmission slot).sum

/-- What the treasury's share holds of one emission. -/
def treasuryEmission (slot : Nat) : Nat :=
  ((w.vault.emissions[slot]?).map fun e => e.treasuryEmission.toNat).getD 0

/-- How much the index of a slot has grown from one vault to another. -/
def indexGrowth (before after : Vault) (slot : Nat) : Nat :=
  match before.emissions[slot]?, after.emissions[slot]? with
  | some e, some e' => e'.lastSeenIndex.raw - e.lastSeenIndex.raw
  | _, _ => 0

end VaultWorld

/-! ## Recording -/

namespace VaultLedger

variable (g : VaultLedger)

/-- A vault has recorded a SY state. -/
def sawSyState (now : UInt32) (before after : Vault) : VaultLedger :=
  { g with
    highestRate :=
      if before.isActive now = .ok true then max g.highestRate after.lastSeenSyExchangeRate
      else g.highestRate
    accrual := fun slot =>
      g.accrual slot + VaultWorld.indexGrowth before after slot * before.totalSyInEscrow.toNat }

/-- A slot has paid out to the holder of a position. -/
def paidEmission (slot amount : Nat) : VaultLedger :=
  { g with
    emissionPaid := fun j => if j = slot then g.emissionPaid j + amount else g.emissionPaid j }

/-- A slot has paid out to the treasury. -/
def paidTreasuryEmission (slot amount : Nat) : VaultLedger :=
  { g with
    treasuryEmissionPaid := fun j =>
      if j = slot then g.treasuryEmissionPaid j + amount else g.treasuryEmissionPaid j }

end VaultLedger

/-- The ledger after an operation that took the world from `w` to `w'`. -/
def VaultLedger.record (w : VaultWorld) (op : VaultOp) (w' : VaultWorld) (g : VaultLedger) :
    VaultLedger :=
  match op with
  | .strip now _ _ =>
    { g.sawSyState now w.vault w'.vault with
      strips := ⟨w'.vault.ptSupply.toNat - w.vault.ptSupply.toNat,
        w'.vault.lastSeenSyExchangeRate⟩ :: g.strips }
  | .merge now _ _ =>
    { g.sawSyState now w.vault w'.vault with
      merges := ⟨w.vault.ptSupply.toNat - w'.vault.ptSupply.toNat,
        w'.vault.lastSeenSyExchangeRate, w.vault.isActive now = .ok true⟩ :: g.merges }
  | .depositYt now _ _ _ | .withdrawYt now _ _ _ | .stageYield now _ _ =>
    g.sawSyState now w.vault w'.vault
  | .collectInterest .. | .collectTreasuryInterest _ .yieldPosition =>
    { g with interestPaid :=
        g.interestPaid + (w.vault.totalSyInEscrow.toNat - w'.vault.totalSyInEscrow.toNat) }
  | .collectEmission _ index _ | .collectTreasuryEmission index _ .yieldPosition =>
    g.paidEmission index.toNat (w.stagedEmission index.toNat - w'.stagedEmission index.toNat)
  | .collectTreasuryEmission index _ .treasuryEmission =>
    g.paidTreasuryEmission index.toNat
      (w.treasuryEmission index.toNat - w'.treasuryEmission index.toNat)
  | _ => g

/-- A vault and its history. -/
abbrev VaultRun := VaultWorld × VaultLedger

namespace VaultRun

/-- A step of the vault, recorded in the ledger. -/
abbrev step : VaultRun → VaultOp → Outcome VaultRun :=
  Machine.recording VaultWorld.step VaultLedger.record

/-- Runs operations from a world and an empty ledger. -/
def of (w : VaultWorld) (ops : List VaultOp) : VaultRun := Machine.run step (w, {}) ops

variable (r : VaultRun)

/-- All interest ever added to staged interest. -/
def interestCredited : Nat := r.1.stagedInterest + r.2.interestPaid

/-- All of one emission ever added to the trackers of positions. -/
def emissionCredited (slot : Nat) : Nat := r.1.stagedEmission slot + r.2.emissionPaid slot

/-- All of one emission ever added to the treasury's share. -/
def treasuryEmissionCredited (slot : Nat) : Nat :=
  r.1.treasuryEmission slot + r.2.treasuryEmissionPaid slot

end VaultRun

end ExponentCore
