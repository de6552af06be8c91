import ExponentCore.Vault.World

/-!
# The vault as one holder sees it

What a position becomes depends on what its holder does with it and on the reports that the vault
records, and on nothing else that happens in the vault. `Holding` is the abstract machine that says
so: a position with the outlook of its vault. Its inputs are `Sight`s, what an operation is to one
holder: that of another who strips, merges, moves YT or stages is a report and no more, and one that
collects is nothing at all.

A position that earns nothing is less than that, an account of YT and of what it has staged.
`YieldTokenPosition.account` is the machine of it, on what is left of the operations then
(`VaultOp.own`).
-/

set_option autoImplicit false

namespace ExponentCore

/-! ## The outlook of a vault -/

/-- What a staging and the next update read of a vault. -/
structure Outlook where
  startTs : UInt32
  duration : UInt32
  lastSeenSyExchangeRate : Number
  allTimeHighSyExchangeRate : Number
  finalSyExchangeRate : Number
  finalIndexes : List Number

def Vault.outlook (v : Vault) : Outlook where
  startTs := v.startTs
  duration := v.duration
  lastSeenSyExchangeRate := v.lastSeenSyExchangeRate
  allTimeHighSyExchangeRate := v.allTimeHighSyExchangeRate
  finalSyExchangeRate := v.finalSyExchangeRate
  finalIndexes := v.emissions.map EmissionInfo.finalIndex

namespace Outlook

variable (o : Outlook)

def isActive (now : UInt32) : Bool :=
  decide (o.startTs.toNat ≤ now.toNat ∧ now.toNat ≤ o.startTs.toNat + o.duration.toNat)

/-- The outlook after a report. -/
def after (now : UInt32) (syState : SyState) : Outlook :=
  { o with
    lastSeenSyExchangeRate := syState.exchangeRate
    allTimeHighSyExchangeRate := max syState.exchangeRate o.allTimeHighSyExchangeRate
    finalSyExchangeRate :=
      if o.isActive now then syState.exchangeRate else o.finalSyExchangeRate
    finalIndexes := o.finalIndexes.mapIdx fun slot index =>
      if o.isActive now then (syState.emissionIndexes[slot]?).getD index else index }

/-- A vault that looks like this. -/
def vault : Vault where
  startTs := o.startTs
  duration := o.duration
  lastSeenSyExchangeRate := o.lastSeenSyExchangeRate
  allTimeHighSyExchangeRate := o.allTimeHighSyExchangeRate
  finalSyExchangeRate := o.finalSyExchangeRate
  emissions := o.finalIndexes.map fun index => EmissionInfo.new 0 0 index 0

end Outlook

/-! ## The machine of one holder -/

/-- What a staging credits, and the position that it leaves. -/
def YieldTokenPosition.earned (p : YieldTokenPosition) (v : Vault) :
    Outcome (UInt64 × YieldTokenPosition) := do
  let p := p.ensureTrackers v
  let syEarned ← (if v.isInEmergencyMode then .ok 0 else p.interestDue v)
  let interest ← p.interest.incStaged syEarned
  let lastSeenIndex :=
    if v.isInEmergencyMode then p.interest.lastSeenIndex else v.finalSyExchangeRate
  let p ← { p with interest := { interest with lastSeenIndex } }.earnEmissions v
  .ok (syEarned, p)

structure Holding where
  outlook : Outlook
  position : YieldTokenPosition

/-- What an operation is to one holder. -/
inductive Sight
  | report (now : UInt32) (syState : SyState)
  | stage (now : UInt32) (syState : SyState)
  | deposit (now : UInt32) (syState : SyState) (amount : UInt64)
  | withdraw (now : UInt32) (syState : SyState) (amount : UInt64)
  | collectInterest (amount : Amount)
  | collectEmission (index : UInt16) (amount : Amount)
  | emissionAdded (syState : SyState)
  | emissionRemoved (index : UInt8)

namespace Holding

variable (h : Holding)

/-- The position earns what its YT has earned. -/
def earn : Outcome YieldTokenPosition := do
  let (_, position) ← h.position.earned h.outlook.vault
  .ok position

def reported (now : UInt32) (syState : SyState) : Holding :=
  { h with outlook := h.outlook.after now syState }

def step : Sight → Outcome Holding
  | .report now syState => .ok (h.reported now syState)
  | .stage now syState => do
    let position ← (h.reported now syState).earn
    .ok { h.reported now syState with position }
  | .deposit now syState amount => do
    let position ← (h.reported now syState).earn
    let position ← position.incYtBalance amount
    .ok { h.reported now syState with position }
  | .withdraw now syState amount => do
    let position ← (h.reported now syState).earn
    let position ← position.decYtBalance amount
    .ok { h.reported now syState with position }
  | .collectInterest amount => do
    let amountSy ← amount.toU64 h.position.interest.staged
    let position ← h.earn
    let interest ← position.interest.collect amountSy
    .ok { h with position := { position with interest } }
  | .collectEmission index amount => do
    let t ← getAt h.position.emissions index.toNat
    let amountToSend ← amount.toU64 t.staged
    let position ← h.position.collectEmissionAt index amountToSend
    .ok { h with position }
  | .emissionAdded syState => do
    let index ← getAt syState.emissionIndexes h.outlook.finalIndexes.length
    .ok { h with
      outlook := { h.outlook with finalIndexes := h.outlook.finalIndexes ++ [index] } }
  | .emissionRemoved index =>
    .ok { h with
      outlook := { h.outlook with finalIndexes := h.outlook.finalIndexes.eraseIdx index.toNat } }

end Holding

/-- What an operation is to the holder of a position; one that collects is nothing to others. -/
def VaultOp.sight (user : Nat) : VaultOp → Option Sight
  | .strip now syState _ | .merge now syState _ => some (.report now syState)
  | .depositYt now syState holder amount =>
    some (if holder = user then .deposit now syState amount else .report now syState)
  | .withdrawYt now syState holder amount =>
    some (if holder = user then .withdraw now syState amount else .report now syState)
  | .stageYield now syState holder =>
    some (if holder = user then .stage now syState else .report now syState)
  | .collectInterest _ holder amount =>
    if holder = user then some (.collectInterest amount) else none
  | .collectEmission holder index amount =>
    if holder = user then some (.collectEmission index amount) else none
  | .addEmission _ syState _ _ _ => some (.emissionAdded syState)
  | .removeVaultEmission index => some (.emissionRemoved index)
  | .initializeYieldPosition _ _ | .collectTreasuryInterest _ _
  | .collectTreasuryEmission _ _ _ => none

/-! ## A position that earns nothing -/

/-- What a holder does with a position that earns nothing. -/
inductive AccountOp
  | deposit (amount : UInt64)
  | withdraw (amount : UInt64)
  | collectInterest (amount : Amount)
  | collectEmission (index : UInt16) (amount : Amount)

/-- A position as an account: of YT, and of what it has staged. -/
def YieldTokenPosition.account (p : YieldTokenPosition) : AccountOp → Outcome YieldTokenPosition
  | .deposit amount => p.incYtBalance amount
  | .withdraw amount => p.decYtBalance amount
  | .collectInterest amount => do
    let amountSy ← amount.toU64 p.interest.staged
    let interest ← p.interest.collect amountSy
    .ok { p with interest }
  | .collectEmission index amount => do
    let t ← getAt p.emissions index.toNat
    let amountToSend ← amount.toU64 t.staged
    p.collectEmissionAt index amountToSend

/-- What is left of an operation when reports do not matter. -/
def Sight.own : Sight → Option AccountOp
  | .deposit _ _ amount => some (.deposit amount)
  | .withdraw _ _ amount => some (.withdraw amount)
  | .collectInterest amount => some (.collectInterest amount)
  | .collectEmission index amount => some (.collectEmission index amount)
  | .report _ _ | .stage _ _ | .emissionAdded _ | .emissionRemoved _ => none

/-- What an operation is to the account of a user. -/
def VaultOp.own (user : Nat) (op : VaultOp) : Option AccountOp := (op.sight user).bind Sight.own

/-! ## After a time -/

/-- What is recorded is of a later time, and the list of emissions stays as it is. -/
def Sight.After (t : Nat) : Sight → Prop
  | .report now _ | .stage now _ | .deposit now _ _ | .withdraw now _ _ => t < now.toNat
  | .collectInterest _ | .collectEmission _ _ => True
  | .emissionAdded _ | .emissionRemoved _ => False

def VaultOp.keepsEmissions : VaultOp → Bool
  | .addEmission .. | .removeVaultEmission _ => false
  | _ => true

/-- The operation records what is of a later time, and leaves the list of emissions as it is. -/
def VaultOp.After (t : Nat) (op : VaultOp) : Prop :=
  (∀ r ∈ op.syRead, t < r.1.toNat) ∧ op.keepsEmissions

instance (t : Nat) (op : VaultOp) : Decidable (op.After t) :=
  inferInstanceAs (Decidable ((∀ r ∈ op.syRead, _) ∧ _))

end ExponentCore
