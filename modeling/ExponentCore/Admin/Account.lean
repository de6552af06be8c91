import ExponentCore.Lib.Machine
import ExponentCore.Vault.State

/-!
# The admin program

`exponent_admin` keeps one account: the uber admin, the key that is invited to succeed it, and a
list of administrators for each principle. The instructions of the core program that change settings
ask it with `is_admin`.

An instruction first resizes the account (`realloc`), then runs its handler on the deserialized
value, then writes the value back, which fails when its borsh form is longer than the account's
data. `step` is that sequence; an instruction that fails is undone, so a run is a `Machine.run`.
-/

set_option autoImplicit false

namespace ExponentAdmin

open ExponentCore (Pubkey)

inductive ErrorCode
  | unauthorized
  | noProposedAdmin
deriving DecidableEq, Repr

inductive Fault
  | error (e : ErrorCode)
  /-- a `constraint` of the accounts does not hold -/
  | constraintRaw
  /-- an arithmetic operator that overflows -/
  | arithmetic
  /-- the value does not fit the account's data -/
  | accountDidNotSerialize
deriving DecidableEq, Repr

inductive Principle
  | hotAdmin | coldAdmin | pauseAdmin | reserved1 | reserved2 | reserved3
deriving DecidableEq, Repr

structure PrincipleDetails where
  administrators : List Pubkey := []
deriving DecidableEq

structure Principles where
  hotAdmin : PrincipleDetails := {}
  coldAdmin : PrincipleDetails := {}
  pauseAdmin : PrincipleDetails := {}
  reserved1 : PrincipleDetails := {}
  reserved2 : PrincipleDetails := {}
  reserved3 : PrincipleDetails := {}
deriving DecidableEq

structure Admin where
  uberAdmin : Pubkey
  proposedUberAdmin : Option Pubkey := none
  principles : Principles := {}
deriving DecidableEq

/-! ## Lists of administrators -/

namespace PrincipleDetails

variable (d : PrincipleDetails) (key : Pubkey)

def isAdmin : Except Fault Unit :=
  if key ∈ d.administrators then .ok () else .error (.error .unauthorized)

/-- `administrators.push` -/
def push : PrincipleDetails := { d with administrators := d.administrators ++ [key] }

/-- `administrators.remove` at the `position` of the key, if there is one. -/
def removeFirst : PrincipleDetails :=
  match d.administrators.findIdx? (· == key) with
  | some index => { d with administrators := d.administrators.eraseIdx index }
  | none => d

end PrincipleDetails

namespace Principles

variable (ps : Principles)

/-- The field of a principle. -/
def details : Principle → PrincipleDetails
  | .hotAdmin => ps.hotAdmin
  | .coldAdmin => ps.coldAdmin
  | .pauseAdmin => ps.pauseAdmin
  | .reserved1 => ps.reserved1
  | .reserved2 => ps.reserved2
  | .reserved3 => ps.reserved3

/-- The branches of `add_principle_admin`. -/
def add (newAdmin : Pubkey) : Principle → Principles
  | .hotAdmin => { ps with hotAdmin := ps.hotAdmin.push newAdmin }
  | .coldAdmin => { ps with coldAdmin := ps.coldAdmin.push newAdmin }
  | .pauseAdmin => { ps with pauseAdmin := ps.pauseAdmin.push newAdmin }
  | .reserved1 => { ps with reserved1 := ps.reserved1.push newAdmin }
  | .reserved2 => { ps with reserved2 := ps.reserved2.push newAdmin }
  | .reserved3 => { ps with reserved3 := ps.reserved3.push newAdmin }

/-- The branches of `remove_principle_admin`. -/
def remove (adminToRemove : Pubkey) : Principle → Principles
  | .hotAdmin => { ps with hotAdmin := ps.hotAdmin.removeFirst adminToRemove }
  | .coldAdmin => { ps with coldAdmin := ps.coldAdmin.removeFirst adminToRemove }
  | .pauseAdmin => { ps with pauseAdmin := ps.pauseAdmin.removeFirst adminToRemove }
  | .reserved1 => { ps with reserved1 := ps.reserved1.removeFirst adminToRemove }
  | .reserved2 => { ps with reserved2 := ps.reserved2.removeFirst adminToRemove }
  | .reserved3 => { ps with reserved3 := ps.reserved3.removeFirst adminToRemove }

end Principles

/-! ## The handlers -/

namespace Admin

variable (a : Admin)

def isUberAdmin (pubkey : Pubkey) : Except Fault Unit :=
  if a.uberAdmin ≠ pubkey then .error (.error .unauthorized) else .ok ()

def sizeOfStatic : Nat :=
  8 +       -- discriminator
  32 +      -- uber_admin
  1 + 32 +  -- optional + proposed_uber_admin
  4 + 4 + 4 + 4 + 4 + 4

/-- `initialize_admin`: `program_id` is the address of the program itself. -/
def initializeAdmin (programId : Pubkey) : Admin := { uberAdmin := programId }

def inviteAdmin (uberAdmin proposedAdmin : Pubkey) : Except Fault Admin := do
  a.isUberAdmin uberAdmin
  .ok { a with proposedUberAdmin := some proposedAdmin }

/-- The constraint of the accounts comes before the handler's own check. -/
def acceptInvitation (newUberAdmin : Pubkey) : Except Fault Admin :=
  if a.proposedUberAdmin = some newUberAdmin then
    match a.proposedUberAdmin with
    | none => .error (.error .noProposedAdmin)
    | some proposed => .ok { a with uberAdmin := proposed, proposedUberAdmin := none }
  else .error .constraintRaw

def addPrincipleAdmin (uberAdmin newAdmin : Pubkey) (principle : Principle) :
    Except Fault Admin := do
  a.isUberAdmin uberAdmin
  .ok { a with principles := a.principles.add newAdmin principle }

def removePrincipleAdmin (uberAdmin adminToRemove : Pubkey) (principle : Principle) :
    Except Fault Admin := do
  a.isUberAdmin uberAdmin
  .ok { a with principles := a.principles.remove adminToRemove principle }

/-! ## The borsh form -/

/-- How many keys are listed, over all principles. -/
def listed : Nat :=
  a.principles.hotAdmin.administrators.length + a.principles.coldAdmin.administrators.length
    + a.principles.pauseAdmin.administrators.length + a.principles.reserved1.administrators.length
    + a.principles.reserved2.administrators.length + a.principles.reserved3.administrators.length

/-- A tag, then the key if there is one. -/
def optionSize : Option Pubkey → Nat
  | none => 1
  | some _ => 1 + 32

/-- A `u32` length, then the keys. -/
def vecSize (l : List Pubkey) : Nat := 4 + 32 * l.length

/-- The length of the account's borsh form, with the discriminator of eight bytes. -/
def borshLen : Nat :=
  8 + 32 + optionSize a.proposedUberAdmin
    + vecSize a.principles.hotAdmin.administrators + vecSize a.principles.coldAdmin.administrators
    + vecSize a.principles.pauseAdmin.administrators
    + vecSize a.principles.reserved1.administrators
    + vecSize a.principles.reserved2.administrators
    + vecSize a.principles.reserved3.administrators

end Admin

/-! ## The account -/

/-- The account's value and the length of its data. -/
structure AdminAccount where
  admin : Admin
  dataLen : Nat
deriving DecidableEq

/-- The instructions, with the keys that sign and the keys they are about. -/
inductive AdminOp
  | inviteAdmin (uberAdmin proposedAdmin : Pubkey)
  | acceptInvitation (newUberAdmin : Pubkey)
  | addPrincipleAdmin (uberAdmin newAdmin : Pubkey) (principle : Principle)
  | removePrincipleAdmin (uberAdmin adminToRemove : Pubkey) (principle : Principle)
  | reallocAdmin (additionalBytes : UInt16)

namespace AdminAccount

/-- The account that `initialize_admin` creates. -/
def initializeAdmin (programId : Pubkey) : AdminAccount where
  admin := Admin.initializeAdmin programId
  dataLen := Admin.sizeOfStatic

variable (c : AdminAccount)

/-- Runs a handler on the account, resized before and written back after. -/
def withData (dataLen : Nat) (f : Admin → Except Fault Admin) : Except Fault AdminAccount := do
  let admin ← f c.admin
  if admin.borshLen ≤ dataLen then .ok { admin, dataLen } else .error .accountDidNotSerialize

/-- `realloc = data_len() - 32`: the subtraction is checked. -/
def shrunk : Except Fault Nat :=
  if 32 ≤ c.dataLen then .ok (c.dataLen - 32) else .error .arithmetic

def step : AdminOp → Except Fault AdminAccount
  | .inviteAdmin uberAdmin proposedAdmin =>
    c.withData c.dataLen (·.inviteAdmin uberAdmin proposedAdmin)
  | .acceptInvitation newUberAdmin => c.withData c.dataLen (·.acceptInvitation newUberAdmin)
  | .addPrincipleAdmin uberAdmin newAdmin principle =>
    c.withData (c.dataLen + 32) (·.addPrincipleAdmin uberAdmin newAdmin principle)
  | .removePrincipleAdmin uberAdmin adminToRemove principle => do
    let dataLen ← c.shrunk
    c.withData dataLen (·.removePrincipleAdmin uberAdmin adminToRemove principle)
  -- anyone may grow the account; its value is neither read nor written
  | .reallocAdmin additionalBytes => .ok { c with dataLen := c.dataLen + additionalBytes.toNat }

end AdminAccount

end ExponentAdmin
