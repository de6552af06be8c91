import ExponentCore.Admin.Account
import ExponentCore.Vault.World

/-!
# Settings of a vault

The admin instructions that set up rewards and change settings: `add_emission` and every action of
`modify_vault_setting`, with the administrators they ask for. They are what a vault is made of apart
from `initialize_vault`, so `VaultAdminOp.step` runs them on the vault alone.
-/

set_option autoImplicit false

namespace ExponentCore

open ExponentAdmin (Admin)

/-- The actions of `modify_vault_setting`. -/
inductive AdminAction
  | setVaultStatus (newStatus : UInt8)
  | changeVaultBpsFee (newFee : UInt16)
  | changeVaultTreasuryTokenAccount (newAccount : Pubkey)
  | changeEmissionTreasuryTokenAccount (emissionIndex : UInt16) (newTokenAccount : Pubkey)
  | changeMinOperationSize (isStrip : Bool) (newSize : UInt64)
  | changeEmissionBpsFee (emissionIndex newFeeBps : UInt16)
  | changeCpiAccounts (cpiAccounts : CpiAccounts)
  | changeClaimLimits (maxClaimAmountPerWindow : UInt64) (claimWindowDurationSeconds : UInt32)
  | changeMaxPySupply (newMaxPySupply : UInt64)
  | changeAddressLookupTable (addressLookupTable : Pubkey)
  | removeVaultEmission (emissionIndex : UInt8)

/-- Why a setting is not changed: the signer is no administrator, or the handler fails. -/
inductive SettingFault
  | admin (e : ExponentAdmin.Fault)
  | core (f : Fault)
deriving DecidableEq

/-- What the admin program is asked. -/
def asked {α : Type} (x : Except ExponentAdmin.Fault α) : Except SettingFault α :=
  x.mapError .admin

/-- What the handler does itself. -/
def handled {α : Type} (x : Outcome α) : Except SettingFault α := x.mapError .core

/-- A pause admin may clear flags; everything else is for the cold admin. -/
def validateStatusUpdate (adminState : Admin) (signer : Pubkey) (currentStatus newStatus : UInt8) :
    Except ExponentAdmin.Fault Unit :=
  let onlyDisablesFlags := newStatus &&& ~~~currentStatus = 0
  if onlyDisablesFlags ∧ adminState.principles.pauseAdmin.isAdmin signer = .ok () then .ok ()
  else adminState.principles.coldAdmin.isAdmin signer

/-- Who may take an action. -/
def AdminAction.validate (vault : Vault) (adminState : Admin) (signer : Pubkey) :
    AdminAction → Except ExponentAdmin.Fault Unit
  | .setVaultStatus newStatus => validateStatusUpdate adminState signer vault.status newStatus
  | .changeClaimLimits .. | .changeMaxPySupply .. => adminState.principles.hotAdmin.isAdmin signer
  | _ => adminState.principles.coldAdmin.isAdmin signer

/-- What an action does. The treasury's token account, the lookup table and the rent for more
account data are left out: nothing here reads them. -/
def AdminAction.apply (vault : Vault) (unixTimestamp : UInt32) : AdminAction → Outcome Vault
  | .setVaultStatus newStatus => .ok { vault with status := newStatus }
  | .changeVaultBpsFee newFee => do
    assertTrue (newFee ≤ 10000) "Fee BPS must be less than or equal to 10000"
    .ok { vault with interestBpsFee := newFee }
  | .changeVaultTreasuryTokenAccount _ => .ok vault
  | .changeEmissionTreasuryTokenAccount emissionIndex newTokenAccount => do
    let emission ← getAt vault.emissions emissionIndex.toNat
    let emissions ← setAt vault.emissions emissionIndex.toNat
      { emission with treasuryTokenAccount := newTokenAccount }
    .ok { vault with emissions }
  | .changeMinOperationSize isStrip newSize =>
    if isStrip then .ok { vault with minOpSizeStrip := newSize }
    else .ok { vault with minOpSizeMerge := newSize }
  | .changeEmissionBpsFee emissionIndex newFeeBps => do
    assertTrue (newFeeBps ≤ 10000) "Fee BPS must be less than or equal to 10000"
    let emission ← getAt vault.emissions emissionIndex.toNat
    let emissions ← setAt vault.emissions emissionIndex.toNat { emission with feeBps := newFeeBps }
    .ok { vault with emissions }
  | .changeCpiAccounts cpiAccounts => .ok { vault with cpiAccounts }
  | .changeClaimLimits maxClaimAmountPerWindow claimWindowDurationSeconds =>
    .ok { vault with
      claimLimits :=
        { claimWindowStartTimestamp := unixTimestamp
          totalClaimAmountInWindow := 0
          maxClaimAmountPerWindow
          claimWindowDurationSeconds } }
  | .changeMaxPySupply newMaxPySupply => .ok { vault with maxPySupply := newMaxPySupply }
  | .changeAddressLookupTable _ => .ok vault
  | .removeVaultEmission emissionIndex => ExponentCore.removeVaultEmission vault emissionIndex

/-- The admin instructions on a vault, with the admin account they read and the key that signs. -/
inductive VaultAdminOp
  | addEmission (adminState : Admin) (authority : Pubkey) (cpiAccounts : CpiAccounts)
      (syState : SyState) (tokenAccount treasuryTokenAccount : Pubkey) (feeBps : UInt16)
  | modifyVaultSetting (adminState : Admin) (signer : Pubkey) (unixTimestamp : UInt32)
      (action : AdminAction)

def VaultAdminOp.step (vault : Vault) : VaultAdminOp → Except SettingFault Vault
  | .addEmission adminState authority cpiAccounts syState tokenAccount treasuryTokenAccount
      feeBps => do
    asked (adminState.principles.hotAdmin.isAdmin authority)
    handled ({ vault with cpiAccounts }.addEmission tokenAccount syState treasuryTokenAccount
      feeBps)
  | .modifyVaultSetting adminState signer unixTimestamp action => do
    asked (action.validate vault adminState signer)
    handled (action.apply vault unixTimestamp)

end ExponentCore
