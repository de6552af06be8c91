import ExponentCore.Lib.Layout
import ExponentCore.Market.Calls

/-!
# The data of the accounts

The program keeps a vault, its positions, a market and its LP positions in accounts. The functions
`size_of` say how much data an account is created with or resized to, and `borshLen` how long the
borsh form of a value is; an account's data starts with a discriminator of eight bytes.

`ProgramState.step` runs the instructions on the values, and `accountLayout` has the accounts that
they declare as mutable, with the `space` or `realloc` that they give them, so that `Layout.step`
runs the instructions with the data. A wrapper is the instructions that it calls.
-/

set_option autoImplicit false

namespace ExponentCore

open Machine

/-! ## Borsh -/

/-- A vector: a `u32` length, then the elements. -/
def vecLen {α : Type} (size : α → Nat) (l : List α) : Nat := 4 + (l.map size).sum

/-- The discriminator of an account. -/
def discriminatorLen : Nat := 8

def Number.sizeof : Nat := 32

/-! ## Sizes of vaults and their positions -/

/-- Two flags beside the index. -/
def CpiInterfaceContext.borshLen (_ : CpiInterfaceContext) : Nat := 1 + 1 + 1

def CpiAccounts.sizeOf (c : CpiAccounts) : Nat :=
  vecLen CpiInterfaceContext.borshLen c.getSyState
    + vecLen CpiInterfaceContext.borshLen c.depositSy
    + vecLen CpiInterfaceContext.borshLen c.withdrawSy
    + vecLen (vecLen CpiInterfaceContext.borshLen) c.claimEmission
    + vecLen CpiInterfaceContext.borshLen c.getPositionState

def ClaimLimits.sizeOf : Nat :=
  4 +  -- claim_window_start_timestamp
  8 +  -- total_claim_amount_in_window
  8 +  -- max_claim_amount_per_window
  4    -- claim_window_duration_seconds

def EmissionInfo.sizeOf : Nat :=
  32 +  -- token_account
  32 +  -- initial_index
  32 +  -- last_seen_index
  32 +  -- final_index
  32 +  -- treasury_token_account
  2 +   -- fee_bps
  8     -- treasury_emission

namespace Vault

/-- All but `cpi_accounts`. -/
def sizeOfStatic (emissionsLength : Nat) : Nat :=
  8 +                                      -- discriminator
  32 + 32 + 32 + 32 + 32 + 32 + 32 + 32 +  -- sy_program .. address_lookup_table
  4 + 4 +                                  -- start_ts, duration
  32 + 32 + 1 +                            -- signer_seed, authority, signer_bump
  Number.sizeof +                          -- last_seen_sy_exchange_rate
  Number.sizeof +                          -- all_time_high_sy_exchange_rate
  Number.sizeof +                          -- final_sy_exchange_rate
  8 + 8 + 8 + 8 + 8 +                      -- total_sy_in_escrow .. uncollected_sy
  32 +                                     -- treasury_sy_token_account
  2 +                                      -- interest_bps_fee
  8 + 8 +                                  -- min_op_size_strip, min_op_size_merge
  1 +                                      -- status
  4 +                                      -- emissions vec length prefix
  8 +                                      -- max_py_supply
  emissionsLength * EmissionInfo.sizeOf +
  ClaimLimits.sizeOf

/-- The fields in their order. -/
def borshLen (v : Vault) : Nat :=
  8 * 32 + (4 + 4) + (32 + 32 + 1) + 3 * 32 + 5 * 8 + 32 + 2 + (8 + 8) + 1
    + vecLen (fun _ => 32 + 32 + 32 + 32 + 32 + 2 + 8) v.emissions
    + v.cpiAccounts.sizeOf + (4 + 8 + 8 + 4) + 8

end Vault

def YieldTokenTracker.sizeOf : Nat :=
  Number.sizeof +  -- last_seen_index
  8                -- staged

namespace YieldTokenPosition

def sizeOf (numEmissions : Nat) : Nat :=
  8 +                         -- discriminator
  32 +                        -- owner
  32 +                        -- vault
  8 +                         -- yt_balance
  YieldTokenTracker.sizeOf +  -- interest
  4 + numEmissions * YieldTokenTracker.sizeOf

def borshLen (p : YieldTokenPosition) : Nat :=
  32 + 32 + 8 + (32 + 8) + vecLen (fun _ => 32 + 8) p.emissions

end YieldTokenPosition

/-! ## Sizes of markets and their positions -/

def MarketFinancials.sizeOf : Nat :=
  8 +   -- expiration_ts
  8 +   -- pt_balance
  8 +   -- sy_balance
  16 +  -- ln_fee_rate_root
  16 +  -- last_ln_implied_rate
  16    -- rate_scalar_root

def LiquidityNetBalanceLimits.sizeOf : Nat :=
  4 +  -- window_start_timestamp
  8 +  -- window_start_net_balance
  2 +  -- max_net_balance_change_negative_percentage
  4 +  -- max_net_balance_change_positive_percentage
  4    -- window_duration_seconds

def MarketEmission.size : Nat :=
  32 +             -- token_escrow
  Number.sizeof +  -- lp_share_index
  8                -- last_seen_staged

/-- `MarketEmissions::size_of_static` -/
def MarketEmission.sizeOfStatic (trackerLen : Nat) : Nat := 4 + trackerLen * MarketEmission.size

def FarmEmission.size : Nat :=
  32 +           -- mint
  8 +            -- token_rate
  4 +            -- expiry_timestamp
  Number.sizeof  -- index

def LpFarm.sizeOfStatic (farmEmissionsLen : Nat) : Nat :=
  4 +  -- last_seen_timestamp
  4 + farmEmissionsLen * FarmEmission.size

namespace MarketTwo

/-- `is_current_flash_swap` is not in the sum, and the three prices are in it with sixteen bytes
each. -/
def sizeOf (cpiAccounts : CpiAccounts) (emissionsLen farmEmissionsLen : Nat) : Nat :=
  8 +                                           -- discriminator
  32 + 32 + 32 + 32 + 32 + 32 + 32 + 32 + 32 +  -- address_lookup_table .. token_fee_treasury_sy
  2 +                                           -- fee_treasury_sy_bps
  32 +                                          -- self_address
  1 +                                           -- signer_bump
  1 +                                           -- status_flags
  32 +                                          -- sy_program
  MarketFinancials.sizeOf +
  MarketEmission.sizeOfStatic emissionsLen +
  LpFarm.sizeOfStatic farmEmissionsLen +
  8 +                                           -- max_lp_supply
  8 +                                           -- lp_escrow_amount
  cpiAccounts.sizeOf +
  LiquidityNetBalanceLimits.sizeOf +
  1                                             -- seed_id

variable {K : Type}

/-- The fields in their order; an `f64` has eight bytes. -/
def borshLen (m : MarketTwo K) : Nat :=
  9 * 32 + 2 + 32 + 1 + 1 + 32 + (8 + 8 + 8 + 8 + 8 + 8)
    + vecLen (fun _ => 32 + 32 + 8) m.emissions
    + (4 + vecLen (fun _ => 32 + 8 + 4 + 32) m.lpFarm.farmEmissions)
    + 8 + 8 + m.cpiAccounts.sizeOf + 1 + (4 + 8 + 2 + 4 + 4) + 1

end MarketTwo

def PersonalYieldTracker.size : Nat :=
  32 +  -- last_seen_index
  8     -- staged

/-- `PersonalYieldTrackers::static_size_of` -/
def PersonalYieldTrackers.staticSizeOf (trackerLen : Nat) : Nat :=
  4 + trackerLen * PersonalYieldTracker.size

namespace LpPosition

def staticSizeOf (emissionTrackersLen farmEmissionsLen : Nat) : Nat :=
  8 +   -- discriminator
  32 +  -- owner
  32 +  -- market
  8 +   -- lp_balance
  PersonalYieldTrackers.staticSizeOf emissionTrackersLen +
  PersonalYieldTrackers.staticSizeOf farmEmissionsLen

def borshLen (p : LpPosition) : Nat :=
  32 + 32 + 8 + vecLen (fun _ => 32 + 8) p.emissions + vecLen (fun _ => 32 + 8) p.farms

end LpPosition

/-! ## The accounts -/

/-- The accounts of a vault and of a market. -/
inductive DataAccount
  | vault
  | yieldPosition
  | userPosition (index : Nat)
  | market
  | lpPosition (index : Nat)
deriving DecidableEq

/-- What the accounts hold. -/
structure ProgramState (N : Type) where
  vaultWorld : VaultWorld
  lpWorld : LpWorld N

/-- The instructions that write a vault, a market or a position. What is claimable at the SY program
changes with `lp (.accrue _)`, which writes none. -/
inductive Instruction
  | vault (op : VaultOp)
  | lp (op : LpOp)
  /-- `AdminAction::ChangeClaimLimits` -/
  | changeClaimLimits (unixTimestamp : UInt32) (maxClaimAmountPerWindow : UInt64)
      (claimWindowDurationSeconds : UInt32)
  /-- `AdminAction::ChangeCpiAccounts` -/
  | changeVaultCpiAccounts (cpiAccounts : CpiAccounts)
  /-- `MarketAdminAction::ChangeCpiAccounts` -/
  | changeMarketCpiAccounts (cpiAccounts : CpiAccounts)
  | tradePt (now : UInt64) (syExchangeRate : Number) (netTraderPt : Int)
  | depositLiquidity (now ptIntent syIntent lpSupply : UInt64)
  | withdrawLiquidity (now lpIn lpSupply : UInt64)
  /-- what `buy_yt` and `sell_yt` write themselves -/
  | edit (e : MarketEdit)

namespace ProgramState

variable {N : Type}

def setMarket (s : ProgramState N) (market : MarketTwo N) : ProgramState N :=
  { s with lpWorld := { s.lpWorld with market } }

/-- What an instruction does to the values. -/
def step [Num N] (s : ProgramState N) : Instruction → Outcome (ProgramState N)
  | .vault op => do
    let vaultWorld ← s.vaultWorld.instructWithinLimits op
    .ok { s with vaultWorld }
  | .lp op => do
    let lpWorld ← s.lpWorld.step op
    .ok { s with lpWorld }
  | .changeClaimLimits unixTimestamp maxClaimAmountPerWindow claimWindowDurationSeconds =>
    let claimLimits :=
      { claimWindowStartTimestamp := unixTimestamp
        totalClaimAmountInWindow := 0
        maxClaimAmountPerWindow
        claimWindowDurationSeconds }
    .ok { s with vaultWorld := s.vaultWorld.withClaimLimits claimLimits }
  | .changeVaultCpiAccounts cpiAccounts =>
    .ok { s with vaultWorld :=
      { s.vaultWorld with vault := { s.vaultWorld.vault with cpiAccounts } } }
  | .changeMarketCpiAccounts cpiAccounts =>
    .ok (s.setMarket { s.lpWorld.market with cpiAccounts })
  | .tradePt now syExchangeRate netTraderPt => do
    let market := s.lpWorld.market
    let (financials, _) ← market.financials.tradePt syExchangeRate netTraderPt now
      market.isCurrentFlashSwap market.feeTreasurySyBps
    .ok (s.setMarket { market with financials })
  | .depositLiquidity now ptIntent syIntent lpSupply => do
    let market := s.lpWorld.market
    let (financials, r) ← market.financials.addLiquidity syIntent ptIntent lpSupply
    let liquidityNetBalanceLimits ←
      market.liquidityNetBalanceLimits.verifyLimits now.toUInt32 lpSupply (asI64 r.lpOut)
    .ok (s.setMarket { market with financials, liquidityNetBalanceLimits })
  | .withdrawLiquidity now lpIn lpSupply => do
    let market := s.lpWorld.market
    let change ← inI64 (-asI64 lpIn)
    let liquidityNetBalanceLimits ←
      market.liquidityNetBalanceLimits.verifyLimits now.toUInt32 lpSupply change
    let (financials, _) ← market.financials.rmLiquidity lpIn lpSupply
    .ok (s.setMarket { market with financials, liquidityNetBalanceLimits })
  | .edit e => .ok (s.setMarket (e.apply s.lpWorld.market))

/-- What is to be written to an account. -/
def size (s : ProgramState N) : DataAccount → Nat
  | .vault => discriminatorLen + s.vaultWorld.vault.borshLen
  | .yieldPosition => discriminatorLen + s.vaultWorld.yieldPosition.borshLen
  | .userPosition i =>
    s.vaultWorld.userPositions[i]?.elim 0 fun p => discriminatorLen + p.borshLen
  | .market => discriminatorLen + s.lpWorld.market.borshLen
  | .lpPosition i => s.lpWorld.lpPositions[i]?.elim 0 fun p => discriminatorLen + p.borshLen

end ProgramState

/-- The accounts that an instruction on a vault declares as `mut` or `init`, with their `realloc` or
`space`. -/
def VaultOp.declared (w : VaultWorld) : VaultOp → List (DataAccount × Option Nat)
  | .initializeYieldPosition .. =>
    [(.userPosition w.userPositions.length,
      some (YieldTokenPosition.sizeOf w.vault.emissions.length))]
  | .strip .. | .merge .. => [(.vault, none), (.yieldPosition, none)]
  | .depositYt _ _ user _ | .withdrawYt _ _ user _ | .stageYield _ _ user =>
    [(.vault, none),
      (.userPosition user, some (YieldTokenPosition.sizeOf w.vault.emissions.length)),
      (.yieldPosition, none)]
  | .collectInterest _ user _ => [(.userPosition user, none), (.vault, none)]
  | .collectTreasuryInterest .. => [(.yieldPosition, none), (.vault, none)]
  | .collectEmission user _ _ => [(.vault, none), (.userPosition user, none)]
  | .collectTreasuryEmission .. => [(.yieldPosition, none), (.vault, none)]
  | .addEmission cpiAccounts .. =>
    [(.vault, some (Vault.sizeOfStatic (w.vault.emissions.length + 1) + cpiAccounts.sizeOf)),
      (.yieldPosition, some (YieldTokenPosition.sizeOf (w.vault.emissions.length + 1)))]
  | .removeVaultEmission _ => [(.vault, none)]

/-- The same for the instructions on staked LP tokens. -/
def LpOp.declared {N : Type} (w : LpWorld N) : LpOp → List (DataAccount × Option Nat)
  | .initLpPosition _ =>
    [(.lpPosition w.lpPositions.length, some (LpPosition.staticSizeOf
      w.market.emissions.length w.market.lpFarm.farmEmissions.length))]
  | .depositLp _ position _ | .withdrawLp _ position _ =>
    [(.market, none),
      (.lpPosition position, some (LpPosition.staticSizeOf
        w.market.emissions.length w.market.lpFarm.farmEmissions.length))]
  | .marketCollectEmission position _ => [(.market, none), (.lpPosition position, none)]
  | .addMarketEmission cpiAccounts _ =>
    [(.market, some (MarketTwo.sizeOf cpiAccounts (w.market.emissions.length + 1)
      w.market.lpFarm.farmEmissions.length))]
  | .removeMarketEmission _ => [(.market, none)]
  | .addFarm .. =>
    [(.market, some (MarketTwo.sizeOf w.market.cpiAccounts w.market.emissions.length
      (w.market.lpFarm.farmEmissions.length + 1)))]
  | .modifyFarm .. => [(.market, none)]
  | .claimFarmEmissions position .. => [(.lpPosition position, none)]
  | .accrue _ => []

/-- `ChangeCpiAccounts` resizes the account in the handler; nothing reads it in between. -/
def Instruction.declared {N : Type} (s : ProgramState N) :
    Instruction → List (DataAccount × Option Nat)
  | .vault op => op.declared s.vaultWorld
  | .lp op => op.declared s.lpWorld
  | .changeClaimLimits .. => [(.vault, none)]
  | .changeVaultCpiAccounts cpiAccounts =>
    [(.vault, some (Vault.sizeOfStatic s.vaultWorld.vault.emissions.length + cpiAccounts.sizeOf))]
  | .changeMarketCpiAccounts cpiAccounts =>
    [(.market, some (MarketTwo.sizeOf cpiAccounts s.lpWorld.market.emissions.length
      s.lpWorld.market.lpFarm.farmEmissions.length))]
  | .tradePt .. | .depositLiquidity .. | .withdrawLiquidity .. | .edit _ => [(.market, none)]

def accountLayout (N : Type) : Layout (ProgramState N) Instruction DataAccount where
  size := ProgramState.size
  declared := Instruction.declared

/-- The values with the lengths of their data. -/
abbrev AccountData (N : Type) := Held (ProgramState N) DataAccount

namespace AccountData

variable {N : Type}

/-- The accounts of a new vault and a new market. -/
def created (args : InitializeVaultArgs) (w : LpWorld N) : AccountData N where
  state := { vaultWorld := .initializeVault args, lpWorld := w }
  dataLen
    | .vault => Vault.sizeOfStatic 0 + args.cpiAccounts.sizeOf
    | .yieldPosition => YieldTokenPosition.sizeOf 0
    | .market => MarketTwo.sizeOf w.market.cpiAccounts 0 0
    | .userPosition _ | .lpPosition _ => 0

def step [Num N] : AccountData N → Instruction → Except (Failure Fault) (AccountData N) :=
  (accountLayout N).step ProgramState.step

/-- The accounts that the instruction writes are long enough for what its handler leaves in them. -/
def WritesBack [Num N] : AccountData N → Instruction → Prop :=
  (accountLayout N).WritesBack ProgramState.step

end AccountData

namespace Instruction

/-- Anyone may send it; the others are for administrators. -/
def isUser : Instruction → Bool
  | .vault (.addEmission ..) | .vault (.removeVaultEmission _)
  | .vault (.collectTreasuryInterest ..) | .vault (.collectTreasuryEmission ..) => false
  | .lp (.addMarketEmission ..) | .lp (.removeMarketEmission _) | .lp (.addFarm ..)
  | .lp (.modifyFarm ..) => false
  | .changeClaimLimits .. | .changeVaultCpiAccounts _ | .changeMarketCpiAccounts _ => false
  | _ => true

end Instruction

/-! ## Room for trackers -/

/-- The positions that an instruction stages have no more trackers than their data will have room
for: those that are resized for the list of emissions no more than it is long, and one that is not
resized room for a tracker for each of them. -/
def AccountData.HasRoom {N : Type} (h : AccountData N) : Instruction → Prop
  | .vault (.depositYt _ _ user _) | .vault (.withdrawYt _ _ user _)
  | .vault (.stageYield _ _ user) =>
    ∀ p ∈ h.state.vaultWorld.userPositions[user]?,
      p.emissions.length ≤ h.state.vaultWorld.vault.emissions.length
  | .vault (.collectInterest _ user _) =>
    YieldTokenPosition.sizeOf h.state.vaultWorld.vault.emissions.length
      ≤ h.dataLen (.userPosition user)
  | .lp (.depositLp _ position _) | .lp (.withdrawLp _ position _) =>
    ∀ p ∈ h.state.lpWorld.lpPositions[position]?,
      p.emissions.length ≤ h.state.lpWorld.market.emissions.length
  | _ => True

instance {N : Type} (h : AccountData N) : (i : Instruction) → Decidable (h.HasRoom i)
  | .vault (.depositYt ..) | .vault (.withdrawYt ..) | .vault (.stageYield ..)
  | .lp (.depositLp ..) | .lp (.withdrawLp ..) =>
    inferInstanceAs (Decidable (∀ p ∈ (_ : Option _), _))
  | .vault (.collectInterest ..) => inferInstanceAs (Decidable (_ ≤ _))
  | .vault (.initializeYieldPosition ..) | .vault (.strip ..) | .vault (.merge ..)
  | .vault (.collectTreasuryInterest ..) | .vault (.collectEmission ..)
  | .vault (.collectTreasuryEmission ..) | .vault (.addEmission ..)
  | .vault (.removeVaultEmission _) | .lp (.initLpPosition _) | .lp (.marketCollectEmission ..)
  | .lp (.addMarketEmission ..) | .lp (.removeMarketEmission _) | .lp (.addFarm ..)
  | .lp (.modifyFarm ..) | .lp (.claimFarmEmissions ..) | .lp (.accrue _)
  | .changeClaimLimits .. | .changeVaultCpiAccounts _ | .changeMarketCpiAccounts _ | .tradePt ..
  | .depositLiquidity .. | .withdrawLiquidity .. | .edit _ => isTrue trivial

/-! ## Banks -/

/-- What the program keeps of a bank. -/
def Bank.programState {N : Type} (b : Bank N) : ProgramState N := ⟨b.vaultWorld, b.lpWorld⟩

end ExponentCore
