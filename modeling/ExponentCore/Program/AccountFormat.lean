import ExponentCore.Lib.Store
import ExponentCore.Market.AccountData
import ExponentCore.Program.Proof.Format

/-!
# The borsh form of the accounts

A vault, a yield position, a market and an LP position in borsh, field by field in the order of the
source, with the keys that no instruction changes (`VaultKeys`, `MarketKeys`). An account's data
begins with the discriminator of its type. Discriminators and the form of an `f64` are parameters:
Anchor derives the first from the names of the types, and prices are not floats here.

`accountStorage` has the accounts of a program state with these forms, and `AccountBytes.step` runs
an instruction on the bytes: the accounts are loaded, those that the instruction declares are resized
and written back, and the rest of their data stays what it was.
-/

set_option autoImplicit false

namespace ExponentCore

open Borsh Machine

/-! ## Fields -/

/-- The form of a price, which has eight bytes if it has one: a NaN has none. -/
structure PriceFormat (N : Type) where
  codec : Codec N
  sized : codec.Sized fun _ => 8

def pubkeyCodec : Codec Pubkey := .ofBytes readPubkey pubkeyBytes fun _ _ _ => run_pubkey

def Number.codec : Codec Number := .ofBytes readNumber Number.bytes fun _ _ _ => run_number

def CpiInterfaceContext.codec : Codec CpiInterfaceContext :=
  .ofBytes readCpiInterfaceContext CpiInterfaceContext.bytes fun input a rest => by
    simpa using formats_cpiInterfaceContext input a rest

def CpiAccounts.codec : Codec CpiAccounts :=
  ⟨readCpiAccounts, CpiAccounts.bytes, formats_cpiAccounts⟩

def ClaimLimits.codec : Codec ClaimLimits :=
  (Codec.u32.pair <| Codec.u64.pair <| Codec.u64.pair Codec.u32).iso
    { toFun := fun (start, total, max, duration) => ⟨start, total, max, duration⟩
      invFun l := (l.claimWindowStartTimestamp, l.totalClaimAmountInWindow,
        l.maxClaimAmountPerWindow, l.claimWindowDurationSeconds)
      left_inv _ := rfl
      right_inv _ := rfl }

def EmissionInfo.codec : Codec EmissionInfo :=
  (pubkeyCodec.pair <| Number.codec.pair <| Number.codec.pair <| Number.codec.pair <|
    pubkeyCodec.pair <| Codec.u16.pair Codec.u64).iso
    { toFun := fun (token, initial, lastSeen, final, treasury, fee, amount) =>
        ⟨token, initial, lastSeen, final, treasury, fee, amount⟩
      invFun e := (e.tokenAccount, e.initialIndex, e.lastSeenIndex, e.finalIndex,
        e.treasuryTokenAccount, e.feeBps, e.treasuryEmission)
      left_inv _ := rfl
      right_inv _ := rfl }

/-- `YieldTokenTracker` and `PersonalYieldTracker` have one form. -/
def trackerCodec {T : Type} (e : Number × UInt64 ≃ T) : Codec T :=
  (Number.codec.pair Codec.u64).iso e

def YieldTokenTracker.codec : Codec YieldTokenTracker :=
  trackerCodec
    { toFun := fun (lastSeen, staged) => ⟨lastSeen, staged⟩
      invFun t := (t.lastSeenIndex, t.staged)
      left_inv _ := rfl
      right_inv _ := rfl }

def PersonalYieldTracker.codec : Codec PersonalYieldTracker :=
  trackerCodec
    { toFun := fun (lastSeen, staged) => ⟨lastSeen, staged⟩
      invFun t := (t.lastSeenIndex, t.staged)
      left_inv _ := rfl
      right_inv _ := rfl }

def MarketEmission.codec : Codec MarketEmission :=
  (pubkeyCodec.pair <| Number.codec.pair Codec.u64).iso
    { toFun := fun (token, index, staged) => ⟨token, index, staged⟩
      invFun e := (e.tokenEscrow, e.lpShareIndex, e.lastSeenStaged)
      left_inv _ := rfl
      right_inv _ := rfl }

def FarmEmission.codec : Codec FarmEmission :=
  (pubkeyCodec.pair <| Codec.u64.pair <| Codec.u32.pair Number.codec).iso
    { toFun := fun (mint, rate, expiry, index) => ⟨mint, rate, expiry, index⟩
      invFun e := (e.mint, e.tokenRate, e.expiryTimestamp, e.index)
      left_inv _ := rfl
      right_inv _ := rfl }

def LpFarm.codec : Codec LpFarm :=
  (Codec.u32.pair FarmEmission.codec.vec).iso
    { toFun := fun (lastSeen, farms) => ⟨lastSeen, farms⟩
      invFun f := (f.lastSeenTimestamp, f.farmEmissions)
      left_inv _ := rfl
      right_inv _ := rfl }

def LiquidityNetBalanceLimits.codec : Codec LiquidityNetBalanceLimits :=
  (Codec.u32.pair <| Codec.u64.pair <| Codec.u16.pair <| Codec.u32.pair Codec.u32).iso
    { toFun := fun (start, balance, negative, positive, duration) =>
        ⟨start, balance, negative, positive, duration⟩
      invFun l := (l.windowStartTimestamp, l.windowStartNetBalance,
        l.maxNetBalanceChangeNegativePercentage, l.maxNetBalanceChangePositivePercentage,
        l.windowDurationSeconds)
      left_inv _ := rfl
      right_inv _ := rfl }

def MarketFinancials.codec {N : Type} (P : PriceFormat N) : Codec (MarketFinancials N) :=
  (Codec.u64.pair <| Codec.u64.pair <| Codec.u64.pair <| P.codec.pair <|
    P.codec.pair P.codec).iso
    { toFun := fun (expiration, pt, sy, fee, rate, scalar) => ⟨expiration, pt, sy, fee, rate, scalar⟩
      invFun f := (f.expirationTs, f.ptBalance, f.syBalance, f.lnFeeRateRoot,
        f.lastLnImpliedRate, f.rateScalarRoot)
      left_inv _ := rfl
      right_inv _ := rfl }

/-! ## Accounts -/

/-- The keys in a vault that no instruction here changes. -/
structure VaultKeys where
  syProgram : Pubkey
  mintSy : Pubkey
  mintYt : Pubkey
  mintPt : Pubkey
  escrowYt : Pubkey
  escrowSy : Pubkey
  yieldPosition : Pubkey
  addressLookupTable : Pubkey
  signerSeed : Pubkey
  authority : Pubkey
  signerBump : UInt8
  treasurySyTokenAccount : Pubkey

def Vault.codec : Codec (VaultKeys × Vault) :=
  -- sy_program .. address_lookup_table
  (pubkeyCodec.pair <| pubkeyCodec.pair <| pubkeyCodec.pair <| pubkeyCodec.pair <|
    pubkeyCodec.pair <| pubkeyCodec.pair <| pubkeyCodec.pair <| pubkeyCodec.pair <|
    -- start_ts, duration, signer_seed, authority, signer_bump
    Codec.u32.pair <| Codec.u32.pair <| pubkeyCodec.pair <| pubkeyCodec.pair <| Codec.u8.pair <|
    -- the rates
    Number.codec.pair <| Number.codec.pair <| Number.codec.pair <|
    -- total_sy_in_escrow .. uncollected_sy
    Codec.u64.pair <| Codec.u64.pair <| Codec.u64.pair <| Codec.u64.pair <| Codec.u64.pair <|
    -- treasury_sy_token_account, interest_bps_fee, min_op_size_strip, min_op_size_merge, status
    pubkeyCodec.pair <| Codec.u16.pair <| Codec.u64.pair <| Codec.u64.pair <| Codec.u8.pair <|
    EmissionInfo.codec.vec.pair <| CpiAccounts.codec.pair <| ClaimLimits.codec.pair Codec.u64).iso
    { toFun := fun (syProgram, mintSy, mintYt, mintPt, escrowYt, escrowSy, yieldPosition,
          addressLookupTable, startTs, duration, signerSeed, authority, signerBump,
          lastSeenSyExchangeRate, allTimeHighSyExchangeRate, finalSyExchangeRate, totalSyInEscrow,
          syForPt, ptSupply, treasurySy, uncollectedSy, treasurySyTokenAccount, interestBpsFee,
          minOpSizeStrip, minOpSizeMerge, status, emissions, cpiAccounts, claimLimits,
          maxPySupply) =>
        ({ syProgram, mintSy, mintYt, mintPt, escrowYt, escrowSy, yieldPosition,
           addressLookupTable, signerSeed, authority, signerBump, treasurySyTokenAccount },
         { startTs, duration, lastSeenSyExchangeRate, allTimeHighSyExchangeRate,
           finalSyExchangeRate, totalSyInEscrow, syForPt, ptSupply, treasurySy, uncollectedSy,
           interestBpsFee, minOpSizeStrip, minOpSizeMerge, status, emissions, cpiAccounts,
           claimLimits, maxPySupply })
      invFun := fun (k, v) =>
        (k.syProgram, k.mintSy, k.mintYt, k.mintPt, k.escrowYt, k.escrowSy, k.yieldPosition,
          k.addressLookupTable, v.startTs, v.duration, k.signerSeed, k.authority, k.signerBump,
          v.lastSeenSyExchangeRate, v.allTimeHighSyExchangeRate, v.finalSyExchangeRate,
          v.totalSyInEscrow, v.syForPt, v.ptSupply, v.treasurySy, v.uncollectedSy,
          k.treasurySyTokenAccount, v.interestBpsFee, v.minOpSizeStrip, v.minOpSizeMerge,
          v.status, v.emissions, v.cpiAccounts, v.claimLimits, v.maxPySupply)
      left_inv _ := rfl
      right_inv _ := rfl }

def YieldTokenPosition.codec : Codec YieldTokenPosition :=
  (pubkeyCodec.pair <| pubkeyCodec.pair <| Codec.u64.pair <| YieldTokenTracker.codec.pair
    YieldTokenTracker.codec.vec).iso
    { toFun := fun (owner, vault, ytBalance, interest, emissions) =>
        ⟨owner, vault, ytBalance, interest, emissions⟩
      invFun p := (p.owner, p.vault, p.ytBalance, p.interest, p.emissions)
      left_inv _ := rfl
      right_inv _ := rfl }

/-- The keys in a market that no instruction here changes. -/
structure MarketKeys where
  addressLookupTable : Pubkey
  mintPt : Pubkey
  mintSy : Pubkey
  vault : Pubkey
  mintLp : Pubkey
  tokenLpEscrow : Pubkey
  tokenPtEscrow : Pubkey
  tokenSyEscrow : Pubkey
  tokenFeeTreasurySy : Pubkey
  selfAddress : Pubkey
  signerBump : UInt8
  syProgram : Pubkey
  seedId : UInt8

def MarketTwo.codec {N : Type} (P : PriceFormat N) : Codec (MarketKeys × MarketTwo N) :=
  -- address_lookup_table .. token_fee_treasury_sy
  (pubkeyCodec.pair <| pubkeyCodec.pair <| pubkeyCodec.pair <| pubkeyCodec.pair <|
    pubkeyCodec.pair <| pubkeyCodec.pair <| pubkeyCodec.pair <| pubkeyCodec.pair <|
    pubkeyCodec.pair <|
    -- fee_treasury_sy_bps, self_address, signer_bump, status_flags, sy_program
    Codec.u16.pair <| pubkeyCodec.pair <| Codec.u8.pair <| Codec.u8.pair <| pubkeyCodec.pair <|
    (MarketFinancials.codec P).pair <| MarketEmission.codec.vec.pair <| LpFarm.codec.pair <|
    -- max_lp_supply, lp_escrow_amount
    Codec.u64.pair <| Codec.u64.pair <| CpiAccounts.codec.pair <|
    -- is_current_flash_swap, liquidity_net_balance_limits, seed_id
    Codec.bool.pair <| LiquidityNetBalanceLimits.codec.pair Codec.u8).iso
    { toFun := fun (addressLookupTable, mintPt, mintSy, vault, mintLp, tokenLpEscrow, tokenPtEscrow,
          tokenSyEscrow, tokenFeeTreasurySy, feeTreasurySyBps, selfAddress, signerBump,
          statusFlags, syProgram, financials, emissions, lpFarm, maxLpSupply, lpEscrowAmount,
          cpiAccounts, isCurrentFlashSwap, liquidityNetBalanceLimits, seedId) =>
        ({ addressLookupTable, mintPt, mintSy, vault, mintLp, tokenLpEscrow, tokenPtEscrow,
           tokenSyEscrow, tokenFeeTreasurySy, selfAddress, signerBump, syProgram, seedId },
         { feeTreasurySyBps, statusFlags, financials, emissions, lpFarm, maxLpSupply,
           lpEscrowAmount, cpiAccounts, isCurrentFlashSwap, liquidityNetBalanceLimits })
      invFun := fun (k, m) =>
        (k.addressLookupTable, k.mintPt, k.mintSy, k.vault, k.mintLp, k.tokenLpEscrow,
          k.tokenPtEscrow, k.tokenSyEscrow, k.tokenFeeTreasurySy, m.feeTreasurySyBps,
          k.selfAddress, k.signerBump, m.statusFlags, k.syProgram, m.financials, m.emissions,
          m.lpFarm, m.maxLpSupply, m.lpEscrowAmount, m.cpiAccounts, m.isCurrentFlashSwap,
          m.liquidityNetBalanceLimits, k.seedId)
      left_inv _ := rfl
      right_inv _ := rfl }

/-- An LP position names its market. -/
def LpPosition.codec : Codec (Pubkey × LpPosition) :=
  (pubkeyCodec.pair <| pubkeyCodec.pair <| Codec.u64.pair <| PersonalYieldTracker.codec.vec.pair
    PersonalYieldTracker.codec.vec).iso
    { toFun := fun (owner, market, lpBalance, emissions, farms) =>
        (market, ⟨owner, lpBalance, emissions, farms⟩)
      invFun := fun (market, p) => (p.owner, market, p.lpBalance, p.emissions, p.farms)
      left_inv _ := rfl
      right_inv _ := rfl }

/-! ## Discriminators -/

inductive AccountType
  | vault | yieldTokenPosition | marketTwo | lpPosition
deriving DecidableEq

/-- What the data of an account begins with. -/
structure Discriminators where
  tag : AccountType → List UInt8
  length_tag : ∀ t, (tag t).length = discriminatorLen
  injective : Function.Injective tag

namespace DataAccount

def type : DataAccount → AccountType
  | vault => .vault
  | yieldPosition | userPosition _ => .yieldTokenPosition
  | market => .marketTwo
  | lpPosition _ => .lpPosition

end DataAccount

/-- What an account of a type holds. -/
def AccountType.Holding (N : Type) : AccountType → Type
  | vault => VaultKeys × Vault
  | yieldTokenPosition => YieldTokenPosition
  | marketTwo => MarketKeys × MarketTwo N
  | lpPosition => Pubkey × LpPosition

section
variable {N : Type} (T : Discriminators) (P : PriceFormat N)

def AccountType.fields : (t : AccountType) → Codec (t.Holding N)
  | vault => Vault.codec
  | yieldTokenPosition => YieldTokenPosition.codec
  | marketTwo => MarketTwo.codec P
  | lpPosition => LpPosition.codec

/-- The discriminator, then the fields. -/
def AccountType.codec (t : AccountType) : Codec (t.Holding N) := (t.fields P).tagged (T.tag t)

end

/-! ## Storage -/

/-- What of the accounts no instruction here changes. -/
structure AccountKeys where
  vault : VaultKeys
  market : MarketKeys
  marketAddress : Pubkey

/-- What is not in the data of these accounts: how many positions there are, where the market is, and
what other programs keep. -/
structure Elsewhere where
  marketAddress : Pubkey
  userPositions : Nat
  lpPositions : Nat
  vaultClock : UInt32
  lpClock : UInt32
  amountsClaimable : List UInt64
  tokenFarm : Pubkey → UInt64

namespace AccountKeys

variable {N : Type} (k : AccountKeys) (s : ProgramState N)

def elsewhere : Elsewhere :=
  { marketAddress := k.marketAddress
    userPositions := s.vaultWorld.userPositions.length
    lpPositions := s.lpWorld.lpPositions.length
    vaultClock := s.vaultWorld.clock
    lpClock := s.lpWorld.clock
    amountsClaimable := s.lpWorld.amountsClaimable
    tokenFarm := s.lpWorld.tokenFarm }

def part : (a : DataAccount) → Option (a.type.Holding N)
  | .vault => some (k.vault, s.vaultWorld.vault)
  | .yieldPosition => some s.vaultWorld.yieldPosition
  | .userPosition i => s.vaultWorld.userPositions[i]?
  | .market => some (k.market, s.lpWorld.market)
  | .lpPosition i => s.lpWorld.lpPositions[i]?.map fun p => (k.marketAddress, p)

end AccountKeys

namespace Elsewhere

variable {N : Type}

/-- `has_one = market` -/
def ownPosition (r : Elsewhere) (p : Option (Pubkey × LpPosition)) : Option LpPosition := do
  let (market, position) ← p
  if market = r.marketAddress then some position else none

/-- The state of what has been loaded. -/
def state (r : Elsewhere) (vault : Option (VaultKeys × Vault))
    (yieldPosition : Option YieldTokenPosition) (userPositions : Option (List YieldTokenPosition))
    (market : Option (MarketKeys × MarketTwo N)) (lpPositions : Option (List LpPosition)) :
    Option (AccountKeys × ProgramState N) := do
  let (vaultKeys, vault) ← vault
  let yieldPosition ← yieldPosition
  let userPositions ← userPositions
  let (marketKeys, market) ← market
  let lpPositions ← lpPositions
  some
    ({ vault := vaultKeys, market := marketKeys, marketAddress := r.marketAddress },
      { vaultWorld := { vault, yieldPosition, userPositions, clock := r.vaultClock }
        lpWorld :=
          { market, lpPositions, amountsClaimable := r.amountsClaimable, tokenFarm := r.tokenFarm
            clock := r.lpClock } })

/-- Every account is loaded. -/
def assemble (r : Elsewhere) (p : (a : DataAccount) → Option (a.type.Holding N)) :
    Option (AccountKeys × ProgramState N) :=
  r.state (p .vault) (p .yieldPosition)
    ((List.range r.userPositions).mapM fun i => p (.userPosition i)) (p .market)
    ((List.range r.lpPositions).mapM fun i => r.ownPosition (p (.lpPosition i)))

end Elsewhere

/-- What is there for each place is there for the whole list. -/
theorem mapM_range'_eq_some {α : Type} {l : List α} {f : Nat → Option α} {n : Nat}
    (h : ∀ i a, l[i]? = some a → f (n + i) = some a) :
    (List.range' n l.length).mapM f = some l := by
  induction l generalizing n with
  | nil => rfl
  | cons a l ih =>
    have ha : f n = some a := h 0 a rfl
    have hl : (List.range' (n + 1) l.length).mapM f = some l := by
      refine ih fun i b hb => ?_
      rw [Nat.add_right_comm]
      exact h (i + 1) b hb
    rw [List.length_cons, List.range'_succ, List.mapM_cons, ha, hl]
    rfl

theorem mapM_range_eq_some {α : Type} {l : List α} {f : Nat → Option α}
    (h : ∀ i a, l[i]? = some a → f i = some a) : (List.range l.length).mapM f = some l := by
  rw [List.range_eq_range']
  exact mapM_range'_eq_some fun i a ha => by rw [Nat.zero_add, h i a ha]

theorem AccountKeys.assemble_eq_some {N : Type} (k : AccountKeys) (s : ProgramState N)
    (p : (a : DataAccount) → Option (a.type.Holding N))
    (h : ∀ a v, k.part s a = some v → p a = some v) :
    (k.elsewhere s).assemble p = some (k, s) := by
  have huser : (List.range s.vaultWorld.userPositions.length).mapM
      (fun i => p (.userPosition i)) = some s.vaultWorld.userPositions :=
    mapM_range_eq_some fun i u hu => h (.userPosition i) u hu
  have hlp : (List.range s.lpWorld.lpPositions.length).mapM
      (fun i => (k.elsewhere s).ownPosition (p (.lpPosition i))) = some s.lpWorld.lpPositions := by
    refine mapM_range_eq_some fun i q hq => ?_
    have hpart : k.part s (.lpPosition i) = some (k.marketAddress, q) := by
      rw [part, hq]
      rfl
    rw [h _ _ hpart]
    exact if_pos rfl
  have hvault : (p .vault : Option (VaultKeys × Vault)) = some (k.vault, s.vaultWorld.vault) :=
    h .vault _ rfl
  have hposition : (p .yieldPosition : Option YieldTokenPosition)
      = some s.vaultWorld.yieldPosition := h .yieldPosition _ rfl
  have hmarket : (p .market : Option (MarketKeys × MarketTwo N))
      = some (k.market, s.lpWorld.market) := h .market _ rfl
  show (k.elsewhere s).state (p .vault) (p .yieldPosition)
    ((List.range s.vaultWorld.userPositions.length).mapM _) (p .market)
    ((List.range s.lpWorld.lpPositions.length).mapM _) = _
  rw [hvault, hposition, huser, hmarket, hlp]
  rfl

section
variable {N : Type} (T : Discriminators) (P : PriceFormat N)

def accountStorage : Storage (AccountKeys × ProgramState N) DataAccount
    (fun a => a.type.Holding N) Elsewhere where
  codec a := a.type.codec T P
  part p := p.1.part p.2
  rest p := p.1.elsewhere p.2
  assemble := Elsewhere.assemble
  assemble_eq_some p := p.1.assemble_eq_some p.2

/-- The bytes of the accounts. -/
abbrev AccountBytes := Stored DataAccount Elsewhere

/-- An instruction on the bytes. Where data gets longer, `fresh` is what the runtime has there. -/
def AccountBytes.step [Num N] (fresh : Nat → UInt8) :
    AccountBytes → Instruction → Except (StoreFailure Fault) AccountBytes :=
  (accountStorage T P).step ((accountLayout N).beside AccountKeys) fresh
    (beside ProgramState.step)

/-- What the accounts hold. -/
def AccountBytes.load (d : AccountBytes) : Option (AccountKeys × ProgramState N) :=
  (accountStorage T P).load d

end

end ExponentCore
