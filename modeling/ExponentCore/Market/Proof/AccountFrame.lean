import ExponentCore.Market.AccountData
import ExponentCore.Market.Proof.LpEvents
import ExponentCore.Vault.Proof.Slots

/-!
# Instructions keep what they do not declare

The size of an account depends on the lengths of its lists, and for a position on how many trackers
it has. `VaultWorld.seenIndexes_of_not_declared` and `LpWorld.leavesUndeclared_of_ok` are about the
two halves of the program, and together they are the frame rule `ProgramState.framed`: an
instruction leaves the size of an account alone that it does not declare.
-/

set_option autoImplicit false

namespace ExponentCore

open Cached Machine

/-! ## Sizes -/

theorem vecLen_const {α : Type} (n : Nat) (l : List α) :
    vecLen (fun _ => n) l = 4 + l.length * n := by
  rw [vecLen, List.map_const', List.sum_replicate, smul_eq_mul]

/-- `size_of_static` and the accounts of the SY program are exactly the vault. -/
theorem Vault.discriminatorLen_add_borshLen (v : Vault) :
    discriminatorLen + v.borshLen =
      Vault.sizeOfStatic v.emissions.length + v.cpiAccounts.sizeOf := by
  simp only [Vault.borshLen, vecLen_const, Vault.sizeOfStatic, EmissionInfo.sizeOf,
    ClaimLimits.sizeOf, Number.sizeof, discriminatorLen]
  omega

theorem YieldTokenPosition.discriminatorLen_add_borshLen (p : YieldTokenPosition) :
    discriminatorLen + p.borshLen = YieldTokenPosition.sizeOf p.emissions.length := by
  simp only [YieldTokenPosition.borshLen, vecLen_const, YieldTokenPosition.sizeOf,
    YieldTokenTracker.sizeOf, Number.sizeof, discriminatorLen]
  omega

/-- The data of a market is 23 bytes longer than it needs to be. -/
theorem MarketTwo.discriminatorLen_add_borshLen {K : Type} (m : MarketTwo K) :
    discriminatorLen + m.borshLen + 23 =
      MarketTwo.sizeOf m.cpiAccounts m.emissions.length m.lpFarm.farmEmissions.length := by
  simp only [MarketTwo.borshLen, vecLen_const, MarketTwo.sizeOf, MarketFinancials.sizeOf,
    MarketEmission.sizeOfStatic, MarketEmission.size, LpFarm.sizeOfStatic, FarmEmission.size,
    LiquidityNetBalanceLimits.sizeOf, Number.sizeof, discriminatorLen]
  omega

theorem LpPosition.discriminatorLen_add_borshLen (p : LpPosition) :
    discriminatorLen + p.borshLen =
      LpPosition.staticSizeOf p.emissions.length p.farms.length := by
  simp only [LpPosition.borshLen, vecLen_const, LpPosition.staticSizeOf,
    PersonalYieldTrackers.staticSizeOf, PersonalYieldTracker.size, discriminatorLen]
  omega

theorem YieldTokenPosition.sizeOf_le {m n : Nat} :
    YieldTokenPosition.sizeOf m ≤ YieldTokenPosition.sizeOf n ↔ m ≤ n := by
  simp only [YieldTokenPosition.sizeOf, YieldTokenTracker.sizeOf, Number.sizeof]
  omega

theorem YieldTokenPosition.sizeOf_max_le {m n c : Nat} :
    YieldTokenPosition.sizeOf (max m n) ≤ c ↔
      YieldTokenPosition.sizeOf m ≤ c ∧ YieldTokenPosition.sizeOf n ≤ c := by
  rcases le_total m n with h | h
  · rw [max_eq_right h]
    exact ⟨fun hn => ⟨(sizeOf_le.2 h).trans hn, hn⟩, fun hc => hc.2⟩
  · rw [max_eq_left h]
    exact ⟨fun hm => ⟨hm, (sizeOf_le.2 h).trans hm⟩, fun hc => hc.1⟩

/-- Farms are never taken off, emissions may be. -/
theorem LpPosition.staticSizeOf_max_le {e f e' f' : Nat} (hf : f ≤ f') :
    LpPosition.staticSizeOf (max e e') (max f f') ≤ LpPosition.staticSizeOf e' f' ↔ e ≤ e' := by
  rw [max_eq_right hf]
  simp only [LpPosition.staticSizeOf, PersonalYieldTrackers.staticSizeOf, PersonalYieldTracker.size]
  omega

theorem MarketTwo.borshLen_congr {K : Type} {m m' : MarketTwo K}
    (he : m'.emissions.length = m.emissions.length)
    (hf : m'.lpFarm.farmEmissions.length = m.lpFarm.farmEmissions.length)
    (hc : m'.cpiAccounts = m.cpiAccounts) : m'.borshLen = m.borshLen := by
  rw [MarketTwo.borshLen, MarketTwo.borshLen, vecLen_const, vecLen_const, vecLen_const,
    vecLen_const, he, hf, hc]

/-! ## Instructions on a vault -/

/-- The account of a holder's position. -/
def Holder.account : Holder → DataAccount
  | .vault => .yieldPosition
  | .user i => .userPosition i

/-- The limits on claims have no part in it. -/
theorem VaultOp.declared_withClaimLimits (w : VaultWorld) (l : ClaimLimits) (op : VaultOp) :
    op.declared (w.withClaimLimits l) = op.declared w := by
  cases op <;> rfl

namespace VaultWorld

variable {w w' : VaultWorld} {op : VaultOp}

theorem updateFromSyState_cpiAccounts {v v' : Vault} {syState : SyState} {now : UInt32}
    (h : v.updateFromSyState syState now = .ok v') : v'.cpiAccounts = v.cpiAccounts := by
  simp only [Vault.updateFromSyState, Vault.recordSyState, bind_eq_ok, Except.ok.injEq] at h
  obtain ⟨v₁, h₁, v₂, h₂, v₃, ⟨active, -, es, -, rfl⟩, h₄⟩ := h
  obtain ⟨n, t, -, -, rfl⟩ := Vault.skimSy_eq_ok h₁
  obtain ⟨es', rfl⟩ := Vault.skimEmissions_eq_ok h₂
  obtain ⟨s, rfl, -⟩ := Vault.setSyForPt_eq_ok h₄
  rfl

/-- Only administrators change the accounts of the SY program. -/
theorem cpiAccounts_of_ok (hop : op.keepsList = true) (htimely : op.Timely w)
    (h : w.step op = .ok w') : w'.vault.cpiAccounts = w.vault.cpiAccounts := by
  refine VaultRun.step_induction (A := fun _ o => o = op) (P := fun _ => True) (g := {})
    (I := fun r => r.1.vault.cpiAccounts = w.vault.cpiAccounts) ?_ rfl rfl htimely
    (fun _ _ => trivial) h
  intro r r' hr he
  refine Eq.trans ?_ hr
  cases he with
  | refresh _ _ href _ =>
    obtain ⟨c, u, -, -, -, hv⟩ := href.earned.credit
    have hcpi := updateFromSyState_cpiAccounts href.update
    rw [hv]
    exact hcpi
  | earn _ _ hearn =>
    obtain ⟨c, u, -, -, -, hv⟩ := (earned_of_ok hearn).credit
    rw [hv]
  | mint _ _ _ hm =>
    obtain ⟨e, t, s, -, -, hv⟩ := hm.vault
    rw [hv]
  | burn _ _ hb =>
    obtain ⟨e, t, s, -, -, hv⟩ := hb.vault
    rw [hv]
  | deposit _ _ _ _ _ hm | withdraw _ _ _ _ hm =>
    obtain ⟨s, hv⟩ := hm.vault
    rw [hv]
  | payInterest _ hpay =>
    obtain ⟨e, c, -, -, hv⟩ := hpay.vault
    rw [hv]
  | payTreasury hpay =>
    obtain ⟨e, t, -, -, hv⟩ := hpay
    rw [hv]
  | @payEmission _ _ k => cases k <;> rfl
  | rebalance _ | payTreasuryEmission _ _ | openPosition | removeEmission _ => rfl
  | addEmission hA _ =>
    rw [← hA] at hop
    cases hop

theorem staged_declared {k : Holder} (hk : k ∈ op.staged) :
    k.account ∈ (op.declared w).map Prod.fst := by
  cases op with
  | strip | merge | collectInterest =>
    obtain rfl := List.mem_singleton.1 hk
    simp [VaultOp.declared, Holder.account]
  | depositYt | withdrawYt | stageYield =>
    rcases List.mem_cons.1 hk with rfl | hk
    · simp [VaultOp.declared, Holder.account]
    · obtain rfl := List.mem_singleton.1 hk
      simp [VaultOp.declared, Holder.account]
  | initializeYieldPosition | collectTreasuryInterest | collectEmission | collectTreasuryEmission
  | addEmission | removeVaultEmission => cases hk

/-- An operation leaves the positions alone that it does not declare. -/
theorem seenIndexes_of_not_declared {k : Holder} (h : w.step op = .ok w')
    (hk : k.account ∉ (op.declared w).map Prod.fst) : w'.seenIndexes k = w.seenIndexes k := by
  cases hop : op.keepsList with
  | true => exact (restaged_of_ok hop h).others k fun hmem => hk (staged_declared hmem)
  | false =>
    cases op with
    | initializeYieldPosition owner key =>
      cases h
      cases k with
      | vault => rfl
      | user i =>
        have hne : i ≠ w.userPositions.length := by
          simpa [VaultOp.declared, Holder.account] using hk
        rw [seenIndexes, seenIndexes, position?, position?, ListSum.getElem?_concat_of_ne hne]
    | addEmission =>
      obtain ⟨i, -, rfl⟩ := step_addEmission h
      rfl
    | removeVaultEmission =>
      obtain ⟨-, rfl⟩ := step_removeVaultEmission h
      rfl
    | _ => cases hop

end VaultWorld

/-! ## Instructions on staked LP tokens -/

namespace LpWorld

variable {K : Type} {w w' : LpWorld K} {op : LpOp} {i : Nat} {now : UInt32} {a : UInt64}

/-- **What staking and unstaking write**: the position has a tracker for every reward of the market,
and keeps those that it had. -/
structure Regrown (w : LpWorld K) (i : Nat) (w' : LpWorld K) : Prop where
  market : w'.market.borshLen = w.market.borshLen
  position : ∃ p q, w.lpPositions[i]? = some p ∧ w'.lpPositions = w.lpPositions.set i q ∧
    q.emissions.length = max p.emissions.length w.market.emissions.length ∧
    q.farms.length = max p.farms.length w.market.lpFarm.farmEmissions.length

theorem regrown_of_updateAndStage {p p' : LpPosition} {m : MarketTwo K} {e b : UInt64}
    (hp : w.lpPositions[i]? = some p)
    (h : updateAndStage w.market p now w.amountsClaimable = .ok (m, p')) :
    Regrown w i { w with
      market := { m with lpEscrowAmount := e }
      lpPositions := w.lpPositions.set i { p' with lpBalance := b }, clock := now } := by
  obtain ⟨es, f, hes, hf, rfl, hs⟩ := updateAndStage_eq_ok h
  have hemissions := MarketEmission.length_updateAll hes
  have hfarms := (LpFarm.increaseShareIndexes_eq_ok hf).2.length_eq.symm
  refine ⟨MarketTwo.borshLen_congr hemissions hfarms rfl, p, _, hp, rfl, ?_, ?_⟩
  · have hlen := hs.emissions
    rwa [MarketTwo.emissionIndexes, List.length_map, hemissions] at hlen
  · have hlen := hs.farms
    rwa [LpFarm.getLastSeenIndices, List.length_map, hfarms] at hlen

theorem regrown_of_depositLp (h : w.step (.depositLp now i a) = .ok w') : Regrown w i w' := by
  simp only [step, withPosition, depositLp, bind_eq_ok, getAt_eq_ok, LpPosition.addLp,
    Except.ok.injEq, Prod.exists, Prod.mk.injEq] at h
  obtain ⟨p, hp, m, q, ⟨m₁, p₁, hs, e, -, p₂, ⟨b, -, rfl⟩, rfl, rfl⟩, rfl⟩ := h
  exact regrown_of_updateAndStage hp hs

theorem regrown_of_withdrawLp (h : w.step (.withdrawLp now i a) = .ok w') : Regrown w i w' := by
  simp only [step, withPosition, withdrawLp, bind_eq_ok, getAt_eq_ok, LpPosition.rmLp,
    Except.ok.injEq, Prod.exists, Prod.mk.injEq] at h
  obtain ⟨p, hp, m, q, ⟨m₁, p₁, hs, p₂, ⟨b, -, rfl⟩, e, -, rfl, rfl⟩, rfl⟩ := h
  exact regrown_of_updateAndStage hp hs

/-- Paying out changes no length. -/
structure PaidOut (w : LpWorld K) (i : Nat) (w' : LpWorld K) : Prop where
  market : w'.market.borshLen = w.market.borshLen
  position : ∃ p q, w.lpPositions[i]? = some p ∧ w'.lpPositions = w.lpPositions.set i q ∧
    q.emissions.length = p.emissions.length ∧ q.farms.length = p.farms.length

theorem paidOut_of_marketCollectEmission {index : UInt16}
    (h : w.step (.marketCollectEmission i index) = .ok w') : PaidOut w i w' := by
  simp only [step, marketCollectEmission, bind_eq_ok, getAt_eq_ok, setAt_eq_ok, unwrap_eq_ok,
    Except.ok.injEq, Prod.exists, Prod.mk.injEq] at h
  obtain ⟨p, hp, m, q, cs, ⟨e, he, t, ht, ts, ⟨-, rfl⟩, -, -, cs', -, l, -, es, ⟨-, rfl⟩, rfl, rfl,
    rfl⟩, rfl⟩ := h
  exact ⟨MarketTwo.borshLen_congr List.length_set rfl rfl, p, _, hp, rfl, List.length_set, rfl⟩

theorem paidOut_of_claimFarmEmissions {mint : Pubkey} {amount : Amount}
    (h : w.step (.claimFarmEmissions i mint amount) = .ok w') :
    PaidOut w i w' ∧ w'.market = w.market := by
  simp only [step, claimFarmEmissions, bind_eq_ok, getAt_eq_ok, setAt_eq_ok, Except.ok.injEq,
    Prod.exists, Prod.mk.injEq] at h
  obtain ⟨p, hp, q, b, ⟨j, -, t, -, x, -, b', -, t', -, ts, ⟨-, rfl⟩, rfl, rfl⟩, rfl⟩ := h
  exact ⟨⟨rfl, p, _, hp, rfl, rfl, List.length_set⟩, rfl⟩

/-- An operation leaves the accounts alone that it does not declare. -/
structure LeavesUndeclared (w : LpWorld K) (op : LpOp) (w' : LpWorld K) : Prop where
  market : .market ∉ (op.declared w).map Prod.fst → w'.market = w.market
  positions : ∀ j, .lpPosition j ∉ (op.declared w).map Prod.fst →
    w'.lpPositions[j]? = w.lpPositions[j]?

/-- The market is declared, and one position. -/
theorem leavesUndeclared_set {q : LpPosition} (hpos : w'.lpPositions = w.lpPositions.set i q)
    (hi : .lpPosition i ∈ (op.declared w).map Prod.fst)
    (hm : .market ∈ (op.declared w).map Prod.fst ∨ w'.market = w.market) :
    LeavesUndeclared w op w' := by
  refine ⟨fun hnot => hm.resolve_left hnot, fun j hj => ?_⟩
  have hne : i ≠ j := by
    rintro rfl
    exact hj hi
  rw [hpos, List.getElem?_set_ne hne]

/-- The market is declared, and no position changes. -/
theorem leavesUndeclared_market (hpos : w'.lpPositions = w.lpPositions)
    (hm : .market ∈ (op.declared w).map Prod.fst) : LeavesUndeclared w op w' :=
  ⟨fun hnot => absurd hm hnot, fun j _ => by rw [hpos]⟩

theorem leavesUndeclared_of_ok (h : w.step op = .ok w') : LeavesUndeclared w op w' := by
  cases op with
  | initLpPosition owner =>
    cases h
    refine ⟨fun _ => rfl, fun j hj => ListSum.getElem?_concat_of_ne ?_⟩
    simpa [LpOp.declared] using hj
  | depositLp now i a =>
    obtain ⟨p, q, -, hpos, -⟩ := (regrown_of_depositLp h).position
    exact leavesUndeclared_set hpos (by simp [LpOp.declared]) (.inl (by simp [LpOp.declared]))
  | withdrawLp now i a =>
    obtain ⟨p, q, -, hpos, -⟩ := (regrown_of_withdrawLp h).position
    exact leavesUndeclared_set hpos (by simp [LpOp.declared]) (.inl (by simp [LpOp.declared]))
  | marketCollectEmission i index =>
    obtain ⟨p, q, -, hpos, -⟩ := (paidOut_of_marketCollectEmission h).position
    exact leavesUndeclared_set hpos (by simp [LpOp.declared]) (.inl (by simp [LpOp.declared]))
  | claimFarmEmissions i mint amount =>
    obtain ⟨hpaid, hm⟩ := paidOut_of_claimFarmEmissions h
    obtain ⟨p, q, -, hpos, -⟩ := hpaid.position
    exact leavesUndeclared_set hpos (by simp [LpOp.declared]) (.inr hm)
  | addMarketEmission accounts token =>
    cases h
    exact leavesUndeclared_market rfl (by simp [LpOp.declared])
  | removeMarketEmission slot =>
    simp only [step, bind_eq_ok, Except.ok.injEq] at h
    obtain ⟨m, -, rfl⟩ := h
    exact leavesUndeclared_market rfl (by simp [LpOp.declared])
  | addFarm now mint rate expiry =>
    simp only [step, withTokenFarm, bind_eq_ok, Except.ok.injEq, Prod.exists] at h
    obtain ⟨m, b, -, rfl⟩ := h
    exact leavesUndeclared_market rfl (by simp [LpOp.declared])
  | modifyFarm now mint expiry rate =>
    simp only [step, withTokenFarm, bind_eq_ok, Except.ok.injEq, Prod.exists] at h
    obtain ⟨m, b, -, rfl⟩ := h
    exact leavesUndeclared_market rfl (by simp [LpOp.declared])
  | accrue cs =>
    cases h
    exact ⟨fun _ => rfl, fun _ _ => rfl⟩

end LpWorld

/-! ## The frame rule -/

/-- The instruction is about the books of the market. -/
def Instruction.isBooked : Instruction → Bool
  | .tradePt .. | .depositLiquidity .. | .withdrawLiquidity .. | .edit _ => true
  | _ => false

namespace ProgramState

variable {N : Type} {s : ProgramState N} {w : VaultWorld} {lp : LpWorld N}

theorem size_vault (s : ProgramState N) : s.size .vault =
    Vault.sizeOfStatic s.vaultWorld.vault.emissions.length +
      s.vaultWorld.vault.cpiAccounts.sizeOf :=
  Vault.discriminatorLen_add_borshLen _

/-- A position is as long as its trackers need. -/
theorem size_position (s : ProgramState N) (k : Holder) : s.size k.account =
    (s.vaultWorld.seenIndexes k).elim 0 fun xs => YieldTokenPosition.sizeOf xs.length := by
  have hlen (p : YieldTokenPosition) : discriminatorLen + p.borshLen =
      YieldTokenPosition.sizeOf p.seenIndexes.length := by
    rw [YieldTokenPosition.seenIndexes, List.length_map]
    exact p.discriminatorLen_add_borshLen
  cases k with
  | vault => exact hlen _
  | user i =>
    show (s.vaultWorld.userPositions[i]?.elim 0 _) = _
    rw [VaultWorld.seenIndexes, VaultWorld.position?]
    cases s.vaultWorld.userPositions[i]? with
    | none => rfl
    | some p => exact hlen p

variable [Num N]

/-- **Trades, liquidity and flash swaps** write the books of the market. -/
theorem booked_of_ok {i : Instruction} (hi : i.isBooked = true) {s s' : ProgramState N}
    (h : s.step i = .ok s') : ∃ m, s' = s.setMarket m ∧ m.lpFarm = s.lpWorld.market.lpFarm ∧
      m.borshLen = s.lpWorld.market.borshLen := by
  cases i with
  | tradePt =>
    simp only [step, bind_eq_ok, Except.ok.injEq, Prod.exists] at h
    obtain ⟨f, r, -, rfl⟩ := h
    exact ⟨_, rfl, rfl, rfl⟩
  | depositLiquidity =>
    simp only [step, bind_eq_ok, Except.ok.injEq, Prod.exists] at h
    obtain ⟨f, r, -, l, -, rfl⟩ := h
    exact ⟨_, rfl, rfl, rfl⟩
  | withdrawLiquidity =>
    simp only [step, bind_eq_ok, Except.ok.injEq, Prod.exists] at h
    obtain ⟨c, -, l, -, f, r, -, rfl⟩ := h
    exact ⟨_, rfl, rfl, rfl⟩
  | edit e =>
    cases h
    exact ⟨_, rfl, by cases e; rfl, by cases e; rfl⟩
  | vault | lp | changeClaimLimits | changeVaultCpiAccounts | changeMarketCpiAccounts => cases hi

theorem framed : (accountLayout N).Framed ProgramState.step := by
  intro s i s' a hs ha
  cases i with
  | vault op =>
    simp only [step, bind_eq_ok, Except.ok.injEq] at hs
    obtain ⟨w', hw, rfl⟩ := hs
    obtain ⟨l, -, hw⟩ := VaultWorld.instruct_of_withinLimits hw
    have hw := (VaultWorld.instruct_eq_ok hw).2
    have hposition (k : Holder) (hk : k.account ∉ (op.declared s.vaultWorld).map Prod.fst) :
        size { s with vaultWorld := w' } k.account = s.size k.account := by
      rw [size_position, size_position]
      rw [← VaultOp.declared_withClaimLimits s.vaultWorld l] at hk
      have hseen := VaultWorld.seenIndexes_of_not_declared hw hk
      exact congrArg (Option.elim · _ _) hseen
    cases a with
    | vault =>
      cases op with
      | initializeYieldPosition =>
        cases hw
        rfl
      | _ => exact absurd (by simp [accountLayout, Instruction.declared, VaultOp.declared]) ha
    | yieldPosition => exact hposition .vault ha
    | userPosition i => exact hposition (.user i) ha
    | market | lpPosition => rfl
  | lp op =>
    simp only [step, bind_eq_ok, Except.ok.injEq] at hs
    obtain ⟨w', hw, rfl⟩ := hs
    have hleaves := LpWorld.leavesUndeclared_of_ok hw
    cases a with
    | vault | yieldPosition | userPosition => rfl
    | market => exact congrArg (fun m => discriminatorLen + m.borshLen) (hleaves.market ha)
    | lpPosition j => exact congrArg (Option.elim · _ _) (hleaves.positions j ha)
  | changeClaimLimits | changeVaultCpiAccounts =>
    cases hs
    cases a with
    | vault => exact absurd (by simp [accountLayout, Instruction.declared]) ha
    | _ => rfl
  | changeMarketCpiAccounts =>
    cases hs
    cases a with
    | market => exact absurd (by simp [accountLayout, Instruction.declared]) ha
    | _ => rfl
  | tradePt | depositLiquidity | withdrawLiquidity | edit =>
    obtain ⟨m, rfl, -⟩ := booked_of_ok rfl hs
    cases a with
    | market => exact absurd (by simp [accountLayout, Instruction.declared]) ha
    | _ => rfl

end ProgramState

end ExponentCore
