import ExponentCore.Curve.Proof.Liquidity
import ExponentCore.Lib.Machine
import ExponentCore.Market.Financials

/-!
# Liquidity operations do not dilute LPs

The books of a market with the supply of its LP tokens, under any sequence of deposits and
withdrawals, in exact arithmetic. What an LP token stands for (`ptPerLp`, `syPerLp`) never falls
(`undiluted`): a deposit brings at least its share of both tokens and at most what was intended, a
withdrawal takes at most its share, and redeeming the LP tokens of a deposit returns at most what
was deposited.
-/

set_option autoImplicit false

namespace ExponentCore

namespace LiquidityPool

section
variable {N : Type} (p p' : LiquidityPool N)

/-- The PT of the pool that one LP token stands for. -/
def ptPerLp : ℚ := p.financials.ptBalance.toNat / p.lpSupply.toNat

def syPerLp : ℚ := p.financials.syBalance.toNat / p.lpSupply.toNat

/-- A pool with liquidity of both kinds. -/
structure Positive : Prop where
  pt : 0 < p.financials.ptBalance.toNat
  sy : 0 < p.financials.syBalance.toNat
  lp : 0 < p.lpSupply.toNat

/-- What an LP token stands for does not fall from one pool to the next. -/
structure SparesLps : Prop where
  pt : p.ptPerLp ≤ p'.ptPerLp
  sy : p.syPerLp ≤ p'.syPerLp

end

section
variable {N : Type} [Num N]

/-- What an operation must not do to LPs. -/
def Undiluted (p : LiquidityPool N) : PoolOp → Prop
  | .deposit ptIntent syIntent => ∀ p' r, p.deposit ptIntent syIntent = .ok (p', r) →
      p.SparesLps p' ∧ r.ptIn ≤ ptIntent ∧ r.syIn ≤ syIntent ∧
        ∃ p'' r', p'.withdraw r.lpOut = .ok (p'', r') ∧ r'.ptOut ≤ r.ptIn ∧ r'.syOut ≤ r.syIn
  | .withdraw lpIn => ∀ p' r, p.withdraw lpIn = .ok (p', r) → p.SparesLps p'

/-- LP tokens are left after the operation. -/
def KeepsSupply (p : LiquidityPool N) (op : PoolOp) : Prop :=
  0 < (Machine.next step p op).lpSupply

instance (p : LiquidityPool N) (op : PoolOp) : Decidable (p.KeepsSupply op) :=
  inferInstanceAs (Decidable (0 < (Machine.next step p op).lpSupply))

end

/-! ## One operation -/

section
variable {N : Type} {p p' : LiquidityPool N}

/-- A share of a total, before and after. -/
theorem share_le_share {total total' supply supply' : Nat} (hs : 0 < supply) (hs' : 0 < supply')
    (h : total * supply' ≤ total' * supply) :
    (total : ℚ) / supply ≤ (total' : ℚ) / supply' := by
  rw [div_le_div_iff₀ (Nat.cast_pos.2 hs) (Nat.cast_pos.2 hs')]
  exact_mod_cast h

/-- What comes in with new LP tokens is at least their share. -/
theorem share_le_add {total amount supply minted : Nat} (h : total * minted ≤ amount * supply) :
    total * (supply + minted) ≤ (total + amount) * supply := by
  rw [Nat.mul_add, Nat.add_mul]
  exact Nat.add_le_add_left h _

/-- What goes out with burnt LP tokens is at most their share. -/
theorem share_le_sub {total total' out supply supply' burnt : Nat} (ht : total' + out = total)
    (hs : supply' + burnt = supply) (h : out * supply ≤ total * burnt) :
    total * supply' ≤ total' * supply := by
  have hall : total * supply' + total * burnt = total' * supply + out * supply := by
    rw [← Nat.mul_add, ← Nat.add_mul, hs, ht]
  omega

/-- Redeeming new LP tokens at once. -/
theorem redeem_le {total amount out supply minted : Nat} (hs : 0 < supply)
    (h : total * minted ≤ amount * supply)
    (hout : out * (supply + minted) ≤ (total + amount) * minted) : out ≤ amount := by
  refine Nat.le_of_mul_le_mul_right (c := supply + minted) (hout.trans ?_) (by omega)
  rw [Nat.add_mul, Nat.mul_add]
  exact Nat.add_le_add_right h _

/-- Liquidity of both kinds stays as long as there are LP tokens. -/
theorem Positive.spared (hp : p.Positive) (hspares : p.SparesLps p')
    (hlp' : 0 < p'.lpSupply.toNat) : p'.Positive := by
  have hlp : (0 : ℚ) < p.lpSupply.toNat := Nat.cast_pos.2 hp.lp
  have hpt : 0 < p.ptPerLp := div_pos (Nat.cast_pos.2 hp.pt) hlp
  have hsy : 0 < p.syPerLp := div_pos (Nat.cast_pos.2 hp.sy) hlp
  have hlpQ : (0 : ℚ) < p'.lpSupply.toNat := Nat.cast_pos.2 hlp'
  refine ⟨?_, ?_, hlp'⟩
  · have := hpt.trans_le hspares.pt
    rw [ptPerLp, div_pos_iff_of_pos_right hlpQ] at this
    exact_mod_cast this
  · have := hsy.trans_le hspares.sy
    rw [syPerLp, div_pos_iff_of_pos_right hlpQ] at this
    exact_mod_cast this

end

section
variable {K : Type} [Field K] [LinearOrder K] [FloorRing K] [LnExp K] [IsStrictOrderedRing K]
variable {p p' : LiquidityPool (Exact K)} {ptIntent syIntent lpIn : UInt64}

theorem deposit_spec {r : LiqAddResult} (hp : p.Positive)
    (h : p.deposit ptIntent syIntent = .ok (p', r)) :
    TimeCurve.FairDeposit syIntent ptIntent p.lpSupply p.financials.syBalance
        p.financials.ptBalance ⟨r.lpOut, r.syIn, r.ptIn⟩ ∧
      p'.financials.ptBalance.toNat = p.financials.ptBalance.toNat + r.ptIn.toNat ∧
      p'.financials.syBalance.toNat = p.financials.syBalance.toNat + r.syIn.toNat ∧
      p'.lpSupply.toNat = p.lpSupply.toNat + r.lpOut.toNat := by
  have hfair : TimeCurve.FairDeposit syIntent ptIntent _ _ _ _ :=
    TimeCurve.addLiquidity_fair (K := K) hp.lp hp.sy hp.pt
  simp only [deposit, MarketFinancials.addLiquidity, MarketFinancials.incPtBalance,
    MarketFinancials.incSyBalance, bind_eq_ok, Except.ok.injEq, expect_eq_ok, checkedAdd_eq_some,
    transferIn_eq_ok, Prod.mk.injEq] at h
  obtain ⟨⟨f, r'⟩, ⟨f₁, ⟨pt, hpt, rfl⟩, f₂, ⟨sy, hsy, rfl⟩, rfl, rfl⟩, lp, hlp, rfl, rfl⟩ := h
  exact ⟨hfair, hpt, hsy, hlp⟩

theorem withdraw_spec {r : LiqRmResult} (hlp : 0 < p.lpSupply.toNat) :
    p.withdraw lpIn = .ok (p', r) →
      r.ptOut.toNat * p.lpSupply.toNat ≤ p.financials.ptBalance.toNat * lpIn.toNat ∧
      r.syOut.toNat * p.lpSupply.toNat ≤ p.financials.syBalance.toNat * lpIn.toNat ∧
      p'.financials.ptBalance.toNat + r.ptOut.toNat = p.financials.ptBalance.toNat ∧
      p'.financials.syBalance.toNat + r.syOut.toNat = p.financials.syBalance.toNat ∧
      p'.lpSupply.toNat + lpIn.toNat = p.lpSupply.toNat := by
  intro h
  simp only [withdraw, MarketFinancials.rmLiquidity, MarketFinancials.decPtBalance,
    MarketFinancials.decSyBalance, TimeCurve.rmLiquidity_eq_ok hlp, bind_eq_ok, Except.ok.injEq,
    expect_eq_ok, checkedSub_eq_some, transferOut_eq_ok, Prod.mk.injEq, assertTrue_eq_ok] at h
  obtain ⟨⟨f, r'⟩, ⟨-, -, r₁, ⟨-, rfl⟩, f₁, ⟨pt, hpt, rfl⟩, f₂, ⟨sy, hsy, rfl⟩, rfl, rfl⟩, lp, hlp',
    rfl, rfl⟩ := h
  exact ⟨TimeCurve.rm_share hlp, TimeCurve.rm_share hlp, hpt, hsy, hlp'⟩

/-- LP tokens that exist can be redeemed. -/
theorem withdraw_succeeds (hlp : 0 < p.lpSupply.toNat) (hle : lpIn.toNat ≤ p.lpSupply.toNat) :
    ∃ p' r, p.withdraw lpIn = .ok (p', r) := by
  have hshare (total : UInt64) :
      (Num.toU64 (Exact.num ((total.toNat : K) * lpIn.toNat / p.lpSupply.toNat))).toNat
        ≤ total.toNat := by
    refine Nat.le_of_mul_le_mul_right (TimeCurve.rm_share hlp |>.trans ?_) hlp
    exact Nat.mul_le_mul_left _ hle
  cases h : p.withdraw lpIn with
  | ok q => exact ⟨q.1, q.2, rfl⟩
  | error e =>
    have hlpIn : lpIn ≤ p.lpSupply := hle
    simp only [withdraw, MarketFinancials.rmLiquidity, MarketFinancials.decPtBalance,
      MarketFinancials.decSyBalance, (TimeCurve.rmLiquidity_eq_ok hlp).2 ⟨hlpIn, rfl⟩, ok_bind,
      assertTrue, expect, checkedSub, transferOut, hlpIn, hle, hshare, if_true, reduceCtorEq] at h

theorem deposit_undiluted (hp : p.Positive) : p.Undiluted (.deposit ptIntent syIntent) := by
  intro p' r h
  obtain ⟨hfair, hpt, hsy, hlp⟩ := deposit_spec hp h
  have hlp' : 0 < p'.lpSupply.toNat := by
    have := hp.lp
    omega
  refine ⟨⟨?_, ?_⟩, hfair.pt_le_intent, hfair.sy_le_intent, ?_⟩
  · refine share_le_share hp.lp hlp' ?_
    rw [hpt, hlp]
    exact share_le_add hfair.pt_share
  · refine share_le_share hp.lp hlp' ?_
    rw [hsy, hlp]
    exact share_le_add hfair.sy_share
  · obtain ⟨p'', r', hredeem⟩ : ∃ p'' r', p'.withdraw r.lpOut = .ok (p'', r') :=
      withdraw_succeeds hlp' (by omega)
    obtain ⟨hptOut, hsyOut, -⟩ := withdraw_spec hlp' hredeem
    rw [hpt, hlp] at hptOut
    rw [hsy, hlp] at hsyOut
    exact ⟨p'', r', hredeem, redeem_le hp.lp hfair.pt_share hptOut,
      redeem_le hp.lp hfair.sy_share hsyOut⟩

theorem withdraw_spares {r : LiqRmResult} (hlp : 0 < p.lpSupply.toNat)
    (hlp' : 0 < p'.lpSupply.toNat) (h : p.withdraw lpIn = .ok (p', r)) : p.SparesLps p' := by
  obtain ⟨hptOut, hsyOut, hpt, hsy, hburnt⟩ := withdraw_spec hlp h
  exact ⟨share_le_share hlp hlp' (share_le_sub hpt hburnt hptOut),
    share_le_share hlp hlp' (share_le_sub hsy hburnt hsyOut)⟩

/-! ## Every sequence of operations -/

theorem positive_step {op : PoolOp} (hp : p.Positive) (hkeep : p.KeepsSupply op)
    (h : p.step op = .ok p') : p'.Positive := by
  have hlp' : 0 < p'.lpSupply.toNat := by
    rw [KeepsSupply, Machine.next_of_ok h] at hkeep
    exact hkeep
  cases op with
  | deposit ptIntent syIntent =>
    simp only [step, bind_eq_ok, Except.ok.injEq] at h
    obtain ⟨⟨p₁, r⟩, hdep, rfl⟩ := h
    exact hp.spared (deposit_undiluted hp p₁ r hdep).1 hlp'
  | withdraw lpIn =>
    simp only [step, bind_eq_ok, Except.ok.injEq] at h
    obtain ⟨⟨p₁, r⟩, hwd, rfl⟩ := h
    exact hp.spared (withdraw_spares hp.lp hlp' hwd) hlp'

theorem undiluted_of_keepsSupply {op : PoolOp} (hp : p.Positive) (hkeep : p.KeepsSupply op) :
    p.Undiluted op := by
  cases op with
  | deposit ptIntent syIntent => exact deposit_undiluted hp
  | withdraw lpIn =>
    intro p' r h
    have hstep : p.step (.withdraw lpIn) = .ok p' := by
      simp only [step, h, ok_bind]
    rw [KeepsSupply, Machine.next_of_ok hstep] at hkeep
    exact withdraw_spares hp.lp hkeep h

/-- **Liquidity operations never dilute LPs**, in any sequence that leaves LP tokens. -/
theorem undiluted (p : LiquidityPool (Exact K)) (ops : List PoolOp) (hp : p.Positive)
    (hkeep : Machine.Admits step KeepsSupply p ops) : Machine.Admits step Undiluted p ops :=
  (hkeep.with_invariant (fun _ _ _ hp hkeep h => positive_step hp hkeep h) hp).mono
    fun _ _ h => undiluted_of_keepsSupply h.1 h.2

end

/-- A pool with an odd price. -/
def oddPool : LiquidityPool (Exact ℚ) where
  financials :=
    { expirationTs := 1000, ptBalance := 1003, syBalance := 2019, lnFeeRateRoot := .num 0,
      lastLnImpliedRate := .num 0, rateScalarRoot := .num 1 }
  lpSupply := 1409

def depositAndWithdraw : List PoolOp :=
  [.deposit 77 91, .withdraw 13, .deposit 5 1000, .deposit 0 10, .withdraw 1400]

theorem undiluted_depositAndWithdraw :
    Machine.Admits step Undiluted oddPool depositAndWithdraw :=
  undiluted oddPool depositAndWithdraw ⟨by decide, by decide, by decide⟩ (by decide +kernel)

end LiquidityPool

end ExponentCore
