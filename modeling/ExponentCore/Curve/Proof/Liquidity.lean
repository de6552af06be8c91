import ExponentCore.Curve.Math

/-!
# Liquidity in exact arithmetic

What `addLiquidity` and `rmLiquidity` return for a pool with positive totals. A deposit is charged
at least its share of each total (`addLiquidity_share`) and at most its intent
(`addLiquidity_le_intent`); a withdrawal is paid at most its share (`rmLiquidity_share`).

The amount of the second token of a deposit is rounded up from a fractional number of LP tokens by
adding `(L - 1) / L`, which is not a ceiling. It is enough that it reaches the ceiling for the whole
LP tokens that are issued (`roundUp_share`).
-/

set_option autoImplicit false

namespace ExponentCore

namespace TimeCurve

section
variable {K : Type} [Field K] [LinearOrder K] [IsStrictOrderedRing K]
variable {total supply intent : UInt64} {x : K} {m : Nat}

/-! ## Rounding up a share -/

/-- The amount of a token that is charged for `x` LP tokens, before it is rounded down. -/
theorem charge_lt (hsupply : 0 < supply.toNat)
    (hx : total.toNat * x ≤ supply.toNat * intent.toNat) :
    (total.toNat * x + supply.toNat - 1) / (supply.toNat : K) < intent.toNat + 1 := by
  rw [div_lt_iff₀ (Nat.cast_pos.2 hsupply)]
  linarith

theorem le_charge (hsupply : 0 < supply.toNat) (hm : (m : K) ≤ x) :
    (((total.toNat * m + supply.toNat - 1) / supply.toNat : Nat) : K)
      ≤ (total.toNat * x + supply.toNat - 1) / (supply.toNat : K) := by
  rw [le_div_iff₀ (Nat.cast_pos.2 hsupply)]
  have hdiv := Nat.div_mul_le_self (total.toNat * m + supply.toNat - 1) supply.toNat
  have hc : (total.toNat * m + supply.toNat - 1) / supply.toNat * supply.toNat + 1
      ≤ total.toNat * m + supply.toNat := by omega
  have hcK : (((total.toNat * m + supply.toNat - 1) / supply.toNat * supply.toNat + 1 : Nat) : K)
      ≤ ((total.toNat * m + supply.toNat : Nat) : K) := Nat.cast_le.2 hc
  rw [Nat.cast_add, Nat.cast_mul, Nat.cast_one, Nat.cast_add, Nat.cast_mul] at hcK
  have htotal : (total.toNat : K) * m ≤ total.toNat * x :=
    mul_le_mul_of_nonneg_left hm (Nat.cast_nonneg _)
  linarith

/-- The token that is taken whole. -/
theorem whole_share (htotal : 0 < total.toNat) (hx : x = supply.toNat * intent.toNat / total.toNat)
    (hm : (m : K) ≤ x) : total.toNat * m ≤ intent.toNat * supply.toNat := by
  have htotalK : (0 : K) < total.toNat := Nat.cast_pos.2 htotal
  rw [hx, le_div_iff₀ htotalK] at hm
  have : ((total.toNat * m : Nat) : K) ≤ ((intent.toNat * supply.toNat : Nat) : K) := by
    push_cast
    linarith
  exact_mod_cast this

end

end TimeCurve

variable {K : Type} [Field K] [LinearOrder K] [FloorRing K] [LnExp K]

namespace TimeCurve

open Exact

variable [IsStrictOrderedRing K] {total supply intent : UInt64} {x : K} {m : Nat}

/-- The amount charged for a fractional number `x` of LP tokens covers the whole ones, and is at
most an intent that covers them all. -/
theorem roundUp_share {charged : UInt64} (hsupply : 0 < supply.toNat) (hm : (m : K) ≤ x)
    (hx : total.toNat * x ≤ supply.toNat * intent.toNat)
    (hcharged : charged =
      Num.toU64 (num ((total.toNat * x + supply.toNat - 1) / (supply.toNat : K)))) :
    total.toNat * m ≤ charged.toNat * supply.toNat ∧ charged.toNat ≤ intent.toNat := by
  have hlt := charge_lt hsupply hx
  have hle : (((total.toNat * m + supply.toNat - 1) / supply.toNat : Nat) : K) ≤ _ :=
    le_charge hsupply hm
  have hceil : (total.toNat * m + supply.toNat - 1) / supply.toNat ≤ charged.toNat := by
    rw [hcharged]
    refine le_toU64 hle (n := intent) (Nat.lt_succ_iff.1 ?_)
    exact_mod_cast hle.trans_lt hlt
  constructor
  · refine le_trans ?_ (Nat.mul_le_mul_right _ hceil)
    have h := Nat.lt_div_mul_add hsupply (a := total.toNat * m + supply.toNat - 1)
    omega
  · refine Nat.lt_succ_iff.1 ?_
    have hnonneg := (Nat.cast_nonneg _).trans hle
    have := (toU64_le hnonneg).trans_lt hlt
    rw [← hcharged] at this
    exact_mod_cast this

/-! ## Deposits -/

/-- What a deposit gives for a pool with the totals `lp`, `sy` and `pt`. -/
structure FairDeposit (intentSy intentPt lp sy pt : UInt64) (r : AddLiquidityResult) : Prop where
  pt_share : pt.toNat * r.lpTokensOut.toNat ≤ r.ptIn.toNat * lp.toNat
  sy_share : sy.toNat * r.lpTokensOut.toNat ≤ r.syIn.toNat * lp.toNat
  pt_le_intent : r.ptIn.toNat ≤ intentPt.toNat
  sy_le_intent : r.syIn.toNat ≤ intentSy.toNat

variable {intentSy intentPt lp sy pt lpIn : UInt64}

theorem addLiquidity_fair (hlp : 0 < lp.toNat) (hsy : 0 < sy.toNat) (hpt : 0 < pt.toNat) :
    FairDeposit intentSy intentPt lp sy pt
      (addLiquidity (Exact K) intentSy intentPt lp sy pt) := by
  have hlpK : (lp.toNat : K) ≠ 0 := (Nat.cast_pos.2 hlp).ne'
  have hsyK : (0 : K) < sy.toNat := Nat.cast_pos.2 hsy
  have hptK : (0 : K) < pt.toNat := Nat.cast_pos.2 hpt
  simp only [addLiquidity, fromU64_eq, one_eq, num_mul_num, num_div_num hsyK.ne',
    num_div_num hptK.ne', num_add_num, num_sub_num, num_div_num hlpK, num_lt_num, toU64_natCast]
  split
  · rename_i hlt
    have hx : (0 : K) ≤ lp.toNat * intentPt.toNat / pt.toNat := by positivity
    have hcover : (sy.toNat : K) * (lp.toNat * intentPt.toNat / pt.toNat)
        ≤ lp.toNat * intentSy.toNat := by
      rw [mul_comm, ← le_div_iff₀ hsyK]
      exact hlt.le
    obtain ⟨hshare, hle⟩ := roundUp_share hlp (toU64_le hx) hcover rfl
    exact ⟨whole_share hpt rfl (toU64_le hx), hshare, le_rfl, hle⟩
  · rename_i hle
    have hx : (0 : K) ≤ lp.toNat * intentSy.toNat / sy.toNat := by positivity
    have hcover : (pt.toNat : K) * (lp.toNat * intentSy.toNat / sy.toNat)
        ≤ lp.toNat * intentPt.toNat := by
      rw [mul_comm, ← le_div_iff₀ hptK]
      exact not_lt.1 hle
    obtain ⟨hshare, hle⟩ := roundUp_share hlp (toU64_le hx) hcover rfl
    exact ⟨hshare, whole_share hsy rfl (toU64_le hx), hle, le_rfl⟩

/-! ## Withdrawals -/

/-- What a withdrawal pays of one token. -/
theorem rm_share (hlp : 0 < lp.toNat) :
    (Num.toU64 (num ((total.toNat : K) * lpIn.toNat / lp.toNat))).toNat * lp.toNat
      ≤ total.toNat * lpIn.toNat := by
  have hlpK : (0 : K) < lp.toNat := Nat.cast_pos.2 hlp
  have hx : (0 : K) ≤ (total.toNat : K) * lpIn.toNat / lp.toNat := by positivity
  have h := toU64_le hx
  rw [le_div_iff₀ hlpK] at h
  exact_mod_cast h

theorem rmLiquidity_eq_ok {r : RemoveLiquidityResult} (hlp : 0 < lp.toNat) :
    rmLiquidity (Exact K) lpIn lp sy pt = .ok r ↔
      lpIn ≤ lp ∧
        r = { syOut := Num.toU64 (num ((sy.toNat : K) * lpIn.toNat / lp.toNat))
              ptOut := Num.toU64 (num ((pt.toNat : K) * lpIn.toNat / lp.toNat)) } := by
  have hlpK : (lp.toNat : K) ≠ 0 := (Nat.cast_pos.2 hlp).ne'
  simp only [rmLiquidity, fromU64_eq, num_mul_num, num_div_num hlpK, bind_eq_ok, assertTrue_eq_ok,
    Except.ok.injEq, exists_const]
  exact and_congr_right fun _ => eq_comm

end TimeCurve

end ExponentCore
