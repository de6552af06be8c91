import ExponentCore.Curve.Math

/-!
# Trades in exact arithmetic

Where the PT of a market are to its asset as `q` to one, the curve's exchange rate is
`rateAt s anchor q`. It grows with `q` (`rateAt_mono`), a trade pays or is paid its PT at the rate
of the balances it leads to, less a fee (`trade_spec`), and the anchor that is solved for after a
trade at the same time is the one the trade was made with (`anchor_stable`).
-/

set_option autoImplicit false

namespace ExponentCore

namespace TimeCurve

open Exact

variable {K : Type} [Field K] [LinearOrder K] [LnExp K]

/-- The exchange rate for the asset where there are `q` PT for one asset. -/
def rateAt (s anchor q : K) : K := LnExp.ln q / s + anchor

theorem rateAt_mono [IsStrictOrderedRing K] {s anchor q q' : K} (hs : 0 < s) (hq : 0 < q)
    (h : q ≤ q') : rateAt s anchor q ≤ rateAt s anchor q' := by
  rcases h.eq_or_lt with rfl | hlt
  · exact le_rfl
  · have := LnExp.ln_lt_ln q q' hq hlt
    exact add_le_add_left (div_le_div_of_nonneg_right this.le hs.le) anchor

variable [FloorRing K]

section
variable {s anchor q l a t e : K} {x y z : Exact K} {pt asset sec : UInt64}

theorem exchangeRate_eq_num :
    exchangeRate x y z = num e ↔
      ∃ l s anchor, x = num l ∧ y = num s ∧ z = num anchor ∧ s ≠ 0 ∧ l / s + anchor = e := by
  simp only [exchangeRate, add_eq_num, div_eq_num]
  constructor
  · rintro ⟨_, anchor, ⟨l, s, rfl, rfl, hs, rfl⟩, rfl, rfl⟩
    exact ⟨l, s, anchor, rfl, rfl, rfl, hs, rfl⟩
  · rintro ⟨l, s, anchor, rfl, rfl, rfl, hs, rfl⟩
    exact ⟨l / s, anchor, ⟨l, s, rfl, rfl, hs, rfl⟩, rfl, rfl⟩

/-- The logit of a share is the logarithm of the odds. -/
theorem logit_share (h : logit (num a / num t) = num l) :
    0 < a / (t - a) ∧ LnExp.ln (a / (t - a)) = l := by
  simp only [logit, ln_eq_num, div_eq_num, num.injEq, one_eq] at h
  obtain ⟨q, ⟨p, d, ⟨_, _, rfl, rfl, ht, rfl⟩, hd, hd₀, rfl⟩, hq, rfl⟩ := h
  rw [num_div_num ht, num_sub_num, num.injEq] at hd
  have hodds : a / t / d = a / (t - a) := by
    rw [← hd, one_sub_div ht, div_div_div_cancel_right₀ ht]
  rw [← hodds]
  exact ⟨hq, rfl⟩

end

variable [IsStrictOrderedRing K]

section
variable {s anchor anchor' pre n : K} {f feeRate x : Exact K} {pt asset sec : UInt64}

theorem normalizedSecRemaining_pos (hsec : sec ≠ 0) :
    ∃ v : K, normalizedSecRemaining sec = num v ∧ 0 < v := by
  have hyear : yearSec ≠ 0 := by decide
  refine ⟨_, fromRatio_eq hyear, div_pos ?_ ?_⟩
  · exact Nat.cast_pos.2 (Nat.pos_of_ne_zero fun h => hsec (UInt64.toNat_inj.1 h))
  · exact Nat.cast_pos.2 (by decide)

/-- The anchor solved for from the yield that a trade stored is the anchor of that trade. -/
theorem anchor_stable (hsec : sec ≠ 0)
    (h : findRateAnchor pt asset (num s)
      (lnImpliedRate pt asset (num s) (num anchor) sec) sec = num anchor') :
    anchor' = anchor := by
  obtain ⟨v, hv, hpos⟩ := normalizedSecRemaining_pos (K := K) hsec
  simp only [findRateAnchor, exchangeRateFromLnImpliedRate, lnImpliedRate, hv, sub_eq_num,
    exp_eq_num, mul_eq_num, div_eq_num, ln_eq_num, exchangeRate_eq_num, num.injEq] at h
  obtain ⟨_, _, ⟨_, ⟨_, _, ⟨_, _, ⟨rate, ⟨l, _, _, hl, rfl, rfl, -, rfl⟩, hrate, rfl⟩, rfl, hv₀,
    rfl⟩, rfl, rfl⟩, rfl⟩, ⟨l', _, hl', rfl, -, rfl⟩, rfl⟩ := h
  obtain rfl : l = l' := num.inj (hl.symm.trans hl')
  rw [div_mul_cancel₀ _ hv₀, LnExp.exp_ln _ hrate, add_sub_cancel_left]

theorem assetFee_spec (h : assetFee (num pre) feeRate = .ok f) :
    ∃ fee : K, f = num fee ∧ 0 ≤ fee := by
  simp only [assetFee, bind_eq_ok, assertTrue_eq_ok, one_eq, le_iff, num.injEq] at h
  obtain ⟨-, ⟨_, r, rfl, rfl, hr⟩, h⟩ := h
  have hgrowth : 0 ≤ r - 1 := sub_nonneg.2 hr
  split at h
  · rename_i hpre
    have hpre' : 0 < pre := hpre
    exact ⟨pre * (r - 1), (Except.ok.inj h).symm, mul_nonneg hpre'.le hgrowth⟩
  · rename_i hpre
    have hpre' : ¬ 0 < pre := hpre
    have hr₀ : 0 < r := one_pos.trans_le hr
    refine ⟨-pre * (r - 1) / r, ?_, ?_⟩
    · rw [← Except.ok.inj h, neg_num, num_sub_num, num_mul_num, num_div_num hr₀.ne']
    · exact div_nonneg (mul_nonneg (neg_nonneg.2 (not_lt.1 hpre')) hgrowth) hr₀.le

/-- A trade outside a flash swap, of `n` PT for the trader. The rate is that of the PT and the asset
that would be left if a PT were worth one asset. -/
structure Priced (pt asset n s anchor : K) (r : TradeResult (Exact K)) (rate fee : K) : Prop where
  odds_pos : 0 < (pt - n) / (asset + n)
  rate_eq : rate = rateAt s anchor ((pt - n) / (asset + n))
  one_lt_rate : 1 < rate
  fee_nonneg : 0 ≤ fee
  net : r.netTraderAsset = num (-n / rate - fee)
  assetFee : r.assetFee = num fee

theorem trade_spec {r : TradeResult (Exact K)}
    (h : trade pt asset (num s) x feeRate (num n) false = .ok r) :
    ∃ anchor rate fee,
      x = num anchor ∧ Priced (pt.toNat : K) (asset.toNat : K) n s anchor r rate fee := by
  simp only [trade, bind_eq_ok, assertTrue_eq_ok, Except.ok.injEq] at h
  obtain ⟨-, -, -, hrate, f, hf, rfl⟩ := h
  simp only [fromU64_eq, num_sub_num, num_add_num] at hrate hf ⊢
  obtain ⟨_, rate, hone, her, hlt⟩ := lt_iff.1 hrate
  obtain rfl := num.inj hone
  rw [her] at hf ⊢
  have hrate₀ : rate ≠ 0 := (one_pos.trans hlt).ne'
  simp only [Bool.false_eq_true, if_false, neg_num, num_div_num hrate₀] at hf ⊢
  obtain ⟨fee, rfl, hfee⟩ := assetFee_spec hf
  obtain ⟨l, s', anchor, hl, hs, rfl, -, hcurve⟩ := exchangeRate_eq_num.1 her
  obtain rfl := num.inj hs
  obtain ⟨hodds, rfl⟩ := logit_share hl
  have hrest : (pt.toNat : K) + asset.toNat - (pt.toNat - n) = asset.toNat + n := by ring
  rw [hrest] at hodds hcurve
  exact ⟨anchor, rate, fee, rfl, hodds, hcurve.symm, hlt, hfee, num_sub_num, rfl⟩

/-- A trade of `n` PT, in a flash swap or not, at a rate and with a fee that is not negative. -/
theorem trade_fee {r : TradeResult (Exact K)} {y : Exact K} {flash : Bool}
    (h : trade pt asset y x feeRate (num n) flash = .ok r) :
    ∃ rate fee, 1 < rate ∧ 0 ≤ fee ∧ r.netTraderAsset = num (-n / rate - fee) ∧
      r.assetFee = num fee := by
  simp only [trade, bind_eq_ok, assertTrue_eq_ok, Except.ok.injEq] at h
  obtain ⟨-, -, -, hrate, f, hf, rfl⟩ := h
  obtain ⟨_, rate, hone, her, hlt⟩ := lt_iff.1 hrate
  obtain rfl := num.inj hone
  rw [her] at hf ⊢
  have hrate₀ : rate ≠ 0 := (one_pos.trans hlt).ne'
  obtain ⟨fee, rfl, hfee⟩ : ∃ fee : K, f = num fee ∧ 0 ≤ fee := by
    cases flash with
    | true =>
      simp only [if_true, one_eq, num_div_num hrate₀, num_sub_num, abs_num, num_mul_num] at hf
      exact assetFee_spec hf
    | false =>
      simp only [Bool.false_eq_true, if_false, neg_num, num_div_num hrate₀] at hf
      exact assetFee_spec hf
  exact ⟨rate, fee, hlt, hfee, by simp only [neg_num, num_div_num hrate₀, num_sub_num], rfl⟩

end

end TimeCurve

end ExponentCore
