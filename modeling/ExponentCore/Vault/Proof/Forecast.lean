import ExponentCore.Num.Proof.Aborts
import ExponentCore.Vault.Proof.Handlers

/-!
# What an operation comes to, from the state before it

The handlers of the vault compute one value from another: the treasury's share from the escrow, the
backing from what that leaves, the interest from the rates that the update has just written. Here
each of these is a formula in the balances, the counters and the rates that an operation finds, and
in the report that it is given: `Vault.activeSyAt`, `Vault.backingAt` and `Vault.payoutAt` for an
update, `YieldTokenPosition.interestAt` for a staging. What keeps a vault solvent, and a merge fair,
is then said without running the operation.
-/

set_option autoImplicit false

namespace ExponentCore

open Number

variable {v v' v₁ v₂ v₃ : Vault} {p p' p₁ u u₁ : YieldTokenPosition} {now : UInt32}
  {syState : SyState} {a n m y : UInt64} {r s : Number}

/-! ## The treasury's share -/

/-- What the treasury takes of `y` when the rate rises from `r` to `s`: the part `(s - r) / s` of it,
rounded down. -/
def appreciation (y : UInt64) (r s : Number) : Nat :=
  if product (s.raw - r.raw) y * denom < 2 ^ 256 then product (s.raw - r.raw) y / s.raw
  else (product (s.raw - r.raw) y + roundingCorrection) / s.raw

theorem quotient_floor : quotient r s / denom
    = if r.raw * denom < 2 ^ 256 then r.raw / s.raw else (r.raw + roundingCorrection) / s.raw := by
  unfold quotient
  split
  · rw [Nat.div_div_eq_div_mul, Nat.mul_comm s.raw, ← Nat.div_div_eq_div_mul, round_mul_denom]
  · exact Nat.mul_div_cancel _ denom_pos

theorem calcSyAppreciation_toNat (h : calcSyAppreciation r s y = .ok n) :
    n.toNat = appreciation y r s := by
  unfold calcSyAppreciation at h
  unfold appreciation
  split at h
  · rename_i hle
    cases h
    have hzero : product 0 y = 0 := Nat.le_zero.1 ((product_le 0).trans_eq (Nat.zero_mul _))
    rw [Nat.sub_eq_zero_of_le (le_def.1 hle), hzero, Nat.zero_mul, if_pos (by decide),
      Nat.zero_div, UInt64.toNat_zero]
  · simp only [bind_eq_ok, sub_eq_ok, mul_natural_eq_ok, div_eq_ok, floorU64_eq_ok] at h
    obtain ⟨d, hd, e, he, q, ⟨-, -, hq⟩, hn⟩ := h
    have hraw : d.raw = s.raw - r.raw := by omega
    rw [hn, hq, quotient_floor, he, hraw]

theorem appreciation_of_fits (h : (s.raw - r.raw) * y.toNat * denom < 2 ^ 256) :
    appreciation y r s = (s.raw - r.raw) * y.toNat / s.raw := by
  rw [appreciation, product, if_pos h, if_pos h]

/-! ## The update -/

namespace Vault

/-- The final rate that an update leaves, if it goes through. -/
def finalRateAt (v : Vault) (syState : SyState) (now : UInt32) : Number :=
  if v.isActive now = .ok true then syState.exchangeRate else v.finalSyExchangeRate

/-- The SY that the treasury takes in an update: after maturity, beyond the all-time high. -/
def treasuryShareAt (v : Vault) (syState : SyState) (now : UInt32) : Nat :=
  if v.maturity < now.toNat ∧ v.allTimeHighSyExchangeRate < syState.exchangeRate then
    appreciation v.activeSy v.lastSeenSyExchangeRate syState.exchangeRate
  else 0

/-- The active SY that an update leaves. -/
def activeSyAt (v : Vault) (syState : SyState) (now : UInt32) : Nat :=
  v.totalSyInEscrow.toNat - v.treasurySy.toNat - v.uncollectedSy.toNat
    - v.treasuryShareAt syState now

/-- The backing of the PT that an update leaves. -/
def backingAt (v : Vault) (syState : SyState) (now : UInt32) : Nat :=
  min (ptValue v.ptSupply syState.exchangeRate) (v.activeSyAt syState now)

/-- The SY that an amount of PT redeems after an update. -/
def payoutAt (v : Vault) (syState : SyState) (now : UInt32) (amountPy : UInt64) : Nat :=
  amountPy.toNat * (v.backingAt syState now * denom / v.ptSupply.toNat) / denom

theorem finalRate_of_ok (h : v.updateFromSyState syState now = .ok v') :
    v'.finalSyExchangeRate = v.finalRateAt syState now := by
  unfold finalRateAt
  rcases (updated_of_ok h).final with ⟨ha, hf⟩ | ⟨ha, hf⟩
  · rw [if_pos ha, hf]
  · rw [if_neg (by rw [ha]; decide), hf]

/-- PT redeems at most the whole backing. -/
theorem payoutAt_le (ha : a.toNat ≤ v.ptSupply.toNat) :
    v.payoutAt syState now a ≤ v.activeSyAt syState now := by
  have hpaid : v.payoutAt syState now a ≤ v.backingAt syState now := by
    refine Nat.div_le_of_le_mul ?_
    calc a.toNat * (v.backingAt syState now * denom / v.ptSupply.toNat)
        ≤ v.ptSupply.toNat * (v.backingAt syState now * denom / v.ptSupply.toNat) :=
          Nat.mul_le_mul_right _ ha
      _ ≤ v.backingAt syState now * denom := Nat.mul_div_le _ _
      _ = denom * v.backingAt syState now := Nat.mul_comm _ _
  exact hpaid.trans (min_le_right _ _)

section
variable (hu : v.Updated syState now v')
include hu

theorem Updated.treasury_eq :
    v'.treasurySy.toNat = v.treasurySy.toNat + v.treasuryShareAt syState now := by
  obtain ⟨n, hskim, ht⟩ := hu.skim
  rw [ht, treasuryShareAt]
  congr 1
  rcases hskim with ⟨hc, hn⟩ | ⟨hc, rfl⟩
  · simp only [canCollectSyLambo, bind_eq_ok, isExpired_eq_ok, Except.ok.injEq,
      Bool.and_eq_true, decide_eq_true_eq] at hc
    obtain ⟨b, ⟨-, rfl⟩, hexp, hath⟩ := hc
    rw [if_pos ⟨by simpa using hexp, hath⟩]
    exact calcSyAppreciation_toNat hn
  · simp only [canCollectSyLambo, bind_eq_ok, isExpired_eq_ok, Except.ok.injEq,
      Bool.and_eq_false_iff, decide_eq_false_iff_not] at hc
    obtain ⟨b, ⟨-, rfl⟩, hc⟩ := hc
    rw [if_neg, UInt64.toNat_zero]
    rintro ⟨hexp, hath⟩
    simp [hexp, hath] at hc

theorem Updated.activeSy_eq : v'.activeSy.toNat = v.activeSyAt syState now := by
  rw [Vault.activeSy_toNat, hu.escrow, hu.uncollected, hu.treasury_eq, activeSyAt]
  omega

theorem Updated.syForPt_eq : v'.syForPt.toNat = v.backingAt syState now := by
  rw [hu.backing, hu.activeSy_eq, backingAt]

end

end Vault

/-! ## Staging -/

/-- What YT earns while the rate rises from `r` to `s`, as `calc_earned_sy` computes it. -/
def earnedSy (y : UInt64) (r s : Number) : Nat :=
  if s ≤ r ∨ r = 0 then 0 else (reciprocal r - reciprocal s) * y.toNat / denom

theorem calcEarnedSy_eq_ok : calcEarnedSy y r s = .ok n ↔ n.toNat = earnedSy y r s := by
  unfold calcEarnedSy earnedSy
  by_cases h0 : s ≤ r ∨ r = 0
  · have hzero : s ≤ r ∨ y = 0 ∨ r = 0 := h0.elim .inl fun h => .inr (.inr h)
    rw [if_pos hzero, if_pos h0, Except.ok.injEq, ← UInt64.toNat_inj, UInt64.toNat_zero]
    exact eq_comm
  rw [if_neg h0]
  rw [not_or, not_le] at h0
  obtain ⟨hlt, hr⟩ := h0
  have hpos : 0 < r := pos_iff.2 (Nat.pos_of_ne_zero fun h => hr (eq_zero_iff.2 h))
  have hanti := reciprocal_anti hpos hlt.le
  have hfits : ∀ c : Number, reciprocal c < 2 ^ 256 := fun c =>
    (Nat.div_le_self _ _).trans_lt (by decide)
  obtain ⟨b, hb⟩ := exists_raw.2 (hfits r)
  obtain ⟨c, hc⟩ := exists_raw.2 (hfits s)
  obtain ⟨d, hd⟩ := exists_raw.2 ((Nat.sub_le (reciprocal r) (reciprocal s)).trans_lt (hfits r))
  split
  · rename_i hy
    obtain rfl : y = 0 := hy.resolve_left (not_le.2 hlt) |>.resolve_right hr
    rw [UInt64.toNat_zero, Nat.mul_zero, Nat.zero_div, Except.ok.injEq, ← UInt64.toNat_inj,
      UInt64.toNat_zero]
    exact eq_comm
  · have hdiv : div 1 r = .ok b := one_div_eq_ok.2 ⟨fun h => hr (eq_zero_iff.2 h), hb⟩
    have hdiv' : div 1 s = .ok c :=
      one_div_eq_ok.2 ⟨((Nat.zero_le _).trans_lt (lt_def.1 hlt)).ne', hc⟩
    have hsub : b.sub c = .ok d := sub_eq_ok.2 (by omega)
    rw [hdiv, ok_bind, hdiv', ok_bind, hsub, ok_bind, mul_natural_floor, hd]

/-- An amount at the final rate, in SY at the current one, as `scale_sy_to_current_rate` computes
it. -/
def scaledSy (k : Nat) (r s : Number) : Nat :=
  if s ≤ r then k else quotient r s * k / denom

theorem scaleSyToCurrentRate_eq_ok :
    scaleSyToCurrentRate m r s = .ok n ↔
      (r < s → r.raw + roundingCorrection < 2 ^ 256) ∧ n.toNat = scaledSy m.toNat r s := by
  unfold scaleSyToCurrentRate scaledSy
  split
  · rename_i hle
    rw [Except.ok.injEq, ← UInt64.toNat_inj]
    exact ⟨fun h => ⟨fun hlt => absurd hle (not_le.2 hlt), h.symm⟩, fun h => h.2.symm⟩
  · rename_i hlt
    have hlt := not_le.1 hlt
    have hs : s.raw ≠ 0 := ((Nat.zero_le _).trans_lt (lt_def.1 hlt)).ne'
    rw [bind_eq_ok]
    simp only [mul_natural_floor, div_eq_ok]
    constructor
    · rintro ⟨q, ⟨-, hfit, hq⟩, hn⟩
      exact ⟨fun _ => hfit, by rw [hn, hq]⟩
    · rintro ⟨hfit, hn⟩
      obtain ⟨q, hq⟩ := exists_raw.2 ((quotient_le_denom hlt).trans_lt (by decide))
      exact ⟨q, ⟨hs, hfit hlt, hq⟩, by rw [hn, hq]⟩

namespace YieldTokenPosition

/-- The interest that staging credits at a final rate, a current rate and an all-time high: nothing
below the all-time high. -/
def interestAt (p : YieldTokenPosition) (final current allTimeHigh : Number) : Nat :=
  if allTimeHigh ≤ current then
    scaledSy (earnedSy p.ytBalance p.interest.lastSeenIndex final) final current
  else 0

theorem interestDue_eq_ok :
    p.interestDue v = .ok n ↔
      earnedSy p.ytBalance p.interest.lastSeenIndex v.finalSyExchangeRate < 2 ^ 64 ∧
      (v.finalSyExchangeRate < v.lastSeenSyExchangeRate →
        v.finalSyExchangeRate.raw + roundingCorrection < 2 ^ 256) ∧
      n.toNat = scaledSy (earnedSy p.ytBalance p.interest.lastSeenIndex v.finalSyExchangeRate)
        v.finalSyExchangeRate v.lastSeenSyExchangeRate := by
  simp only [interestDue, bind_eq_ok, calcEarnedSy_eq_ok, scaleSyToCurrentRate_eq_ok]
  constructor
  · rintro ⟨m, hm, hfit, hn⟩
    rw [← hm]
    exact ⟨m.toNat_lt, hfit, hn⟩
  · rintro ⟨hlt, hfit, hn⟩
    obtain ⟨m, hm⟩ := exists_toNat.2 hlt
    exact ⟨m, hm, hfit, by rw [hn, hm]⟩

/-- **A staging credits the interest of its rates**, and nothing in an emergency. -/
theorem credit_eq_ok :
    p.credit v = .ok n ↔
      (v.allTimeHighSyExchangeRate ≤ v.lastSeenSyExchangeRate →
        earnedSy p.ytBalance p.interest.lastSeenIndex v.finalSyExchangeRate < 2 ^ 64 ∧
        (v.finalSyExchangeRate < v.lastSeenSyExchangeRate →
          v.finalSyExchangeRate.raw + roundingCorrection < 2 ^ 256)) ∧
      n.toNat = p.interestAt v.finalSyExchangeRate v.lastSeenSyExchangeRate
        v.allTimeHighSyExchangeRate := by
  unfold credit interestAt
  by_cases hcalm : v.allTimeHighSyExchangeRate ≤ v.lastSeenSyExchangeRate
  · rw [if_neg (by simpa [Vault.isInEmergencyMode] using hcalm), if_pos hcalm, interestDue_eq_ok]
    exact ⟨fun h => ⟨fun _ => ⟨h.1, h.2.1⟩, h.2.2⟩, fun h => ⟨(h.1 hcalm).1, (h.1 hcalm).2, h.2⟩⟩
  · rw [if_pos (by simpa [Vault.isInEmergencyMode] using hcalm), if_neg hcalm, Except.ok.injEq,
      ← UInt64.toNat_inj, UInt64.toNat_zero]
    exact ⟨fun h => ⟨fun h' => absurd h' hcalm, h.symm⟩, fun h => h.2.symm⟩

/-- The emergency is decided by the all-time high before an update as well as by that after it. -/
theorem interestAt_max {final current high : Number} :
    p.interestAt final current (max current high) = p.interestAt final current high := by
  have hle : max current high ≤ current ↔ high ≤ current := by simp
  simp only [interestAt, hle]

end YieldTokenPosition

/-- A staging counts its interest as uncollected and changes nothing else in the vault. -/
theorem Earned.interest (h : Earned v p v' p') :
    v'.uncollectedSy.toNat = v.uncollectedSy.toNat
        + p.interestAt v.finalSyExchangeRate v.lastSeenSyExchangeRate v.allTimeHighSyExchangeRate ∧
      v' = { v with uncollectedSy := v'.uncollectedSy } := by
  obtain ⟨c, t, hc, -, ht, rfl⟩ := h.credit
  exact ⟨by rw [ht, (YieldTokenPosition.credit_eq_ok.1 hc).2], rfl⟩

namespace VaultWorld

/-- The interest that an operation stages for a position, after it has recorded a report. -/
def interestAt (w : VaultWorld) (now : UInt32) (syState : SyState) (p : YieldTokenPosition) : Nat :=
  p.interestAt (w.vault.finalRateAt syState now) syState.exchangeRate
    w.vault.allTimeHighSyExchangeRate

section
variable {w : VaultWorld} (hr : Refreshed w.vault w.yieldPosition now syState v₁ v₂ p₁)
include hr

/-- A merge pays what the update leaves behind its PT. -/
theorem payout_of_burned {x : UInt64} (hb : Burned v₂ p₁ now a x v' p') :
    x.toNat = w.vault.payoutAt syState now a := by
  have hv₂ := hr.earned.interest.2
  have hpt : v₂.ptSupply = w.vault.ptSupply := by rw [hv₂, ← hr.updated.ptSupply]
  have hsp : v₂.syForPt.toNat = w.vault.backingAt syState now := by
    rw [hv₂, ← hr.updated.syForPt_eq]
  rw [hb.price, hpt, hsp, Vault.payoutAt]

/-- The rates by which an operation stages are those of the update. -/
theorem interestAt_of_refreshed :
    p.interestAt v₁.finalSyExchangeRate v₁.lastSeenSyExchangeRate v₁.allTimeHighSyExchangeRate
      = w.interestAt now syState p := by
  rw [Vault.finalRate_of_ok hr.update, hr.updated.lastSeen, hr.updated.allTimeHigh,
    YieldTokenPosition.interestAt_max, interestAt]

theorem uncollectedSy_of_refreshed :
    v₂.uncollectedSy.toNat
      = w.vault.uncollectedSy.toNat + w.interestAt now syState w.yieldPosition := by
  rw [hr.earned.interest.1, hr.updated.uncollected, interestAt_of_refreshed hr]

theorem uncollectedSy_of_earned (hu : u.earnAllWithTracking v₂ = .ok (v₃, u₁)) :
    v₃.uncollectedSy.toNat = w.vault.uncollectedSy.toNat
      + w.interestAt now syState w.yieldPosition + w.interestAt now syState u := by
  have hv₂ := hr.earned.interest.2
  rw [(earned_of_ok hu).interest.1, uncollectedSy_of_refreshed hr,
    ← interestAt_of_refreshed (p := u) hr, hv₂]

end

end VaultWorld

end ExponentCore
