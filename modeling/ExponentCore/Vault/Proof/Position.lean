import ExponentCore.Vault.Proof.State
import ExponentCore.Vault.Handlers

/-!
# What staging does to a position

`Earned v p v' p'` is the effect of `earnAllWithTracking`: the position and the vault's
`uncollectedSy` grow by the same credit, the index of the position moves to the final rate, and the
trackers are paid on the balance after that credit. The credit is at most what the reciprocals of
the two rates allow (`interestDue_le`).
-/

set_option autoImplicit false

namespace ExponentCore

open Number

variable {v v' : Vault} {p p' : YieldTokenPosition} {n m y : UInt64} {r s : Number}

/-! ## Interest -/

theorem calcEarnedSy_of_le (h : s ≤ r) (hn : calcEarnedSy y r s = .ok n) : n = 0 := by
  unfold calcEarnedSy at hn
  rw [if_pos (.inl h)] at hn
  exact (Except.ok.inj hn).symm

theorem calcEarnedSy_zero_balance (hn : calcEarnedSy 0 r s = .ok n) : n = 0 := by
  unfold calcEarnedSy at hn
  rw [if_pos (.inr (.inl rfl))] at hn
  exact (Except.ok.inj hn).symm

/-- The earnings of a rising rate, from the reciprocals of the rates. -/
theorem calcEarnedSy_toNat (h : r < s) (hy : y ≠ 0) (hr : 0 < r)
    (hn : calcEarnedSy y r s = .ok n) :
    n.toNat = (reciprocal r - reciprocal s) * y.toNat / denom := by
  unfold calcEarnedSy at hn
  rw [if_neg (by simp [h, hy, hr.ne'])] at hn
  simp only [bind_eq_ok, one_div_eq_ok, sub_eq_ok] at hn
  obtain ⟨a, ⟨-, ha⟩, b, ⟨-, hb⟩, d, hd, e, he, hf⟩ := hn
  have hfloor : (d.mul (fromNaturalU64 y) >>= floorU64) = .ok n :=
    bind_eq_ok.2 ⟨e, he, hf⟩
  rw [mul_natural_floor.1 hfloor, ← ha, ← hb]
  congr 2
  omega

/-- What a balance earns and still could earn at the new rate is what it could at the old one. -/
theorem calcEarnedSy_le (hr : 0 < r) (h : r ≤ s) (hn : calcEarnedSy y r s = .ok n) :
    n.toNat * denom + y.toNat * reciprocal s ≤ y.toNat * reciprocal r := by
  have hanti := reciprocal_anti hr h
  have hmono : y.toNat * reciprocal s ≤ y.toNat * reciprocal r := Nat.mul_le_mul_left _ hanti
  rcases h.lt_or_eq with hlt | rfl
  · by_cases hy : y = 0
    · subst hy
      rw [calcEarnedSy_zero_balance hn]
      simp
    · have hdiv : n.toNat * denom ≤ (reciprocal r - reciprocal s) * y.toNat := by
        rw [calcEarnedSy_toNat hlt hy hr hn]
        exact Nat.div_mul_le_self _ _
      rw [Nat.mul_comm _ y.toNat, Nat.mul_sub] at hdiv
      omega
  · rw [calcEarnedSy_of_le le_rfl hn]
    simp

theorem scaleSyToCurrentRate_of_le (h : s ≤ r) : scaleSyToCurrentRate m r s = .ok m := by
  unfold scaleSyToCurrentRate
  rw [if_pos h]

/-- Scaling to a higher current rate only lowers the amount. -/
theorem scaleSyToCurrentRate_le (h : scaleSyToCurrentRate m r s = .ok n) :
    n.toNat ≤ m.toNat := by
  unfold scaleSyToCurrentRate at h
  split at h
  · rw [Except.ok.inj h]
  · rename_i hlt
    rw [bind_eq_ok] at h
    obtain ⟨q, hq, h⟩ := h
    rw [mul_natural_floor] at h
    have hone : q.raw ≤ denom := (div_eq_ok.1 hq).2.2.trans_le (quotient_le_denom (not_le.1 hlt))
    rw [h]
    refine Nat.div_le_of_le_mul ?_
    rw [Nat.mul_comm denom, Nat.mul_comm q.raw]
    exact Nat.mul_le_mul_left _ hone

/-! ## The credit of a staging -/

namespace YieldTokenPosition

/-- What staging a position credits: nothing in emergency mode. -/
def credit (p : YieldTokenPosition) (v : Vault) : Outcome UInt64 :=
  if v.isInEmergencyMode then .ok 0 else p.interestDue v

theorem interestDue_of_le (h : v.finalSyExchangeRate ≤ p.interest.lastSeenIndex)
    (hn : p.interestDue v = .ok n) : n = 0 := by
  simp only [interestDue, bind_eq_ok] at hn
  obtain ⟨m, hm, hs⟩ := hn
  have hle := scaleSyToCurrentRate_le hs
  rw [calcEarnedSy_of_le h hm] at hle
  exact UInt64.toNat_inj.1 (Nat.le_zero.1 hle)

theorem interestDue_zero_balance (h : p.ytBalance = 0) (hn : p.interestDue v = .ok n) :
    n = 0 := by
  simp only [interestDue, bind_eq_ok, h] at hn
  obtain ⟨m, hm, hs⟩ := hn
  have hle := scaleSyToCurrentRate_le hs
  rw [calcEarnedSy_zero_balance hm] at hle
  exact UInt64.toNat_inj.1 (Nat.le_zero.1 hle)

theorem credit_zero_balance (h : p.ytBalance = 0) (hn : p.credit v = .ok n) : n = 0 := by
  unfold credit at hn
  split at hn
  · exact (Except.ok.inj hn).symm
  · exact interestDue_zero_balance h hn

/-- **The credit is covered by the reciprocals** of the index and of the final rate. -/
theorem interestDue_le (hl : 0 < p.interest.lastSeenIndex)
    (h : p.interest.lastSeenIndex ≤ v.finalSyExchangeRate) (hn : p.interestDue v = .ok n) :
    n.toNat * denom + p.ytBalance.toNat * reciprocal v.finalSyExchangeRate
      ≤ p.ytBalance.toNat * reciprocal p.interest.lastSeenIndex := by
  simp only [interestDue, bind_eq_ok] at hn
  obtain ⟨m, hm, hs⟩ := hn
  have hle := scaleSyToCurrentRate_le hs
  have hearned := calcEarnedSy_le hl h hm
  have : n.toNat * denom ≤ m.toNat * denom := Nat.mul_le_mul_right _ hle
  omega

end YieldTokenPosition

/-- **What a staging does** to the vault and the position. -/
structure Earned (v : Vault) (p : YieldTokenPosition) (v' : Vault) (p' : YieldTokenPosition) :
    Prop where
  ytBalance : p'.ytBalance = p.ytBalance
  final_ne_zero : v.finalSyExchangeRate ≠ 0
  credit : ∃ c u : UInt64, p.credit v = .ok c ∧
    p'.interest.staged.toNat = p.interest.staged.toNat + c.toNat ∧
    u.toNat = v.uncollectedSy.toNat + c.toNat ∧ v' = { v with uncollectedSy := u }
  index : v.isInEmergencyMode = true ∧ p'.interest.lastSeenIndex = p.interest.lastSeenIndex ∨
    v.isInEmergencyMode = false ∧ p'.interest.lastSeenIndex = v.finalSyExchangeRate
  trackers : ∃ b : UInt64,
    b.toNat = p'.interest.staged.toNat
      + p.ytBalance.toNat * denom / v.finalSyExchangeRate.raw ∧
    YieldTokenPosition.earnTrackers b (p.ensureTrackers v).emissions v.emissions
      = .ok p'.emissions

theorem earnSyInterest_eq_ok (h : p.earnSyInterest v = .ok (v', p')) :
    ∃ c u : UInt64, p.credit v = .ok c ∧ u.toNat = v.uncollectedSy.toNat + c.toNat ∧
      v' = { v with uncollectedSy := u } ∧
      ∃ s : UInt64, s.toNat = p.interest.staged.toNat + c.toNat ∧
        p' = { p with interest :=
          ⟨if v.isInEmergencyMode then p.interest.lastSeenIndex
            else v.finalSyExchangeRate, s⟩ } := by
  unfold YieldTokenPosition.earnSyInterest at h
  unfold YieldTokenPosition.credit
  split at h
  · rename_i he
    cases h
    exact ⟨0, v.uncollectedSy, by simp [he], by simp, rfl, p.interest.staged, by simp, by simp [he]⟩
  · rename_i he
    simp only [bind_eq_ok, YieldTokenTracker.incStaged, unwrap_eq_ok, checkedAdd_eq_some,
      Vault.incUncollectedSy_eq_ok, Except.ok.injEq, Prod.mk.injEq] at h
    obtain ⟨c, hc, t, ⟨s, hs, rfl⟩, v₁, ⟨u, hu, rfl⟩, rfl, rfl⟩ := h
    exact ⟨c, u, by simpa [he] using hc, hu, rfl, s, hs, by simp [he]⟩

theorem earned_of_ok (h : p.earnAllWithTracking v = .ok (v', p')) : Earned v p v' p' := by
  simp only [YieldTokenPosition.earnAllWithTracking, YieldTokenPosition.earnAll, bind_eq_ok,
    Prod.exists] at h
  obtain ⟨v₁, p₁, h₁, p₂, h₂, heq⟩ := h
  obtain ⟨rfl, rfl⟩ := Prod.mk.inj (Except.ok.inj heq)
  obtain ⟨c, u, hc, hu, rfl, s, hs, rfl⟩ := earnSyInterest_eq_ok h₁
  simp only [YieldTokenPosition.earnEmissions, YieldTokenPosition.totalSyBalance, bind_eq_ok,
    Except.ok.injEq] at h₂
  obtain ⟨b, ⟨sy, hsy, hb⟩, es, hes, rfl⟩ := h₂
  rw [pyToSy_eq_ok] at hsy
  rw [addU64_eq_ok] at hb
  exact
    { ytBalance := rfl
      final_ne_zero := fun h0 => hsy.1 (eq_zero_iff.1 h0)
      credit := ⟨c, u, hc, hs, hu, rfl⟩
      index := by
        cases he : v.isInEmergencyMode
        · exact .inr ⟨rfl, by simp⟩
        · exact .inl ⟨rfl, by simp [YieldTokenPosition.ensureTrackers]⟩
      trackers := ⟨b, by rw [hb, hsy.2]; rfl, hes⟩ }

end ExponentCore
