import ExponentCore.Vault.Proof.Solvency

/-!
# When the treasury's share spares the backing of the PT

After maturity an update moves SY to the treasury, only beyond the all-time high but measured from
the last seen rate. `WithdrawYt` records a rate below the all-time high while the vault is active,
so the two can differ, and then the share can be larger than the surplus over the value of the PT.
`skim_spares_backing_iff` gives the exact condition, for every vault that a run reaches.
-/

set_option autoImplicit false

namespace ExponentCore

open Number

namespace Vault

variable {v v' : Vault} {syState : SyState} {now : UInt32} {n : UInt64}

/-! ## The size of the share -/

/-- At so large a rate that the share is not computed exactly no PT is worth a unit of SY. -/
theorem ptValue_of_overflow {last cur : Number} {a s : UInt64}
    (hbig : ¬ (cur.raw - last.raw) * a.toNat * denom < 2 ^ 256) : ptValue s cur = 0 := by
  have ha := a.toNat_lt
  have hpt := s.toNat_lt
  refine Nat.div_eq_of_lt ?_
  by_contra hle
  refine hbig ?_
  rw [not_lt] at hle
  have hcur : cur.raw < 2 ^ 64 * denom :=
    hle.trans_lt (Nat.mul_lt_mul_of_pos_right hpt denom_pos)
  calc (cur.raw - last.raw) * a.toNat * denom
      ≤ 2 ^ 64 * denom * 2 ^ 64 * denom :=
        Nat.mul_le_mul_right _ (Nat.mul_le_mul ((Nat.sub_le _ _).trans hcur.le) ha.le)
    _ < 2 ^ 256 := by decide

/-- What the share leaves of a balance, rounded up. -/
theorem sub_share {a last cur : Nat} (h : last < cur) :
    a - (cur - last) * a / cur = (a * last + cur - 1) / cur := by
  have hcur : 0 < cur := by omega
  have hsplit : (cur - last) * a + a * last = a * cur := by
    rw [Nat.mul_comm, ← Nat.mul_add, Nat.sub_add_cancel h.le]
  have hle : (cur - last) * a / cur ≤ a :=
    Nat.div_le_of_le_mul (by rw [Nat.mul_comm cur]; omega)
  have hdm := Nat.div_add_mod ((cur - last) * a) cur
  have hmod := Nat.mod_lt ((cur - last) * a) hcur
  symm
  rw [Nat.div_eq_iff hcur]
  generalize (cur - last) * a / cur = k at *
  have hk : (a - k) * cur = a * cur - cur * k := by rw [Nat.sub_mul, Nat.mul_comm k]
  have hkc : cur * k ≤ a * cur := by omega
  constructor
  · omega
  · omega

/-! ## The condition -/

/-- The backing after an update covers what the PT is worth at the new rate, as far as the active SY
before it did. -/
def SparesBacking (v : Vault) (syState : SyState) (v' : Vault) : Prop :=
  min v.activeSy.toNat (ptValue v.ptSupply syState.exchangeRate) ≤ v'.syForPt.toNat

/-- **The condition**: nothing is moved to the treasury, or what the rise from the last seen rate
leaves of the active SY is still worth the PT. -/
def SkimSpared (v : Vault) (syState : SyState) (now : UInt32) : Prop :=
  v.isExpired now = .ok false ∨
    syState.exchangeRate ≤ v.allTimeHighSyExchangeRate ∨
    (syState.exchangeRate.raw - v.lastSeenSyExchangeRate.raw) * v.activeSy.toNat
      < syState.exchangeRate.raw ∨
    ptValue v.ptSupply syState.exchangeRate
      ≤ (v.activeSy.toNat * v.lastSeenSyExchangeRate.raw + syState.exchangeRate.raw - 1)
        / syState.exchangeRate.raw

instance : Decidable (v.SparesBacking syState v') := inferInstanceAs (Decidable (_ ≤ _))

theorem sparesBacking_of_value_zero (h0 : ptValue v.ptSupply syState.exchangeRate = 0) :
    v.SparesBacking syState v' := by
  unfold SparesBacking
  omega

/-- An update spares the backing iff it moves nothing, or leaves the value of the PT. -/
theorem Updated.sparesBacking_iff (hu : v.Updated syState now v') :
    v.SparesBacking syState v' ↔
      v'.treasurySy = v.treasurySy ∨
        ptValue v.ptSupply syState.exchangeRate
          ≤ v.activeSy.toNat - (v'.treasurySy.toNat - v.treasurySy.toNat) := by
  have hle := hu.treasury_le
  have hb := hu.backing
  have hgrow : v.treasurySy.toNat ≤ v'.treasurySy.toNat := by
    obtain ⟨n, -, ht⟩ := hu.skim
    omega
  rw [← UInt64.toNat_inj]
  unfold SparesBacking
  rw [hb]
  simp only [activeSy_toNat, hu.escrow, hu.uncollected] at hle ⊢
  omega

theorem sparesBacking_iff (hpos : 0 < syState.exchangeRate)
    (hup : v.updateFromSyState syState now = .ok v') :
    v.SparesBacking syState v' ↔ v.SkimSpared syState now := by
  have hu := updated_of_ok hup
  obtain ⟨n, hskim, ht⟩ := hu.skim
  have hiff := hu.sparesBacking_iff
  rw [← UInt64.toNat_inj, ht, Nat.add_sub_cancel_left] at hiff
  rcases hskim with ⟨hc, hn⟩ | ⟨hc, rfl⟩
  · simp only [canCollectSyLambo, bind_eq_ok, Except.ok.injEq, Bool.and_eq_true,
      decide_eq_true_eq] at hc
    obtain ⟨b, hexp, rfl, hath⟩ := hc
    have hcond : v.SkimSpared syState now ↔
        (syState.exchangeRate.raw - v.lastSeenSyExchangeRate.raw) * v.activeSy.toNat
          < syState.exchangeRate.raw ∨
        ptValue v.ptSupply syState.exchangeRate
          ≤ (v.activeSy.toNat * v.lastSeenSyExchangeRate.raw + syState.exchangeRate.raw - 1)
            / syState.exchangeRate.raw := by
      simp [SkimSpared, hexp, not_le.2 hath]
    rw [hcond]
    rw [calcSySurplus] at hn
    rcases le_or_gt syState.exchangeRate v.lastSeenSyExchangeRate with hfall | hrise
    · -- the rate is beyond the all-time high but not above the last seen rate: no share
      unfold calcSyAppreciation at hn
      rw [if_pos hfall] at hn
      cases hn
      rw [Nat.sub_eq_zero_of_le (le_def.1 hfall), Nat.zero_mul]
      exact ⟨fun _ => .inl hpos, fun _ => hiff.2 (.inl rfl)⟩
    · by_cases hfit : (syState.exchangeRate.raw - v.lastSeenSyExchangeRate.raw)
          * v.activeSy.toNat * denom < 2 ^ 256
      · have hshare := (calcSyAppreciation_toNat hn).trans (appreciation_of_fits hfit)
        rw [hiff, hshare, sub_share hrise]
        refine or_congr_left ?_
        rw [← Nat.div_eq_zero_iff_lt hpos]
        omega
      · have h0 := ptValue_of_overflow (s := v.ptSupply) hfit
        exact ⟨fun _ => .inr (h0 ▸ Nat.zero_le _), fun _ => sparesBacking_of_value_zero h0⟩
  · have hspare : v.SkimSpared syState now := by
      simp only [canCollectSyLambo, bind_eq_ok, Except.ok.injEq, Bool.and_eq_false_iff,
        decide_eq_false_iff_not, not_lt] at hc
      obtain ⟨b, hexp, rfl | hath⟩ := hc
      · exact .inl hexp
      · exact .inr (.inl hath)
    simpa [hspare] using hiff

end Vault

/-! ## Reachable vaults -/

namespace VaultWorld

/-- **The treasury's share spares the backing, exactly**: after any run of a new vault, an update at
a positive rate leaves the PT what it is worth at the new rate iff `Vault.SkimSpared` holds before
it. -/
theorem skim_spares_backing_iff (args : InitializeVaultArgs) (ops : List VaultOp)
    (syState : SyState) (now : UInt32) (v' : Vault) (hpos : 0 < syState.exchangeRate)
    (hup : (Machine.run step (initializeVault args) ops).vault.updateFromSyState syState now
      = .ok v') :
    (Machine.run step (initializeVault args) ops).vault.SparesBacking syState v' ↔
      (Machine.run step (initializeVault args) ops).vault.SkimSpared syState now :=
  Vault.sparesBacking_iff hpos hup

/-- PY is stripped at rate one, the rate doubles, and a withdrawal records a dip back to one. -/
def dipBeforeMaturity : List VaultOp :=
  [.initializeYieldPosition 1 0, .strip 1 (wholeRate 1) 3000000000000, .strip 2 (wholeRate 2) 0,
    .withdrawYt 3 (wholeRate 1) 0 0]

/-- The vault after `dipBeforeMaturity` and an update at a rate of three, after maturity. -/
def recoveredVault : Outcome Vault :=
  (Machine.run step freshVault dipBeforeMaturity).vault.updateFromSyState (wholeRate 3) 1001

theorem skim_spares_backing_iff_dip : ∃ v', recoveredVault = .ok v' ∧
    ((Machine.run step freshVault dipBeforeMaturity).vault.SparesBacking (wholeRate 3) v' ↔
      (Machine.run step freshVault dipBeforeMaturity).vault.SkimSpared (wholeRate 3) 1001) := by
  obtain ⟨v', hv, -⟩ : ∃ v', recoveredVault = .ok v' ∧ True := by decide +kernel
  exact ⟨v', hv, skim_spares_backing_iff ⟨0, 1000, 0, {}, 0, 0, 0, 0⟩ dipBeforeMaturity
    (wholeRate 3) 1001 v' (by decide) hv⟩

/-- The share is measured from the dip: two thirds of the active SY go to the treasury, and the PT
is left with half of what it is worth. -/
theorem not_sparesBacking_dipBeforeMaturity :
    Machine.Admits step (fun w op => op.Sane w ∧ op.Timely w) freshVault dipBeforeMaturity ∧
      ∃ v', recoveredVault = .ok v' ∧
        ¬ (Machine.run step freshVault dipBeforeMaturity).vault.SparesBacking (wholeRate 3) v' := by
  decide +kernel

end VaultWorld

end ExponentCore
