import ExponentCore.Market.Wrappers
import ExponentCore.Num.Proof.PreciseNumber

/-!
# The part of the SY that `wrapper_provide_liquidity` strips

`calc_strip_amount` goes through two products, a quotient that adds half a unit to its numerator,
and a ceiling. `calcStripAmount_share` says that the result is never more than the total, and within
one unit of the exact share. The half unit could only matter for a pool without PT, where it turns a
share of zero into one unit at most.
-/

set_option autoImplicit false

namespace ExponentCore

open Number

/-! ## A share, rounded twice -/

section
variable {D h total part pool q n : Nat}

/-- The share `total * part / pool` in units of `1/D`, with a correction `h` before the division,
and rounded up to whole numbers. -/
structure RoundedShare (D h total part pool q n : Nat) : Prop where
  pos : 0 < pool
  correction : h < D
  part_le : part ≤ pool
  /-- the correction is less than the pool, unless the share is zero -/
  small : part = 0 ∨ h < pool
  units : q = (total * part * D + h) / pool
  whole : n = (q + D - 1) / D

namespace RoundedShare

theorem units_mul_le (s : RoundedShare D h total part pool q n) :
    q * pool ≤ total * part * D + h := by
  rw [s.units]
  exact Nat.div_mul_le_self _ _

theorem lt_units_succ_mul (s : RoundedShare D h total part pool q n) :
    total * part * D + h < (q + 1) * pool := by
  rw [s.units, Nat.add_mul, Nat.one_mul]
  exact Nat.lt_div_mul_add s.pos

theorem whole_le_iff (s : RoundedShare D h total part pool q n) {k : Nat} : n ≤ k ↔ q ≤ k * D := by
  have hD : 0 < D := (Nat.zero_le h).trans_lt s.correction
  rw [s.whole, ← Nat.lt_succ_iff, Nat.div_lt_iff_lt_mul hD, Nat.succ_mul]
  omega

/-- Without a part there is at most the correction. -/
theorem units_lt_of_part_zero (s : RoundedShare D h total part pool q n) (h0 : part = 0) :
    q < D := by
  rw [s.units, h0, Nat.mul_zero, Nat.zero_mul, Nat.zero_add]
  exact (Nat.div_le_self _ _).trans_lt s.correction

theorem whole_le_total (s : RoundedShare D h total part pool q n) (htotal : 0 < total) :
    n ≤ total := by
  rw [s.whole_le_iff]
  rcases s.small with h0 | hsmall
  · exact (s.units_lt_of_part_zero h0).le.trans (Nat.le_mul_of_pos_left _ htotal)
  · have hle : total * part * D ≤ total * D * pool := by
      rw [Nat.mul_right_comm]
      exact Nat.mul_le_mul_left _ s.part_le
    have hlt : q * pool < (total * D + 1) * pool := by
      have hunits := s.units_mul_le
      rw [Nat.add_mul, Nat.one_mul]
      omega
    exact Nat.le_of_lt_succ (Nat.lt_of_mul_lt_mul_right hlt)

/-- The share is at most one more than the rounded one. -/
theorem share_le (s : RoundedShare D h total part pool q n) :
    total * part ≤ (n + 1) * pool := by
  have hD : 0 < D := (Nat.zero_le h).trans_lt s.correction
  have hq : q + 1 ≤ (n + 1) * D := by
    have hle := s.whole_le_iff.1 le_rfl
    rw [Nat.add_mul, Nat.one_mul]
    omega
  refine Nat.le_of_mul_le_mul_right ?_ hD
  calc total * part * D ≤ total * part * D + h := Nat.le_add_right _ _
    _ ≤ (q + 1) * pool := s.lt_units_succ_mul.le
    _ ≤ (n + 1) * D * pool := Nat.mul_le_mul_right _ hq
    _ = (n + 1) * pool * D := Nat.mul_right_comm _ _ _

/-- The rounded share is at most one more than the share. -/
theorem le_share (s : RoundedShare D h total part pool q n) :
    n * pool ≤ total * part + pool := by
  rcases s.small with h0 | hsmall
  · have hn : n ≤ 1 := s.whole_le_iff.2 ((Nat.one_mul D).symm ▸ (s.units_lt_of_part_zero h0).le)
    exact (Nat.mul_le_mul_right _ hn).trans (by omega)
  · cases n with
    | zero => omega
    | succ m =>
      have hq : m * D < q := not_le.1 fun hle => Nat.not_succ_le_self m (s.whole_le_iff.2 hle)
      have hlt : m * pool * D < total * part * D := by
        have hunits := s.units_mul_le
        have hmul : (m * D + 1) * pool ≤ q * pool := Nat.mul_le_mul_right _ hq
        rw [Nat.add_mul, Nat.one_mul, Nat.mul_right_comm] at hmul
        omega
      have hm := Nat.lt_of_mul_lt_mul_right hlt
      rw [Nat.add_mul, Nat.one_mul]
      omega

end RoundedShare

end

/-! ## What the pool is worth -/

/-- What the pool is worth in PT, as the source computes it. -/
def poolValue (curSyRate : Number) (marketPtLiq marketSyLiq : UInt64) : Outcome Number := do
  let asset ← curSyRate.mul (fromNaturalU64 marketSyLiq)
  asset.add (fromNaturalU64 marketPtLiq)

section
variable {total pt sy n : UInt64} {rate pool : Number}

theorem part_lt (pt : UInt64) : pt.toNat * denom < 2 ^ 104 :=
  (Nat.mul_lt_mul_of_pos_right pt.toNat_lt denom_pos).trans (by decide)

/-- Either the value of the pool is exact, or it is so large that no share of it is a unit. -/
theorem poolValue_cases (h : poolValue rate pt sy = .ok pool) :
    pool.raw = rate.raw * sy.toNat + pt.toNat * denom ∨
      2 ^ 215 ≤ pool.raw ∧ 2 ^ 215 ≤ rate.raw * sy.toNat + pt.toNat * denom := by
  simp only [poolValue, bind_eq_ok, add_eq_ok, fromNaturalU64_raw] at h
  obtain ⟨asset, hasset, hpool⟩ := h
  by_cases hfit : rate.raw * (fromNaturalU64 sy).raw + roundingCorrection < 2 ^ 256
  · obtain ⟨a, ha, hraw⟩ := mul_natural_raw hfit
    obtain rfl := Except.ok.inj (hasset.symm.trans ha)
    exact .inl (by rw [hpool, hraw])
  · refine .inr ?_
    have hsy := part_lt sy
    rw [mul, unwrap_eq_ok] at hasset
    unfold checkedMul at hasset
    split at hasset
    · cases hasset
    · rename_i hover
      have hlarge : 2 ^ 216 ≤ rate.raw * sy.toNat := by
        by_contra hlt
        refine hover ?_
        rw [fromNaturalU64_raw, ← Nat.mul_assoc]
        exact (Nat.mul_lt_mul_of_pos_right (not_le.1 hlt) denom_pos).trans (by decide)
      -- dividing first loses less than one unit of the SY for each SY
      have hasset' : rate.raw * sy.toNat ≤ asset.raw + sy.toNat * denom := by
        split at hasset
        · rw [ofRaw_eq_some, fromNaturalU64_raw, Nat.mul_left_comm] at hasset
          have hdiv := (Nat.lt_div_mul_add denom_pos (a := rate.raw)).le
          calc rate.raw * sy.toNat ≤ (rate.raw / denom * denom + denom) * sy.toNat :=
                Nat.mul_le_mul_right _ hdiv
            _ = asset.raw + sy.toNat * denom := by
                rw [hasset]
                ring
        · rw [ofRaw_eq_some, fromNaturalU64_raw, Nat.mul_div_cancel _ denom_pos] at hasset
          rw [hasset, Nat.mul_comm]
          exact Nat.le_add_right _ _
      constructor <;> omega

/-- `calc_strip_amount` as a share of the pool. -/
theorem calcStripAmount_eq_ok (h : poolValue rate pt sy = .ok pool) (hpos : 0 < pool.raw) :
    calcStripAmount total rate pt sy = .ok n ↔
      n.toNat = ((total.toNat * (pt.toNat * denom) * denom + roundingCorrection) / pool.raw
        + denom - 1) / denom := by
  have hbound : total.toNat * (pt.toNat * denom) * denom + roundingCorrection < 2 ^ 256 := by
    calc total.toNat * (pt.toNat * denom) * denom + roundingCorrection
        ≤ 2 ^ 64 * (2 ^ 64 * denom) * denom + roundingCorrection :=
          Nat.add_le_add_right (Nat.mul_le_mul_right _ (Nat.mul_le_mul total.toNat_lt.le
            (Nat.mul_le_mul_right _ pt.toNat_lt.le))) _
      _ < 2 ^ 256 := by decide
  obtain ⟨numerator, hnumerator, hraw⟩ := mul_natural_raw (a := fromNaturalU64 total) (n := pt) (by
    rw [fromNaturalU64_raw, fromNaturalU64_raw, Nat.mul_right_comm]
    exact hbound)
  have hunits : numerator.raw * denom = total.toNat * (pt.toNat * denom) * denom := by
    rw [hraw, fromNaturalU64_raw]
    ring
  have hsplit : calcStripAmount total rate pt sy = numerator.div pool >>= ceilU64 := by
    obtain ⟨asset, hasset, hpool⟩ := bind_eq_ok.1 h
    rw [calcStripAmount, hnumerator, ok_bind, hasset, ok_bind, hpool, ok_bind]
  have hfits : numerator.raw * denom + roundingCorrection < 2 ^ 256 := by
    rw [hunits]
    exact hbound
  obtain ⟨q, hq, hqraw⟩ : ∃ q, numerator.div pool = .ok q ∧
      q.raw = (numerator.raw * denom + roundingCorrection) / pool.raw := by
    refine ⟨⟨_, (Nat.div_le_self _ pool.raw).trans_lt hfits⟩, ?_, rfl⟩
    rw [div, unwrap_eq_ok, checkedDiv_of_fits hpos.ne' hfits, ofRaw_eq_some]
  rw [hsplit, hq, ok_bind, ceilU64_eq_ok, hqraw, hunits]

/-- What the pool is worth in PT exactly, in units. -/
def exactPoolValue (rate : Number) (pt sy : UInt64) : Nat := rate.raw * sy.toNat + pt.toNat * denom

/-- The rounded share of the PT in the pool. -/
theorem roundedShare (total : UInt64) (h : poolValue rate pt sy = .ok pool)
    (hpos : 0 < exactPoolValue rate pt sy) :
    RoundedShare denom roundingCorrection total.toNat (pt.toNat * denom) pool.raw
      ((total.toNat * (pt.toNat * denom) * denom + roundingCorrection) / pool.raw)
      (((total.toNat * (pt.toNat * denom) * denom + roundingCorrection) / pool.raw + denom - 1)
        / denom) where
  pos := by
    rcases poolValue_cases h with heq | ⟨hlarge, -⟩
    · exact heq ▸ hpos
    · exact (Nat.two_pow_pos 215).trans_le hlarge
  correction := roundingCorrection_lt
  part_le := by
    rcases poolValue_cases h with heq | ⟨hlarge, -⟩
    · exact heq ▸ Nat.le_add_left _ _
    · exact (part_lt pt).le.trans ((by decide : 2 ^ 104 ≤ 2 ^ 215).trans hlarge)
  small := by
    rcases Nat.eq_zero_or_pos pt.toNat with h0 | hpt
    · exact .inl (by rw [h0, Nat.zero_mul])
    · refine .inr (roundingCorrection_lt.trans_le ?_)
      rcases poolValue_cases h with heq | ⟨hlarge, -⟩
      · exact heq ▸ (Nat.le_mul_of_pos_left _ hpt).trans (Nat.le_add_left _ _)
      · exact (by decide : denom ≤ 2 ^ 215).trans hlarge
  units := rfl
  whole := rfl

theorem calcStripAmount_bounds (htotal : 0 < total) (hpos : 0 < exactPoolValue rate pt sy)
    (h : poolValue rate pt sy = .ok pool) :
    ∃ n, calcStripAmount total rate pt sy = .ok n ∧ n ≤ total ∧
      n.toNat * exactPoolValue rate pt sy
        ≤ total.toNat * (pt.toNat * denom) + exactPoolValue rate pt sy ∧
      total.toNat * (pt.toNat * denom) ≤ (n.toNat + 1) * exactPoolValue rate pt sy := by
  have hshare := roundedShare total h hpos
  have hle := hshare.whole_le_total (UInt64.lt_iff_toNat_lt.1 htotal)
  have hn := UInt64.toNat_ofNat_of_lt' (hle.trans_lt total.toNat_lt)
  refine ⟨_, (calcStripAmount_eq_ok h hshare.pos).2 hn, UInt64.le_iff_toNat_le.2 (hn.trans_le hle),
    ?_⟩
  rw [hn]
  rcases poolValue_cases h with heq | ⟨hlarge, hexact⟩
  · have hpool : exactPoolValue rate pt sy = pool.raw := heq.symm
    rw [hpool]
    exact ⟨hshare.le_share, hshare.share_le⟩
  · have hsmall : total.toNat * (pt.toNat * denom) * denom + roundingCorrection < 2 ^ 215 := by
      calc total.toNat * (pt.toNat * denom) * denom + roundingCorrection
          ≤ 2 ^ 64 * 2 ^ 104 * denom + roundingCorrection :=
            Nat.add_le_add_right (Nat.mul_le_mul_right _
              (Nat.mul_le_mul total.toNat_lt.le (part_lt pt).le)) _
        _ < 2 ^ 215 := by decide
    have hzero := (hshare.whole_le_iff (k := 0)).2 (by
      rw [Nat.div_eq_of_lt (hsmall.trans_le hlarge)]
      exact Nat.zero_le _)
    rw [Nat.le_zero.1 hzero]
    refine ⟨by rw [Nat.zero_mul]; exact Nat.zero_le _, ?_⟩
    rw [Nat.zero_add, Nat.one_mul]
    refine le_trans ?_ hexact
    have hmul : total.toNat * (pt.toNat * denom) ≤ total.toNat * (pt.toNat * denom) * denom :=
      Nat.le_mul_of_pos_right _ denom_pos
    omega

/-- **The split is feasible and proportional**: whenever the value of the pool is positive and can
be computed, the part to strip is no more than the total, and within one of the exact share. -/
theorem calcStripAmount_share (total : UInt64) (rate : Number) (pt sy : UInt64)
    (htotal : 0 < total) (hpool : 0 < (pt.toNat : ℚ) + sy.toNat * rate.value)
    (hfits : ∃ pool, poolValue rate pt sy = .ok pool) :
    ∃ n, calcStripAmount total rate pt sy = .ok n ∧ n ≤ total ∧
      |(n.toNat : ℚ) - total.toNat * pt.toNat / (pt.toNat + sy.toNat * rate.value)| ≤ 1 := by
  obtain ⟨pool, hvalue⟩ := hfits
  have hunits : ((exactPoolValue rate pt sy : Nat) : ℚ)
      = (pt.toNat + sy.toNat * rate.value) * denom := by
    rw [exactPoolValue, Number.value]
    have := denom_cast_pos.ne'
    push_cast
    field_simp
    ring
  have hposq : (0 : ℚ) < (exactPoolValue rate pt sy : Nat) := by
    rw [hunits]
    exact mul_pos hpool denom_cast_pos
  have hexact : (total.toNat * pt.toNat : ℚ) / (pt.toNat + sy.toNat * rate.value)
      = (total.toNat * (pt.toNat * denom) : Nat) / (exactPoolValue rate pt sy : Nat) := by
    rw [hunits, Nat.cast_mul, Nat.cast_mul, ← mul_assoc, mul_div_mul_right _ _ denom_cast_pos.ne']
  obtain ⟨n, hok, hle, hupper, hlower⟩ :=
    calcStripAmount_bounds htotal (Nat.cast_pos.1 hposq) hvalue
  refine ⟨n, hok, hle, ?_⟩
  rw [hexact, abs_sub_le_iff, sub_le_iff_le_add, sub_le_iff_le_add]
  constructor
  · have hmul : (n.toNat : ℚ) * (exactPoolValue rate pt sy : Nat)
        ≤ (total.toNat * (pt.toNat * denom) : Nat) + (exactPoolValue rate pt sy : Nat) := by
      exact_mod_cast hupper
    rw [← sub_le_iff_le_add', le_div_iff₀ hposq, sub_mul, one_mul]
    exact sub_le_iff_le_add.2 hmul
  · rw [div_le_iff₀ hposq, add_comm]
    exact_mod_cast hlower

/-- Three SY for a pool of one PT and two SY at rate one. -/
theorem calcStripAmount_share_third :
    (0 : UInt64) < 3 ∧ ∃ n, calcStripAmount 3 1 1 2 = .ok n ∧ n ≤ 3 ∧
      |(n.toNat : ℚ) - (3 : UInt64).toNat * (1 : UInt64).toNat
        / ((1 : UInt64).toNat + (2 : UInt64).toNat * (1 : Number).value)| ≤ 1 := by
  have hpool : 0 < ((1 : UInt64).toNat : ℚ) + (2 : UInt64).toNat * (1 : Number).value := by
    decide +kernel
  have hfits : ∃ pool, poolValue 1 1 2 = .ok pool := ⟨⟨3 * denom, by decide⟩, by decide +kernel⟩
  exact ⟨by decide, calcStripAmount_share 3 1 1 2 (by decide) hpool hfits⟩

end

end ExponentCore
