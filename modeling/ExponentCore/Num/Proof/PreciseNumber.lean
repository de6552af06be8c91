import ExponentCore.Num.PreciseNumber

/-!
# What the number operations compute

One lemma per operation of `PreciseNumber.lean`, stated on the units as natural numbers. The
fallback branches of `checkedMul` and `checkedDiv` never survive the rounding to a `u64` where one
factor is a whole `u64` (`mul_natural_floor`), so the roundings of the vault are exact floors
(`pyToSy_eq_ok`, `syToPy_eq_ok`, `calcShareValue_eq_ok`). The reciprocal of a rate is the one
quantity that is rounded to nearest, so it can be too large (`reciprocal_mul_le`).
-/

set_option autoImplicit false

namespace ExponentCore

namespace Number

variable {a b p : Number} {n m : UInt64}

/-! ## Order and constructors -/

theorem denom_pos : 0 < denom := by decide

theorem roundingCorrection_lt : roundingCorrection < denom := by decide

theorem le_def : a ≤ b ↔ a.raw ≤ b.raw := Iff.rfl

theorem lt_def : a < b ↔ a.raw < b.raw := Iff.rfl

theorem ext_iff : a = b ↔ a.raw = b.raw := raw_injective.eq_iff.symm

@[simp] theorem zero_raw : (0 : Number).raw = 0 := rfl

@[simp] theorem one_raw : (1 : Number).raw = denom := rfl

@[simp] theorem fromNaturalU64_raw : (fromNaturalU64 n).raw = n.toNat * denom := rfl

theorem eq_zero_iff : a = 0 ↔ a.raw = 0 := ext_iff

theorem pos_iff : 0 < a ↔ 0 < a.raw := Iff.rfl

@[simp] theorem ofRaw_eq_some {k : Nat} : ofRaw k = some p ↔ p.raw = k := by
  unfold ofRaw
  split
  · rw [Option.some.injEq, ext_iff]; exact eq_comm
  · rename_i h
    simp only [reduceCtorEq, false_iff]
    exact fun e => h (e ▸ p.isLt)

/-! ## Sums and products -/

theorem add_eq_ok : a.add b = .ok p ↔ p.raw = a.raw + b.raw := by
  rw [add, unwrap_eq_ok, checkedAdd, ofRaw_eq_some]

theorem sub_eq_ok : a.sub b = .ok p ↔ p.raw + b.raw = a.raw := by
  unfold sub checkedSub
  rw [unwrap_eq_ok]
  split
  · rw [ofRaw_eq_some]; omega
  · simp only [reduceCtorEq, false_iff]; omega

/-- A product that fits with its rounding is rounded to nearest. -/
theorem checkedMul_of_fits (h : a.raw * b.raw + roundingCorrection < 2 ^ 256) :
    a.checkedMul b = ofRaw ((a.raw * b.raw + roundingCorrection) / denom) := by
  unfold checkedMul
  rw [if_pos (Nat.lt_of_le_of_lt (Nat.le_add_right _ _) h), if_pos h]

/-- A quotient whose widened numerator fits with its rounding is rounded to nearest. -/
theorem checkedDiv_of_fits (hb : b.raw ≠ 0)
    (h : a.raw * denom + roundingCorrection < 2 ^ 256) :
    a.checkedDiv b = ofRaw ((a.raw * denom + roundingCorrection) / b.raw) := by
  unfold checkedDiv
  rw [if_neg hb, if_pos (Nat.lt_of_le_of_lt (Nat.le_add_right _ _) h), if_pos h]

/-- Adding half a unit does not change a multiple of one. -/
theorem round_mul_denom (x : Nat) : (x * denom + roundingCorrection) / denom = x := by
  rw [Nat.add_comm, Nat.add_mul_div_right _ _ denom_pos, Nat.div_eq_of_lt roundingCorrection_lt,
    Nat.zero_add]

/-- A whole number of units is converted without rounding. -/
theorem roundU64_eq_ok {k : Nat} (hraw : p.raw = k * denom) :
    (unwrap p.toImprecise >>= fun m => unwrap (toU64 m)) = .ok n ↔ n.toNat = k := by
  have hn := n.toNat_lt
  simp only [unwrap_eq_ok, bind_eq_ok, toU64_eq_some, toImprecise, hraw, round_mul_denom]
  constructor
  · rintro ⟨m, hm, hnm⟩
    split at hm
    · split at hm
      · rw [hnm, ← Option.some.inj hm]
      · cases hm
    · cases hm
  · intro h
    refine ⟨k, ?_, h⟩
    have hsmall : k < 2 ^ 64 := h ▸ hn
    rw [if_pos, if_pos (hsmall.trans (by decide))]
    calc k * denom + roundingCorrection
        < 2 ^ 64 * denom + roundingCorrection := by
          exact Nat.add_lt_add_right (Nat.mul_lt_mul_of_pos_right hsmall denom_pos) _
      _ < 2 ^ 256 := by decide

theorem floorU64_eq_ok : a.floorU64 = .ok n ↔ n.toNat = a.raw / denom := by
  obtain ⟨w, hw, hraw⟩ : ∃ w, a.floor = some w ∧ w.raw = a.raw / denom * denom :=
    ⟨⟨_, (Nat.div_mul_le_self _ _).trans_lt a.isLt⟩, ofRaw_eq_some.2 rfl, rfl⟩
  have hfloor : unwrap a.floor = .ok w := unwrap_eq_ok.2 hw
  rw [floorU64, hfloor, ok_bind, roundU64_eq_ok hraw]

theorem ceilU64_eq_ok : a.ceilU64 = .ok n ↔ n.toNat = (a.raw + denom - 1) / denom := by
  have hn := n.toNat_lt
  have hdenom := denom_pos
  simp only [ceilU64, ceiling]
  split
  · rename_i hfit
    have hlt : (a.raw + denom - 1) / denom * denom < 2 ^ 256 :=
      (Nat.div_mul_le_self _ _).trans_lt (by omega)
    obtain ⟨w, hw, hraw⟩ : ∃ w, ofRaw ((a.raw + denom - 1) / denom * denom) = some w ∧
        w.raw = (a.raw + denom - 1) / denom * denom :=
      ⟨⟨_, hlt⟩, ofRaw_eq_some.2 rfl, rfl⟩
    have hceil : unwrap (ofRaw ((a.raw + denom - 1) / denom * denom)) = .ok w := unwrap_eq_ok.2 hw
    rw [hceil, ok_bind, roundU64_eq_ok hraw]
  · rename_i hfit
    simp only [unwrap, error_bind, reduceCtorEq, false_iff]
    intro h
    have hbig : 2 ^ 64 * denom ≤ a.raw + denom - 1 := by
      have : 2 ^ 64 * denom + 1 ≤ 2 ^ 256 := by decide
      omega
    have := (Nat.le_div_iff_mul_le hdenom).2 hbig
    omega

/-- Half a unit still fits beside a multiple of the unit. -/
theorem add_half_lt {k : Nat} (h : k * denom < 2 ^ 256) :
    k * denom + roundingCorrection < 2 ^ 256 := by
  have hk : k ≤ 2 ^ 256 / denom := (Nat.le_div_iff_mul_le denom_pos).2 h.le
  calc k * denom + roundingCorrection
      ≤ 2 ^ 256 / denom * denom + roundingCorrection :=
        Nat.add_le_add_right (Nat.mul_le_mul_right _ hk) _
    _ < 2 ^ 256 := by decide

/-- Multiplying by a whole number is exact unless the units leave 256 bits. -/
theorem mul_natural_raw
    (hfit : a.raw * (fromNaturalU64 n).raw + roundingCorrection < 2 ^ 256) :
    ∃ p, a.mul (fromNaturalU64 n) = .ok p ∧ p.raw = a.raw * n.toNat := by
  have hexact : (a.raw * (fromNaturalU64 n).raw + roundingCorrection) / denom
      = a.raw * n.toNat := by
    rw [fromNaturalU64_raw, ← Nat.mul_assoc, round_mul_denom]
  have hlt : a.raw * n.toNat < 2 ^ 256 := by
    rw [← hexact]
    exact (Nat.div_le_self _ _).trans_lt hfit
  refine ⟨⟨a.raw * n.toNat, hlt⟩, ?_, rfl⟩
  rw [mul, unwrap_eq_ok, checkedMul_of_fits hfit, hexact, ofRaw_eq_some]

/-- The units of `k` units times a whole number: exact, or of the whole part of `k` where the widened
product leaves 256 bits. -/
def product (k : Nat) (m : UInt64) : Nat :=
  if k * m.toNat * denom < 2 ^ 256 then k * m.toNat else k / denom * denom * m.toNat

theorem product_le (k : Nat) : product k m ≤ k * m.toNat := by
  unfold product
  split
  · exact le_rfl
  · exact Nat.mul_le_mul_right _ (Nat.div_mul_le_self _ _)

theorem mul_natural_eq_ok : a.mul (fromNaturalU64 m) = .ok p ↔ p.raw = product a.raw m := by
  have hm := m.toNat_lt
  unfold product
  split
  · rename_i hfit
    have hround := add_half_lt hfit
    rw [Nat.mul_assoc, ← fromNaturalU64_raw] at hround
    obtain ⟨q, hq, hraw⟩ := mul_natural_raw hround
    rw [hq, Except.ok.injEq, ext_iff, hraw, eq_comm]
  · rename_i hbig
    rw [Nat.mul_assoc, ← fromNaturalU64_raw] at hbig
    have hlarge : (fromNaturalU64 m).raw ≤ a.raw := by
      by_contra hlt
      refine hbig ((Nat.mul_le_mul_right _ (not_le.1 hlt).le).trans_lt ?_)
      calc m.toNat * denom * (m.toNat * denom)
          ≤ 2 ^ 64 * denom * (2 ^ 64 * denom) :=
            Nat.mul_le_mul (Nat.mul_le_mul_right _ hm.le) (Nat.mul_le_mul_right _ hm.le)
        _ < 2 ^ 256 := by decide
    rw [mul, unwrap_eq_ok, checkedMul, if_neg hbig, if_pos hlarge, ofRaw_eq_some,
      fromNaturalU64_raw, Nat.mul_comm m.toNat, Nat.mul_assoc]

/-- When the units do leave 256 bits, the rounded-down product does not fit in a `u64`. -/
theorem mul_natural_large
    (hbig : ¬ a.raw * (fromNaturalU64 n).raw + roundingCorrection < 2 ^ 256)
    (hp : a.mul (fromNaturalU64 n) = .ok p) : 2 ^ 64 ≤ p.raw / denom := by
  have hn := n.toNat_lt
  have hnat : (fromNaturalU64 n).raw = n.toNat * denom := rfl
  rw [mul, unwrap_eq_ok] at hp
  unfold checkedMul at hp
  split at hp
  · cases hp
  · rename_i hover
    have hnd : (fromNaturalU64 n).raw < 2 ^ 104 := by
      rw [hnat]
      calc n.toNat * denom < 2 ^ 64 * denom := Nat.mul_lt_mul_of_pos_right hn denom_pos
        _ < 2 ^ 104 := by decide
    have hlarge : 2 ^ 152 ≤ a.raw := by
      by_contra hlt
      have := Nat.mul_lt_mul'' (not_le.1 hlt) hnd
      exact hover (this.trans_le (by decide))
    have hpos : 1 ≤ n.toNat := by
      rcases Nat.eq_zero_or_pos n.toNat with h0 | h0
      · exact absurd (by rw [hnat, h0]; simp) hover
      · exact h0
    have hq : 2 ^ 64 ≤ a.raw / denom := by
      rw [Nat.le_div_iff_mul_le denom_pos]
      exact le_trans (by decide) hlarge
    rw [if_pos ((hnd.le.trans (by decide)).trans hlarge), ofRaw_eq_some, hnat,
      ← Nat.mul_assoc] at hp
    rw [hp, Nat.mul_div_cancel _ denom_pos]
    exact hq.trans (Nat.le_mul_of_pos_right _ hpos)

/-- The rounded-down product with a whole number is exact. -/
theorem mul_natural_floor :
    (a.mul (fromNaturalU64 m) >>= floorU64) = .ok n ↔ n.toNat = a.raw * m.toNat / denom := by
  have hn := n.toNat_lt
  rw [bind_eq_ok]
  by_cases hfit : a.raw * (fromNaturalU64 m).raw + roundingCorrection < 2 ^ 256
  · obtain ⟨p, hp, hraw⟩ := mul_natural_raw hfit
    simp only [hp, Except.ok.injEq, exists_eq_left', floorU64_eq_ok, hraw]
  · constructor
    · rintro ⟨p, hp, hf⟩
      have hlarge := mul_natural_large hfit hp
      rw [floorU64_eq_ok] at hf
      omega
    · intro h
      have hsmall : a.raw * m.toNat < 2 ^ 64 * denom := by
        rw [← Nat.div_lt_iff_lt_mul denom_pos, ← h]; exact hn
      refine absurd ?_ hfit
      rw [fromNaturalU64_raw, ← Nat.mul_assoc]
      calc a.raw * m.toNat * denom + roundingCorrection
          < 2 ^ 64 * denom * denom + roundingCorrection :=
            Nat.add_lt_add_right (Nat.mul_lt_mul_of_pos_right hsmall denom_pos) _
        _ < 2 ^ 256 := by decide

theorem mul_swap : a.mul b = b.mul a := by
  simp only [mul, checkedMul, Nat.mul_comm b.raw a.raw]
  split
  · rfl
  · rcases lt_trichotomy a.raw b.raw with h | h | h
    · rw [if_neg (by omega), if_pos (by omega)]
    · simp [h]
    · rw [if_pos (by omega), if_neg (by omega)]

theorem natural_mul_floor :
    ((fromNaturalU64 m).mul a >>= floorU64) = .ok n ↔ n.toNat = m.toNat * a.raw / denom := by
  rw [mul_swap, mul_natural_floor, Nat.mul_comm]

/-! ## Quotients -/

/-- The units of `a / b`: rounded to nearest, or to whole units when the widened numerator leaves
256 bits. -/
def quotient (a b : Number) : Nat :=
  if a.raw * denom < 2 ^ 256 then (a.raw * denom + roundingCorrection) / b.raw
  else (a.raw + roundingCorrection) / b.raw * denom

theorem div_eq_ok :
    a.div b = .ok p ↔
      b.raw ≠ 0 ∧ a.raw + roundingCorrection < 2 ^ 256 ∧ p.raw = quotient a b := by
  rw [div, unwrap_eq_ok]
  unfold checkedDiv quotient
  by_cases hb : b.raw = 0
  · simp [hb]
  rw [if_neg hb]
  by_cases hfit : a.raw * denom < 2 ^ 256
  · have hsmall : a.raw + roundingCorrection < 2 ^ 256 :=
      (Nat.add_le_add_right (Nat.le_mul_of_pos_right _ denom_pos) _).trans_lt (add_half_lt hfit)
    rw [if_pos hfit, if_pos hfit, if_pos (add_half_lt hfit), ofRaw_eq_some]
    exact ⟨fun hp => ⟨hb, hsmall, hp⟩, fun hp => hp.2.2⟩
  · rw [if_neg hfit, if_neg hfit]
    split
    · rename_i hsmall
      rw [ofRaw_eq_some]
      exact ⟨fun hp => ⟨hb, hsmall, hp⟩, fun hp => hp.2.2⟩
    · rename_i hlarge
      exact ⟨nofun, fun hp => absurd hp.2.1 hlarge⟩

/-- A quotient that is at most a `u64` stays so when it is rounded down. -/
theorem quotient_div_denom_le {k : UInt64} (hle : a.raw ≤ k.toNat * b.raw) :
    quotient a b / denom ≤ k.toNat := by
  have hk := k.toNat_lt
  rcases Nat.eq_zero_or_pos b.raw with hb | hb
  · simp [quotient, hb]
  unfold quotient
  split
  · rw [Nat.div_div_eq_div_mul, Nat.mul_comm b.raw, ← Nat.div_div_eq_div_mul, round_mul_denom]
    exact Nat.div_le_of_le_mul (by rwa [Nat.mul_comm])
  · rename_i hover
    rw [Nat.mul_div_cancel _ denom_pos]
    -- half a unit is less than so large a divisor
    have hbig : roundingCorrection < b.raw := by
      by_contra hsmall
      have hlt : k.toNat * b.raw ≤ 2 ^ 64 * roundingCorrection :=
        Nat.mul_le_mul hk.le (not_lt.1 hsmall)
      refine hover (lt_of_le_of_lt (Nat.mul_le_mul_right denom (hle.trans hlt)) ?_)
      decide
    rw [← Nat.lt_succ_iff, Nat.div_lt_iff_lt_mul hb, Nat.succ_mul]
    omega

/-- A quotient below one is at most one. -/
theorem quotient_le_denom (h : a < b) : quotient a b ≤ denom := by
  have hlt : a.raw < b.raw := h
  have hb : 0 < b.raw := (Nat.zero_le _).trans_lt hlt
  unfold quotient
  split
  · refine Nat.div_le_of_le_mul ?_
    calc a.raw * denom + roundingCorrection ≤ a.raw * denom + 1 * denom := by
          have := roundingCorrection_lt; omega
      _ = (a.raw + 1) * denom := (Nat.add_mul _ _ _).symm
      _ ≤ b.raw * denom := Nat.mul_le_mul_right _ hlt
  · rename_i hover
    have hbig : roundingCorrection ≤ a.raw := by
      by_contra hsmall
      refine hover ((Nat.mul_lt_mul_of_pos_right (not_le.1 hsmall) denom_pos).trans ?_)
      decide
    have hone : (a.raw + roundingCorrection) / b.raw ≤ 1 := by
      rw [← Nat.lt_succ_iff, Nat.div_lt_iff_lt_mul hb]
      omega
    calc (a.raw + roundingCorrection) / b.raw * denom ≤ 1 * denom := Nat.mul_le_mul_right _ hone
      _ = denom := Nat.one_mul _

/-- Rounding to nearest disappears when the quotient of a whole number is rounded down. -/
theorem round_div_denom (x d : Nat) :
    (x * denom * denom + roundingCorrection) / d / denom = x * denom / d := by
  rw [Nat.div_div_eq_div_mul, Nat.mul_comm d, ← Nat.div_div_eq_div_mul, round_mul_denom]

theorem natural_div_fits : (fromNaturalU64 m).raw * denom + roundingCorrection < 2 ^ 256 := by
  rw [fromNaturalU64_raw]
  calc m.toNat * denom * denom + roundingCorrection
      < 2 ^ 64 * denom * denom + roundingCorrection :=
        Nat.add_lt_add_right (Nat.mul_lt_mul_of_pos_right
          (Nat.mul_lt_mul_of_pos_right m.toNat_lt denom_pos) denom_pos) _
    _ < 2 ^ 256 := by decide

theorem natural_checkedDiv :
    (fromNaturalU64 m).checkedDiv a = some p ↔
      a.raw ≠ 0 ∧ p.raw = (m.toNat * denom * denom + roundingCorrection) / a.raw := by
  by_cases h : a.raw = 0
  · simp [checkedDiv, h]
  · rw [checkedDiv_of_fits h natural_div_fits, ofRaw_eq_some, fromNaturalU64_raw]
    simp [h]

theorem natural_div_floor :
    ((fromNaturalU64 m).div a >>= floorU64) = .ok n ↔
      a.raw ≠ 0 ∧ n.toNat = m.toNat * denom / a.raw := by
  rw [bind_eq_ok]
  simp only [div, unwrap_eq_ok, natural_checkedDiv, floorU64_eq_ok]
  constructor
  · rintro ⟨p, ⟨h0, hp⟩, hn⟩
    rw [hp, round_div_denom] at hn
    exact ⟨h0, hn⟩
  · rintro ⟨h0, hn⟩
    refine ⟨⟨(m.toNat * denom * denom + roundingCorrection) / a.raw,
      (Nat.div_le_self _ _).trans_lt natural_div_fits⟩, ⟨h0, rfl⟩, ?_⟩
    rw [round_div_denom]; exact hn

/-- The rounded-up product with a whole number covers the exact one. -/
theorem natural_mul_ceil (h : ((fromNaturalU64 m).mul a >>= ceilU64) = .ok n) :
    m.toNat * a.raw ≤ n.toNat * denom := by
  have hn := n.toNat_lt
  rw [mul_swap, bind_eq_ok] at h
  obtain ⟨p, hp, hc⟩ := h
  rw [ceilU64_eq_ok] at hc
  have hcover : p.raw ≤ n.toNat * denom := by
    have := Nat.lt_div_mul_add denom_pos (a := p.raw + denom - 1)
    rw [← hc] at this
    omega
  by_cases hfit : a.raw * (fromNaturalU64 m).raw + roundingCorrection < 2 ^ 256
  · obtain ⟨p', hp', hraw⟩ := mul_natural_raw hfit
    rw [hp, Except.ok.injEq] at hp'
    rw [Nat.mul_comm, ← hraw, ← hp']
    exact hcover
  · have hlarge := mul_natural_large hfit hp
    have := Nat.div_mul_le_self p.raw denom
    have : 2 ^ 64 * denom ≤ n.toNat * denom :=
      (Nat.mul_le_mul_right _ hlarge).trans (this.trans hcover)
    exact absurd (Nat.le_of_mul_le_mul_right this denom_pos) (by omega)

/-- The quotient of a whole number, rounded to nearest and then up, falls short of the exact one by
less than a unit of the twelfth decimal. -/
theorem natural_div_ceil (h : ((fromNaturalU64 m).div a >>= ceilU64) = .ok n) :
    m.toNat * denom * denom < (n.toNat * denom + 1) * a.raw := by
  rw [bind_eq_ok] at h
  obtain ⟨p, hp, hc⟩ := h
  rw [div, unwrap_eq_ok, natural_checkedDiv] at hp
  obtain ⟨ha, hraw⟩ := hp
  rw [ceilU64_eq_ok] at hc
  have hcover : p.raw ≤ n.toNat * denom := by
    have := Nat.lt_div_mul_add denom_pos (a := p.raw + denom - 1)
    rw [← hc] at this
    omega
  have hlt := Nat.lt_div_mul_add (Nat.pos_of_ne_zero ha)
    (a := m.toNat * denom * denom + roundingCorrection)
  rw [← hraw] at hlt
  have := Nat.mul_le_mul_right a.raw hcover
  rw [Nat.add_mul, Nat.one_mul]
  omega

theorem fromRatio_raw : (fromRatio n m).raw = n.toNat * denom / m.toNat := by
  unfold fromRatio
  rcases Nat.eq_zero_or_pos m.toNat with h | h
  · simp [checkedDiv, h]
  · have hm : (fromNaturalU64 m).raw ≠ 0 := (Nat.mul_pos h denom_pos).ne'
    obtain ⟨p, hp⟩ : ∃ p, (fromNaturalU64 n).checkedDiv (fromNaturalU64 m) = some p :=
      ⟨⟨_, (Nat.div_le_self _ (fromNaturalU64 m).raw).trans_lt natural_div_fits⟩,
        natural_checkedDiv.2 ⟨hm, rfl⟩⟩
    obtain ⟨-, hraw⟩ := natural_checkedDiv.1 hp
    rw [hp, Option.getD_some, hraw, fromNaturalU64_raw, Nat.mul_comm m.toNat,
      ← Nat.div_div_eq_div_mul, round_mul_denom]

/-! ## Values -/

theorem denom_cast_pos : (0 : ℚ) < denom := Nat.cast_pos.2 denom_pos

theorem value_le_value : a.value ≤ b.value ↔ a ≤ b := by
  rw [value, value, div_le_div_iff_of_pos_right denom_cast_pos, Nat.cast_le, le_def]

theorem value_nonneg : 0 ≤ a.value := div_nonneg (Nat.cast_nonneg _) (Nat.cast_nonneg _)

theorem value_of_add (h : p.raw = a.raw + b.raw) : p.value = a.value + b.value := by
  rw [value, h, Nat.cast_add, add_div, value, value]

/-- A share of a whole, rounded down, is within the whole for all who share it. -/
theorem fromRatio_value_mul_le : (fromRatio n m).value * m.toNat ≤ n.toNat := by
  have hraw : (fromRatio n m).raw * m.toNat ≤ n.toNat * denom := by
    rw [fromRatio_raw]
    exact Nat.div_mul_le_self _ _
  have hcast : ((fromRatio n m).raw : ℚ) * m.toNat ≤ n.toNat * denom := by exact_mod_cast hraw
  rw [value, div_mul_eq_mul_div, div_le_iff₀ denom_cast_pos]
  exact hcast

/-- The earnings of a growing index, rounded down, are within the growth. -/
theorem earned_le_growth (h : a ≤ b) {k x : Nat} (hk : k = (b.raw - a.raw) * x / denom) :
    (k : ℚ) ≤ x * (b.value - a.value) := by
  have hraw : k * denom ≤ (b.raw - a.raw) * x := by
    rw [hk]
    exact Nat.div_mul_le_self _ _
  have hcast : (k : ℚ) * denom ≤ (b.raw - a.raw) * x := by
    have := (Nat.cast_le (α := ℚ)).2 hraw
    rwa [Nat.cast_mul, Nat.cast_mul, Nat.cast_sub (le_def.1 h)] at this
  rw [value, value, ← sub_div, mul_div_assoc', le_div_iff₀ denom_cast_pos, mul_comm (x : ℚ)]
  exact hcast

/-! ## Reciprocals -/

/-- The units of `1 / r`, rounded to nearest. -/
def reciprocal (r : Number) : Nat := (denom * denom + roundingCorrection) / r.raw

theorem one_div_eq_ok : div 1 a = .ok p ↔ a.raw ≠ 0 ∧ p.raw = reciprocal a := by
  rw [div, unwrap_eq_ok]
  by_cases h : a.raw = 0
  · simp [checkedDiv, h]
  · rw [checkedDiv_of_fits h (by decide), ofRaw_eq_some, one_raw, reciprocal]
    simp [h]

theorem reciprocal_anti (ha : 0 < a) (h : a ≤ b) : reciprocal b ≤ reciprocal a :=
  Nat.div_le_div_left h ha

theorem reciprocal_mul_le : reciprocal a * a.raw ≤ denom * denom + roundingCorrection :=
  Nat.div_mul_le_self _ _

theorem lt_reciprocal_succ_mul (ha : 0 < a) :
    denom * denom + roundingCorrection < (reciprocal a + 1) * a.raw := by
  rw [Nat.mul_comm _ a.raw]
  exact Nat.lt_mul_div_succ _ ha

end Number

/-! ## Conversions -/

open Number

variable {r s : Number} {n m k : UInt64}

theorem pyToSy_eq_ok : pyToSy r m = .ok n ↔ r.raw ≠ 0 ∧ n.toNat = m.toNat * denom / r.raw :=
  natural_div_floor

theorem syToPy_eq_ok : syToPy r m = .ok n ↔ n.toNat = m.toNat * r.raw / denom :=
  natural_mul_floor

theorem calcShareValue_eq_ok :
    calcShareValue r s m = .ok n ↔ n.toNat = (s.raw - r.raw) * m.toNat / denom := by
  unfold calcShareValue
  split
  · rename_i h
    rw [Nat.sub_eq_zero_of_le (le_def.1 h)]
    simp [← UInt64.toNat_inj, eq_comm]
  · rename_i h
    have hlt : r.raw < s.raw := lt_def.1 (not_le.1 h)
    obtain ⟨d, hd⟩ : ∃ d, s.sub r = .ok d :=
      ⟨⟨s.raw - r.raw, by have := s.isLt; omega⟩, sub_eq_ok.2 (by simp; omega)⟩
    have hraw : d.raw = s.raw - r.raw := by
      have := sub_eq_ok.1 hd; omega
    rw [hd, ok_bind, mul_natural_floor, hraw]

end ExponentCore
