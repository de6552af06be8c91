import ExponentCore.Num.Fast
import ExponentCore.Num.Proof.Aborts

/-!
# The fast operations against the plain ones

One lemma per fast operation says when it returns and what, on the units as natural numbers. Sums,
differences, conversions, and products and quotients with whole numbers are those of the plain
operations, whose rounding has nothing to round there (`fast_agree`).

`fastMulFloorU64_eq_ok`: the product by parts is the exact one rounded down, and no intermediate
value leaves 128 bits unless the result leaves 64 (`fastMulFloorU64_total`). The plain product is
rounded to nearest first, so it is one larger where the exact product is less than half a unit below
a whole number (`mul_floor_eq_succ`), and the same everywhere else.
-/

set_option autoImplicit false

namespace ExponentCore

/-- Where `fits` holds both computations return, and the same; elsewhere the first one panics. -/
structure AgreeWhen {α : Type} (fits : Prop) (fast plain : Outcome α) : Prop where
  agree : fits → ∃ a, fast = .ok a ∧ plain = .ok a
  panics : ¬ fits → ∃ p, fast = .error (.panic p)

theorem AgreeWhen.of_spec {α : Type} {fits : Prop} {fast plain : Outcome α} [OnlyAborts fast]
    {P : α → Prop} (hfast : ∀ a, fast = .ok a ↔ fits ∧ P a)
    (hplain : ∀ a, fits → P a → plain = .ok a) (hex : fits → ∃ a, P a) :
    AgreeWhen fits fast plain where
  agree h := by
    obtain ⟨a, ha⟩ := hex h
    exact ⟨a, (hfast a).2 ⟨h, ha⟩, hplain a h ha⟩
  panics h := by
    rcases OnlyAborts.cases (x := fast) with ⟨a, ha⟩ | hp
    · exact absurd ((hfast a).1 ha).1 h
    · exact hp

/-! ## Products by parts -/

/-- A product, divided by the square of a unit, from the quotients and remainders of its factors. -/
theorem mul_div_by_parts {d : Nat} (hd : 0 < d) (x y : Nat) {cross : Nat}
    (hcross : cross = x / d * (y % d) + x % d * (y / d)) :
    x * y / (d * d) =
      x / d * (y / d) + cross / d + (cross % d * d + x % d * (y % d)) / (d * d) := by
  have hx : x = x / d * d + x % d := (Nat.div_add_mod' x d).symm
  have hy : y = y / d * d + y % d := (Nat.div_add_mod' y d).symm
  have hc : cross = cross / d * d + cross % d := (Nat.div_add_mod' cross d).symm
  have hsplit : x * y =
      (cross % d * d + x % d * (y % d)) + (x / d * (y / d) + cross / d) * (d * d) := by
    calc x * y = (x / d * d + x % d) * (y / d * d + y % d) := by rw [← hx, ← hy]
      _ = x / d * (y / d) * (d * d) + cross * d + x % d * (y % d) := by rw [hcross]; ring
      _ = x / d * (y / d) * (d * d) + (cross / d * d + cross % d) * d + x % d * (y % d) := by
        rw [← hc]
      _ = _ := by ring
  rw [hsplit, Nat.add_mul_div_right _ _ (Nat.mul_pos hd hd), Nat.add_comm]

/-- What is added before a division carries into the quotient iff the remainder has no room for
it. -/
theorem add_div_of_lt {d c : Nat} (hc : c < d) (x : Nat) :
    (x + c) / d = x / d + if d ≤ x % d + c then 1 else 0 := by
  rw [Nat.add_div ((Nat.zero_le _).trans_lt hc), Nat.div_eq_of_lt hc, Nat.mod_eq_of_lt hc,
    Nat.add_zero]

theorem add_div_eq_iff {d c : Nat} (hc : c < d) (x : Nat) :
    (x + c) / d = x / d ↔ x % d + c < d := by
  rw [add_div_of_lt hc]
  split <;> omega

namespace Number

variable {a b p : Number}

/-! ## Units as `u128` -/

theorem exists_u128 {k : Nat} (h : k < 2 ^ 128) : ∃ x : U128, x.toNat = k :=
  ⟨_, toNat_ofNat_of_lt h⟩

theorem rawU128_eq_ok {x : U128} : a.rawU128 = .ok x ↔ x.toNat = a.raw := by
  simp only [rawU128, bind_eq_ok, assertTrue_eq_ok, Except.ok.injEq]
  constructor
  · rintro ⟨_, h, rfl⟩
    exact toNat_ofNat_of_lt h
  · intro h
    have hlt : a.raw < 2 ^ 128 := h ▸ x.isLt
    refine ⟨(), hlt, ?_⟩
    rw [← BitVec.toNat_inj, toNat_ofNat_of_lt hlt, h]

theorem fromRawU128_eq {x : U128} : fromRawU128 x = p ↔ p.raw = x.toNat := by
  rw [ext_iff]
  exact eq_comm

instance : OnlyAborts a.rawU128 := inferInstanceAs (OnlyAborts (assertTrue _ _ >>= fun _ => .ok _))

instance : OnlyAborts (fastAddU128 a b) := by
  unfold fastAddU128
  infer_instance

instance : OnlyAborts (fastSubU128 a b) := by
  unfold fastSubU128
  infer_instance

instance : OnlyAborts (fastFloorU128 a) := by
  unfold fastFloorU128
  infer_instance

instance {v : U128} : OnlyAborts (fastFromU128 v) := by
  unfold fastFromU128
  infer_instance

instance {n : UInt64} : OnlyAborts (fastMulU64 a n) := by
  unfold fastMulU64
  infer_instance

instance {n : UInt64} : OnlyAborts (fastDivU64 a n) := by
  unfold fastDivU64 divU128
  infer_instance

instance : OnlyAborts (fastMulFloorU64 a b) := by
  unfold fastMulFloorU64
  infer_instance

/-! ## What the fast operations return -/

theorem fastFloorU128_eq_ok {n : U128} (ha : a.raw < 2 ^ 128) :
    fastFloorU128 a = .ok n ↔ n.toNat = a.raw / denom := by
  simp only [fastFloorU128, bind_eq_ok, rawU128_eq_ok, Except.ok.injEq,
    ← BitVec.toNat_inj, BitVec.toNat_udiv, denomU128_toNat]
  constructor
  · rintro ⟨x, hx, hn⟩
    rw [← hn, hx]
  · intro hn
    obtain ⟨x, hx⟩ := exists_u128 ha
    exact ⟨x, hx, by rw [hn, hx]⟩

theorem fastFromU128_eq_ok {v : U128} :
    fastFromU128 v = .ok p ↔ v.toNat * denom < 2 ^ 128 ∧ p.raw = v.toNat * denom := by
  simp only [fastFromU128, bind_eq_ok, expect_eq_ok, checkedMulU128_eq_some,
    Except.ok.injEq, fromRawU128_eq, denomU128_toNat]
  constructor
  · rintro ⟨x, hx, hp⟩
    exact ⟨hx ▸ x.isLt, hp.trans hx⟩
  · rintro ⟨hlt, hp⟩
    obtain ⟨x, hx⟩ := exists_u128 hlt
    exact ⟨x, hx, hp.trans hx.symm⟩

theorem fastAddU128_eq_ok :
    fastAddU128 a b = .ok p ↔ a.raw + b.raw < 2 ^ 128 ∧ p.raw = a.raw + b.raw := by
  simp only [fastAddU128, bind_eq_ok, rawU128_eq_ok, expect_eq_ok, checkedAddU128_eq_some,
    Except.ok.injEq, fromRawU128_eq]
  constructor
  · rintro ⟨x, hx, y, hy, z, hz, hp⟩
    rw [hx, hy] at hz
    exact ⟨hz ▸ z.isLt, hp.trans hz⟩
  · rintro ⟨hlt, hp⟩
    obtain ⟨x, hx⟩ := exists_u128 ((Nat.le_add_right a.raw b.raw).trans_lt hlt)
    obtain ⟨y, hy⟩ := exists_u128 ((Nat.le_add_left b.raw a.raw).trans_lt hlt)
    obtain ⟨z, hz⟩ := exists_u128 hlt
    exact ⟨x, hx, y, hy, z, by rw [hx, hy, hz], hp.trans hz.symm⟩

theorem fastSubU128_eq_ok (ha : a.raw < 2 ^ 128) :
    fastSubU128 a b = .ok p ↔ b.raw ≤ a.raw ∧ p.raw + b.raw = a.raw := by
  simp only [fastSubU128, bind_eq_ok, rawU128_eq_ok, expect_eq_ok, checkedSubU128_eq_some,
    Except.ok.injEq, fromRawU128_eq]
  constructor
  · rintro ⟨x, hx, y, hy, z, hz, hp⟩
    rw [hx, hy, ← hp] at hz
    exact ⟨hz ▸ Nat.le_add_left _ _, hz⟩
  · rintro ⟨hle, hp⟩
    obtain ⟨x, hx⟩ := exists_u128 ha
    obtain ⟨y, hy⟩ := exists_u128 (hle.trans_lt ha)
    obtain ⟨z, hz⟩ := exists_u128 (k := p.raw) (by omega)
    exact ⟨x, hx, y, hy, z, by rw [hx, hy, hz, hp], hz.symm⟩

theorem fastMulU64_eq_ok {n : UInt64} (ha : a.raw < 2 ^ 128) :
    fastMulU64 a n = .ok p ↔ a.raw * n.toNat < 2 ^ 128 ∧ p.raw = a.raw * n.toNat := by
  simp only [fastMulU64, bind_eq_ok, rawU128_eq_ok, expect_eq_ok, checkedMulU128_eq_some,
    Except.ok.injEq, fromRawU128_eq, asU128_toNat]
  constructor
  · rintro ⟨x, hx, z, hz, hp⟩
    rw [hx] at hz
    exact ⟨hz ▸ z.isLt, hp.trans hz⟩
  · rintro ⟨hlt, hp⟩
    obtain ⟨x, hx⟩ := exists_u128 ha
    obtain ⟨z, hz⟩ := exists_u128 hlt
    exact ⟨x, hx, z, by rw [hx, hz], hp.trans hz.symm⟩

theorem fastDivU64_eq_ok {n : UInt64} (ha : a.raw < 2 ^ 128) :
    fastDivU64 a n = .ok p ↔ n.toNat ≠ 0 ∧ p.raw = a.raw / n.toNat := by
  simp only [fastDivU64, bind_eq_ok, rawU128_eq_ok, divU128_eq_ok, Except.ok.injEq,
    fromRawU128_eq, asU128_toNat]
  constructor
  · rintro ⟨x, hx, z, ⟨hn, hz⟩, hp⟩
    rw [hx] at hz
    exact ⟨hn, hp.trans hz⟩
  · rintro ⟨hn, hp⟩
    obtain ⟨x, hx⟩ := exists_u128 ha
    obtain ⟨z, hz⟩ := exists_u128 ((Nat.div_le_self a.raw n.toNat).trans_lt ha)
    exact ⟨x, hx, z, ⟨hn, by rw [hx, hz]⟩, hp.trans hz.symm⟩

/-! ## The product by parts -/

/-- The products of the quotients with the remainders stay in 128 bits while the result does in 64:
their sum is at most `denom` times the result. -/
theorem cross_lt {x y cross k : Nat} (hcross : cross = x / denom * (y % denom) +
    x % denom * (y / denom)) (hk : x * y / (denom * denom) = k) (hlt : k < 2 ^ 64) :
    cross < 2 ^ 128 := by
  have hdiv : cross / denom ≤ k := by
    rw [← hk, mul_div_by_parts denom_pos x y hcross]
    exact (Nat.le_add_left _ _).trans (Nat.le_add_right _ _)
  exact ((Nat.div_lt_iff_lt_mul denom_pos).1 (hdiv.trans_lt hlt)).trans (by decide)

/-- The remainders alone add up to less than two. -/
theorem carry_lt (x y z : Nat) :
    z % denom * denom + x % denom * (y % denom) < 2 * (denom * denom) := by
  have hrem := Nat.mul_lt_mul_of_pos_right (Nat.mod_lt z denom_pos) denom_pos
  have hlo := Nat.mul_lt_mul'' (Nat.mod_lt x denom_pos) (Nat.mod_lt y denom_pos)
  omega

theorem fastMulFloorU64_eq_ok {n : UInt64} (ha : a.raw < 2 ^ 128) (hb : b.raw < 2 ^ 128) :
    fastMulFloorU64 a b = .ok n ↔ n.toNat = a.raw * b.raw / (denom * denom) := by
  simp only [fastMulFloorU64, bind_eq_ok, rawU128_eq_ok, expect_eq_ok, unwrap_eq_ok,
    Option.bind_eq_some_iff, checkedMulU128_eq_some, checkedAddU128_eq_some, toU64_eq_some,
    BitVec.toNat_udiv, BitVec.toNat_umod, denomU128_toNat]
  constructor
  · rintro ⟨x, hx, y, hy, d2, hd2, c, hc, c', hc', cross, hcross, lo, hlo, carry,
      ⟨v, hv, hcarry⟩, hi, hhi, result, ⟨w, hw, hresult⟩, hn⟩
    rw [hc, hc', hx, hy] at hcross
    rw [hn, hresult, hw, hhi, hcarry, hv, hlo, hd2, hx, hy]
    exact (mul_div_by_parts denom_pos a.raw b.raw hcross).symm
  · intro hn
    have hn64 := n.toNat_lt
    obtain ⟨k, hk⟩ : ∃ k, k = a.raw / denom * (b.raw % denom) + a.raw % denom * (b.raw / denom) :=
      ⟨_, rfl⟩
    have hparts := mul_div_by_parts denom_pos a.raw b.raw hk
    have hcross := cross_lt hk hn.symm hn64
    have hcarry := (carry_lt a.raw b.raw k).trans (by decide : 2 * (denom * denom) < 2 ^ 128)
    rw [← hn] at hparts
    have hw : a.raw / denom * (b.raw / denom) + k / denom < 2 ^ 128 := by
      have : a.raw / denom * (b.raw / denom) + k / denom ≤ n.toNat := hparts ▸ Nat.le_add_right _ _
      omega
    obtain ⟨x, hx⟩ := exists_u128 ha
    obtain ⟨y, hy⟩ := exists_u128 hb
    obtain ⟨d2, hd2⟩ := exists_u128 (k := denom * denom) (by decide)
    obtain ⟨c, hc⟩ := exists_u128 (k := a.raw / denom * (b.raw % denom)) (by omega)
    obtain ⟨c', hc'⟩ := exists_u128 (k := a.raw % denom * (b.raw / denom)) (by omega)
    obtain ⟨cross, hcross⟩ := exists_u128 hcross
    obtain ⟨lo, hlo⟩ := exists_u128 ((Nat.le_add_left _ _).trans_lt hcarry)
    obtain ⟨v, hv⟩ := exists_u128 ((Nat.le_add_right _ _).trans_lt hcarry)
    obtain ⟨carry, hcarry⟩ := exists_u128 hcarry
    obtain ⟨hi, hhi⟩ := exists_u128 ((Nat.le_add_right _ _).trans_lt hw)
    obtain ⟨w, hw⟩ := exists_u128 hw
    obtain ⟨result, hresult⟩ := exists_u128 (k := n.toNat) (by omega)
    refine ⟨x, hx, y, hy, d2, hd2, c, ?_, c', ?_, cross, ?_, lo, ?_, carry, ⟨v, ?_, ?_⟩, hi, ?_,
      result, ⟨w, ?_, ?_⟩, hresult.symm⟩
    · rw [hc, hx, hy]
    · rw [hc', hx, hy]
    · rw [hcross, hc, hc', hk]
    · rw [hlo, hx, hy]
    · rw [hv, hcross]
    · rw [hcarry, hv, hlo]
    · rw [hhi, hx, hy]
    · rw [hw, hhi, hcross]
    · rw [hresult, hw, hcarry, hd2, hparts]

/-- **The product by parts is the exact one, rounded down,** and it is computed whenever it fits a
`u64`. -/
theorem fastMulFloorU64_total (ha : a.raw < 2 ^ 128) (hb : b.raw < 2 ^ 128) :
    (a.raw * b.raw / (denom * denom) < 2 ^ 64 →
      ∃ n, fastMulFloorU64 a b = .ok n ∧ n.toNat = a.raw * b.raw / (denom * denom)) ∧
    (¬ a.raw * b.raw / (denom * denom) < 2 ^ 64 →
      ∃ p, fastMulFloorU64 a b = .error (.panic p)) := by
  constructor
  · intro hfit
    obtain ⟨n, hn⟩ := exists_toNat.2 hfit
    exact ⟨n, (fastMulFloorU64_eq_ok ha hb).2 hn, hn⟩
  · intro hover
    rcases OnlyAborts.cases (x := fastMulFloorU64 a b) with ⟨n, hn⟩ | hp
    · exact absurd ((fastMulFloorU64_eq_ok ha hb).1 hn ▸ n.toNat_lt) hover
    · exact hp

/-- One operand is close to the largest, the other below one. -/
theorem fastMulFloorU64_total_split :
    (2 ^ 127 < 2 ^ 128 ∧ 10 ^ 5 < 2 ^ 128) ∧
    (∃ n, fastMulFloorU64 ⟨2 ^ 127, by decide⟩ ⟨10 ^ 5, by decide⟩ = .ok n ∧
      n.toNat = 2 ^ 127 * 10 ^ 5 / (denom * denom)) ∧
    ∃ p, fastMulFloorU64 ⟨2 ^ 127, by decide⟩ ⟨2 ^ 127, by decide⟩ = .error (.panic p) :=
  ⟨by decide,
    (fastMulFloorU64_total (a := ⟨2 ^ 127, by decide⟩) (b := ⟨10 ^ 5, by decide⟩)
      (by decide) (by decide)).1 (by decide +kernel),
    (fastMulFloorU64_total (a := ⟨2 ^ 127, by decide⟩) (b := ⟨2 ^ 127, by decide⟩)
      (by decide) (by decide)).2 (by decide +kernel)⟩

/-! ## What the plain operations return -/

theorem fromU128_eq_ok {v : U128} : fromU128 v = .ok p ↔ p.raw = v.toNat * denom := by
  rw [fromU128, unwrap_eq_ok, ofRaw_eq_some]

theorem floorU128_of_raw {n : U128} (hn : n.toNat = a.raw / denom) : a.floorU128 = .ok n := by
  obtain ⟨w, hw, hraw⟩ : ∃ w, a.floor = some w ∧ w.raw = n.toNat * denom :=
    ⟨⟨_, (Nat.div_mul_le_self _ _).trans_lt a.isLt⟩, ofRaw_eq_some.2 rfl, by rw [hn]⟩
  have hround : w.toImprecise = some n.toNat := by
    have hfit : n.toNat * denom + roundingCorrection < 2 ^ 256 := add_half_lt (hraw ▸ w.isLt)
    rw [toImprecise, hraw, if_pos hfit, round_mul_denom, if_pos n.isLt]
  rw [floorU128, unwrap_eq_ok.2 hw, ok_bind, unwrap_eq_ok.2 hround, ok_bind, BitVec.ofNat_toNat,
    BitVec.setWidth_eq]

/-- Dividing by a whole number leaves nothing to round. -/
theorem div_natural_of_raw {n : UInt64} (ha : a.raw < 2 ^ 128) (hn : n.toNat ≠ 0)
    (hp : p.raw = a.raw / n.toNat) : a.div (fromNaturalU64 n) = .ok p := by
  have hb : (fromNaturalU64 n).raw ≠ 0 := (Nat.mul_pos (Nat.pos_of_ne_zero hn) denom_pos).ne'
  have hwide : a.raw * denom < 2 ^ 256 :=
    (Nat.mul_lt_mul_of_pos_right ha denom_pos).trans (by decide)
  rw [div, unwrap_eq_ok, checkedDiv_of_fits hb (add_half_lt hwide), ofRaw_eq_some,
    fromNaturalU64_raw, Nat.mul_comm n.toNat, ← Nat.div_div_eq_div_mul, round_mul_denom]
  exact hp

theorem mul_natural_of_raw {n : UInt64} (hfit : a.raw * n.toNat < 2 ^ 128)
    (hp : p.raw = a.raw * n.toNat) : a.mul (fromNaturalU64 n) = .ok p := by
  have hwide : a.raw * n.toNat * denom < 2 ^ 256 :=
    (Nat.mul_lt_mul_of_pos_right hfit denom_pos).trans (by decide)
  obtain ⟨q, hq, hraw⟩ := mul_natural_raw (a := a) (n := n)
    (by rw [fromNaturalU64_raw, ← Nat.mul_assoc]; exact add_half_lt hwide)
  rw [hq, ext_iff.2 (hp.trans hraw.symm)]

/-- The plain product rounds to nearest, and then down. -/
theorem mul_floor_eq_ok {n : UInt64} (ha : a.raw < 2 ^ 128) (hb : b.raw < 2 ^ 128) :
    (a.mul b >>= floorU64) = .ok n ↔
      n.toNat = (a.raw * b.raw + roundingCorrection) / (denom * denom) := by
  have hwide : a.raw * b.raw + roundingCorrection < 2 ^ 256 := by
    have hle := Nat.mul_le_mul (Nat.le_sub_one_of_lt ha) (Nat.le_sub_one_of_lt hb)
    exact (Nat.add_le_add_right hle _).trans_lt (by decide)
  simp only [bind_eq_ok, mul, unwrap_eq_ok, checkedMul_of_fits hwide, ofRaw_eq_some,
    floorU64_eq_ok, ← Nat.div_div_eq_div_mul]
  constructor
  · rintro ⟨q, hq, hn⟩
    rw [hn, hq]
  · intro hn
    exact ⟨⟨_, (Nat.div_le_self _ _).trans_lt hwide⟩, rfl, hn⟩

/-- Less than half a unit below a whole number, the plain product is one larger than the fast
one. -/
theorem mul_floor_eq_succ {n m : UInt64} (ha : a.raw < 2 ^ 128) (hb : b.raw < 2 ^ 128)
    (hclose : denom * denom ≤ a.raw * b.raw % (denom * denom) + roundingCorrection)
    (hfast : fastMulFloorU64 a b = .ok n) (hplain : (a.mul b >>= floorU64) = .ok m) :
    m.toNat = n.toNat + 1 := by
  have hhalf : roundingCorrection < denom * denom := by decide
  rw [fastMulFloorU64_eq_ok ha hb] at hfast
  rw [mul_floor_eq_ok ha hb, add_div_of_lt hhalf, if_pos hclose] at hplain
  rw [hplain, hfast]

/-! ## Agreement -/

/-- **The fast operations do what the plain ones do** wherever the result fits 128 bits, but for the
product rounded down: it is the plain one iff the exact product is not less than half a unit below a
whole number. -/
theorem fast_agree (ha : a.raw < 2 ^ 128) (hb : b.raw < 2 ^ 128) :
    AgreeWhen (a.raw + b.raw < 2 ^ 128) (fastAddU128 a b) (a.add b) ∧
    AgreeWhen (b.raw ≤ a.raw) (fastSubU128 a b) (a.sub b) ∧
    AgreeWhen True (fastFloorU128 a) (floorU128 a) ∧
    (∀ v : U128, AgreeWhen (v.toNat * denom < 2 ^ 128) (fastFromU128 v) (fromU128 v)) ∧
    (∀ n, AgreeWhen (a.raw * n.toNat < 2 ^ 128) (fastMulU64 a n) (a.mul (fromNaturalU64 n))) ∧
    (∀ n, AgreeWhen (n.toNat ≠ 0) (fastDivU64 a n) (a.div (fromNaturalU64 n))) ∧
    (a.raw * b.raw / (denom * denom) < 2 ^ 64 → ∃ n, fastMulFloorU64 a b = .ok n ∧
      ((a.mul b >>= floorU64) = .ok n ↔
        a.raw * b.raw % (denom * denom) + roundingCorrection < denom * denom)) := by
  have hhalf : roundingCorrection < denom * denom := by decide
  refine ⟨?add, ?sub, ?floor, fun v => ?ofU128, fun n => ?mul, fun n => ?div,
    fun hfit => ?mulFloor⟩
  case add =>
    refine .of_spec (fun _ => fastAddU128_eq_ok) (fun _ _ => add_eq_ok.2) fun hfit => ?_
    exact ⟨⟨_, hfit.trans (by decide)⟩, rfl⟩
  case sub =>
    refine .of_spec (fun _ => fastSubU128_eq_ok ha) (fun _ _ => sub_eq_ok.2) fun hle => ?_
    exact ⟨⟨a.raw - b.raw, (Nat.sub_le _ _).trans_lt a.isLt⟩, Nat.sub_add_cancel hle⟩
  case floor =>
    refine .of_spec (fun _ => (fastFloorU128_eq_ok ha).trans (iff_of_eq (true_and _)).symm)
      (fun _ _ => floorU128_of_raw) fun _ => ?_
    exact exists_u128 ((Nat.div_le_self _ _).trans_lt ha)
  case ofU128 =>
    refine .of_spec (fun _ => fastFromU128_eq_ok) (fun _ _ => fromU128_eq_ok.2) fun hfit => ?_
    exact ⟨⟨_, hfit.trans (by decide)⟩, rfl⟩
  case mul =>
    refine .of_spec (fun _ => fastMulU64_eq_ok ha) (fun _ => mul_natural_of_raw) fun hfit => ?_
    exact ⟨⟨_, hfit.trans (by decide)⟩, rfl⟩
  case div =>
    refine .of_spec (fun _ => fastDivU64_eq_ok ha) (fun _ => div_natural_of_raw ha) fun _ => ?_
    exact ⟨⟨_, (Nat.div_le_self _ _).trans_lt a.isLt⟩, rfl⟩
  case mulFloor =>
    obtain ⟨n, hn⟩ := exists_toNat.2 hfit
    refine ⟨n, (fastMulFloorU64_eq_ok ha hb).2 hn, ?_⟩
    rw [mul_floor_eq_ok ha hb, hn, ← add_div_eq_iff hhalf]
    exact eq_comm

theorem fast_agree_tenths :
    (31 * 10 ^ 11 < 2 ^ 128 ∧ 7 * 10 ^ 11 < 2 ^ 128) ∧
    (∃ p, fastAddU128 ⟨31 * 10 ^ 11, by decide⟩ ⟨7 * 10 ^ 11, by decide⟩ = .ok p ∧
      add ⟨31 * 10 ^ 11, by decide⟩ ⟨7 * 10 ^ 11, by decide⟩ = .ok p) ∧
    ∃ n, fastMulFloorU64 ⟨31 * 10 ^ 11, by decide⟩ ⟨7 * 10 ^ 11, by decide⟩ = .ok n ∧
      (mul ⟨31 * 10 ^ 11, by decide⟩ ⟨7 * 10 ^ 11, by decide⟩ >>= floorU64) = .ok n := by
  have h := fast_agree (a := ⟨31 * 10 ^ 11, by decide⟩) (b := ⟨7 * 10 ^ 11, by decide⟩)
    (by decide) (by decide)
  obtain ⟨n, hfast, hplain⟩ := h.2.2.2.2.2.2 (by decide)
  exact ⟨by decide, h.1.agree (by decide), n, hfast, hplain.2 (by decide)⟩

/-- Just below one: the fast product is rounded down, the plain one to nearest first. -/
theorem not_fastMulFloorU64_agrees :
    ¬ ∀ a b : Number, a.raw < 2 ^ 128 → b.raw < 2 ^ 128 →
      ∀ n, fastMulFloorU64 a b = .ok n → (a.mul b >>= floorU64) = .ok n := by
  intro h
  have hplain := h ⟨10 ^ 24 - 1, by decide⟩ ⟨1, by decide⟩ (by decide) (by decide) 0
    (by decide +kernel)
  exact absurd hplain (by decide +kernel)

end Number

end ExponentCore
