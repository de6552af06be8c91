import ExponentCore.Vault.Proof.State

/-!
# The rounding corrections make no difference

The library adds half a unit before every division that truncates, and takes a way around a product
that leaves 256 bits. `Arithmetic` has the three operations that do so, with the conversions of the
program over any of them: over `Arithmetic.library` they are the program's (`library_syToPy` and the
lemmas beside it). `Arithmetic.corrected c` adds `c` in the place of half a unit, and fails where
the library takes the way around.

`conversions_exact`: the program's conversions, and those with any correction up to half a unit,
return the exact quotient, rounded down (up, for `syToPyCeil`).

`calcSyAppreciation` multiplies before it divides, and is only exact while the product with a unit
stays within 256 bits (`not_calcSyAppreciation_exact`).
-/

set_option autoImplicit false

namespace ExponentCore

open Number

/-- The operations that round. -/
structure Arithmetic where
  mul : Number → Number → Option Number
  div : Number → Number → Option Number
  toImprecise : Number → Option Nat

namespace Arithmetic

def library : Arithmetic := ⟨checkedMul, checkedDiv, Number.toImprecise⟩

/-- With the correction `c`, and no result for a number that leaves 256 bits on the way. -/
def corrected (c : Nat) : Arithmetic where
  mul a b :=
    if a.raw * b.raw + c < 2 ^ 256 then ofRaw ((a.raw * b.raw + c) / denom) else none
  div a b :=
    if b.raw ≠ 0 ∧ a.raw * denom + c < 2 ^ 256 then ofRaw ((a.raw * denom + c) / b.raw) else none
  toImprecise a :=
    if a.raw + c < 2 ^ 256 ∧ (a.raw + c) / denom < 2 ^ 128 then some ((a.raw + c) / denom) else none

/-! ## The conversions over an arithmetic -/

section
variable (A : Arithmetic)

def floorU64 (a : Number) : Outcome UInt64 := do
  let whole ← unwrap a.floor
  let n ← unwrap (A.toImprecise whole)
  unwrap (toU64 n)

def ceilU64 (a : Number) : Outcome UInt64 := do
  let whole ← unwrap a.ceiling
  let n ← unwrap (A.toImprecise whole)
  unwrap (toU64 n)

def fromRatio (num den : UInt64) : Number :=
  (A.div (fromNaturalU64 num) (fromNaturalU64 den)).getD 0

def syToPy (syExchangeRate : Number) (amountSy : UInt64) : Outcome UInt64 := do
  let py ← unwrap (A.mul (fromNaturalU64 amountSy) syExchangeRate)
  A.floorU64 py

def syToPyCeil (syExchangeRate : Number) (amountSy : UInt64) : Outcome UInt64 := do
  let py ← unwrap (A.mul (fromNaturalU64 amountSy) syExchangeRate)
  A.ceilU64 py

def pyToSy (syExchangeRate : Number) (amountPy : UInt64) : Outcome UInt64 := do
  let sy ← unwrap (A.div (fromNaturalU64 amountPy) syExchangeRate)
  A.floorU64 sy

def syBackingForPt (syExchangeRate : Number) (ptSupply syInEscrow : UInt64) : Outcome UInt64 :=
  if syExchangeRate = 0 then .ok 0
  else do
    let syNormal ← unwrap (A.div (fromNaturalU64 ptSupply) syExchangeRate)
    let syNormal ← A.floorU64 syNormal
    .ok (min syNormal syInEscrow)

def calcShareValue (lastSeenIndex curIndex : Number) (shareBalance : UInt64) : Outcome UInt64 :=
  if curIndex ≤ lastSeenIndex then .ok 0
  else do
    let delta ← curIndex.sub lastSeenIndex
    let earned ← unwrap (A.mul delta (fromNaturalU64 shareBalance))
    A.floorU64 earned

def calcSyAppreciation (lastSeenRate currentRate : Number) (syBalance : UInt64) :
    Outcome UInt64 :=
  if currentRate ≤ lastSeenRate then .ok 0
  else do
    let delta ← currentRate.sub lastSeenRate
    let appreciation ← unwrap (A.mul delta (fromNaturalU64 syBalance))
    let sy ← unwrap (A.div appreciation currentRate)
    A.floorU64 sy

end

/-- The operations add `c` before they truncate, wherever the sum stays within 256 bits. -/
structure Adds (A : Arithmetic) (c : Nat) : Prop where
  mul : ∀ {a b}, a.raw * b.raw + c < 2 ^ 256 → A.mul a b = ofRaw ((a.raw * b.raw + c) / denom)
  div : ∀ {a b}, b.raw ≠ 0 → a.raw * denom + c < 2 ^ 256 →
    A.div a b = ofRaw ((a.raw * denom + c) / b.raw)
  divZero : ∀ {a b}, b.raw = 0 → A.div a b = none
  toImprecise : ∀ {a}, a.raw + c < 2 ^ 256 → (a.raw + c) / denom < 2 ^ 128 →
    A.toImprecise a = some ((a.raw + c) / denom)

/-! ## The arithmetic of the library -/

section
variable (r s : Number) (n m : UInt64)

theorem library_floorU64 : library.floorU64 r = Number.floorU64 r := by
  rw [floorU64, Number.floorU64, library]

theorem library_ceilU64 : library.ceilU64 r = Number.ceilU64 r := by
  rw [ceilU64, Number.ceilU64, library]

theorem library_mul : unwrap (library.mul r s) = r.mul s := by
  rw [library, Number.mul]

theorem library_div : unwrap (library.div r s) = r.div s := by
  rw [library, Number.div]

theorem library_syToPy : library.syToPy r n = ExponentCore.syToPy r n := by
  simp only [syToPy, ExponentCore.syToPy, library_mul, library_floorU64]

theorem library_syToPyCeil : library.syToPyCeil r n = ExponentCore.syToPyCeil r n := by
  simp only [syToPyCeil, ExponentCore.syToPyCeil, library_mul, library_ceilU64]

theorem library_pyToSy : library.pyToSy r n = ExponentCore.pyToSy r n := by
  simp only [pyToSy, ExponentCore.pyToSy, library_div, library_floorU64]

theorem library_syBackingForPt :
    library.syBackingForPt r n m = ExponentCore.syBackingForPt r n m := by
  simp only [syBackingForPt, ExponentCore.syBackingForPt, library_div, library_floorU64]

theorem library_fromRatio : library.fromRatio n m = Number.fromRatio n m := by
  rw [fromRatio, Number.fromRatio, library]

theorem library_calcShareValue :
    library.calcShareValue r s n = ExponentCore.calcShareValue r s n := by
  simp only [calcShareValue, ExponentCore.calcShareValue, library_mul, library_floorU64]

theorem library_calcSyAppreciation :
    library.calcSyAppreciation r s n = ExponentCore.calcSyAppreciation r s n := by
  simp only [calcSyAppreciation, ExponentCore.calcSyAppreciation, library_mul, library_div,
    library_floorU64]

end

theorem library_adds : library.Adds roundingCorrection where
  mul h := checkedMul_of_fits h
  div hb h := checkedDiv_of_fits hb h
  divZero hb := if_pos hb
  toImprecise h h' := by
    simp only [library, Number.toImprecise, if_pos h, if_pos h']

theorem corrected_adds (c : Nat) : (corrected c).Adds c where
  mul h := if_pos h
  div hb h := if_pos ⟨hb, h⟩
  divZero hb := if_neg fun h => h.1 hb
  toImprecise h h' := if_pos ⟨h, h'⟩

/-! ## What they return -/

section
variable {A : Arithmetic} {c : Nat} (hA : A.Adds c) (hc : c ≤ roundingCorrection)
include hc

theorem add_correction_lt {k : Nat} (h : k * denom < 2 ^ 256) : k * denom + c < 2 ^ 256 :=
  (Nat.add_le_add_left hc _).trans_lt (add_half_lt h)

theorem add_correction_div (k : Nat) : (k * denom + c) / denom = k := by
  rw [Nat.add_comm, Nat.add_mul_div_right _ _ denom_pos,
    Nat.div_eq_of_lt (hc.trans_lt roundingCorrection_lt), Nat.zero_add]

/-- The correction disappears when the quotient is rounded down. -/
theorem add_correction_div_div (k d : Nat) : (k * denom + c) / d / denom = k / d := by
  rw [Nat.div_div_eq_div_mul, Nat.mul_comm d, ← Nat.div_div_eq_div_mul, add_correction_div hc]

include hA

theorem toImprecise_whole {w : Number} {k : Nat} (hw : w.raw = k * denom) (hk : k < 2 ^ 64) :
    A.toImprecise w = some k := by
  have hfit : w.raw + c < 2 ^ 256 := hw ▸ add_correction_lt hc (hw ▸ w.isLt)
  have hdiv : (w.raw + c) / denom = k := by rw [hw, add_correction_div hc]
  rw [hA.toImprecise hfit (hdiv ▸ hk.trans (by decide)), hdiv]

theorem floorU64_of_raw {p : Number} {n : UInt64} (hn : n.toNat = p.raw / denom) :
    A.floorU64 p = .ok n := by
  obtain ⟨w, hw, hraw⟩ : ∃ w, p.floor = some w ∧ w.raw = n.toNat * denom :=
    ⟨⟨_, (Nat.div_mul_le_self _ _).trans_lt p.isLt⟩, ofRaw_eq_some.2 rfl, by rw [hn]⟩
  have hround := toImprecise_whole hA hc hraw n.toNat_lt
  simp only [floorU64, unwrap_eq_ok.2 hw, ok_bind, unwrap_eq_ok.2 hround]
  exact unwrap_eq_ok.2 (toU64_eq_some.2 rfl)

theorem ceilU64_of_raw {p : Number} {n : UInt64} (hn : n.toNat = (p.raw + denom - 1) / denom) :
    A.ceilU64 p = .ok n := by
  have hsmall : p.raw + denom < 2 ^ 256 := by
    have hlt : p.raw + denom - 1 < 2 ^ 64 * denom :=
      (Nat.div_lt_iff_lt_mul denom_pos).1 (hn ▸ n.toNat_lt)
    have hbound : 2 ^ 64 * denom + 1 < 2 ^ 256 := by decide
    omega
  obtain ⟨w, hw, hraw⟩ : ∃ w, p.ceiling = some w ∧ w.raw = n.toNat * denom := by
    refine ⟨⟨n.toNat * denom, ?_⟩, ?_, rfl⟩
    · exact (Nat.mul_lt_mul_of_pos_right n.toNat_lt denom_pos).trans (by decide)
    · rw [ceiling, if_pos hsmall, ofRaw_eq_some]
      exact congrArg (· * denom) hn
  have hround := toImprecise_whole hA hc hraw n.toNat_lt
  simp only [ceilU64, unwrap_eq_ok.2 hw, ok_bind, unwrap_eq_ok.2 hround]
  exact unwrap_eq_ok.2 (toU64_eq_some.2 rfl)

/-- A product that is a whole number of units is exact. -/
theorem mul_exact {x y : Number} {k : Nat} (hxy : x.raw * y.raw = k * denom)
    (hk : k * denom < 2 ^ 256) : ∃ q, A.mul x y = some q ∧ q.raw = k := by
  have hfit := add_correction_lt hc hk
  have hlt : k < 2 ^ 256 := (Nat.le_mul_of_pos_right k denom_pos).trans_lt hk
  refine ⟨⟨k, hlt⟩, ?_, rfl⟩
  rw [hA.mul (hxy ▸ hfit), hxy, add_correction_div hc, ofRaw_eq_some]

omit hc in
theorem div_raw {x y : Number} (hy : y.raw ≠ 0) (hfit : x.raw * denom + c < 2 ^ 256) :
    ∃ q, A.div x y = some q ∧ q.raw = (x.raw * denom + c) / y.raw :=
  ⟨⟨_, (Nat.div_le_self _ _).trans_lt hfit⟩, (hA.div hy hfit).trans (ofRaw_eq_some.2 rfl), rfl⟩

/-- Half a unit more or less of a product with a whole number is rounded away. -/
theorem natural_mul_exact {rate : Number} {amount : UInt64}
    (hfit : amount.toNat * rate.raw < 2 ^ 64 * denom) :
    ∃ q, A.mul (fromNaturalU64 amount) rate = some q ∧ q.raw = amount.toNat * rate.raw := by
  refine mul_exact hA hc ?_ ((Nat.mul_lt_mul_of_pos_right hfit denom_pos).trans (by decide))
  rw [fromNaturalU64_raw, Nat.mul_right_comm]

variable {rate : Number} {amount n : UInt64}

theorem syToPy_exact (hn : n.toNat = amount.toNat * rate.raw / denom) :
    A.syToPy rate amount = .ok n := by
  have hfit : amount.toNat * rate.raw < 2 ^ 64 * denom :=
    (Nat.div_lt_iff_lt_mul denom_pos).1 (hn ▸ n.toNat_lt)
  obtain ⟨q, hq, hraw⟩ := natural_mul_exact hA hc hfit
  rw [syToPy, unwrap_eq_ok.2 hq, ok_bind]
  exact floorU64_of_raw hA hc (by rw [hraw, hn])

theorem syToPyCeil_exact (hn : n.toNat = (amount.toNat * rate.raw + denom - 1) / denom) :
    A.syToPyCeil rate amount = .ok n := by
  have hfit : amount.toNat * rate.raw < 2 ^ 64 * denom := by
    have hlt := (Nat.div_lt_iff_lt_mul denom_pos).1 (hn ▸ n.toNat_lt)
    have hdenom := denom_pos
    omega
  obtain ⟨q, hq, hraw⟩ := natural_mul_exact hA hc hfit
  rw [syToPyCeil, unwrap_eq_ok.2 hq, ok_bind]
  exact ceilU64_of_raw hA hc (by rw [hraw, hn])

/-- The quotient of a whole number, before it is rounded down. -/
theorem natural_div_raw (amount : UInt64) (hrate : rate.raw ≠ 0) :
    ∃ q, A.div (fromNaturalU64 amount) rate = some q ∧
      q.raw = (amount.toNat * denom * denom + c) / rate.raw := by
  refine div_raw hA hrate (add_correction_lt hc ?_)
  rw [fromNaturalU64_raw]
  exact (Nat.mul_lt_mul_of_pos_right (Nat.mul_lt_mul_of_pos_right amount.toNat_lt denom_pos)
    denom_pos).trans (by decide)

theorem pyToSy_exact (hrate : rate.raw ≠ 0) (hn : n.toNat = amount.toNat * denom / rate.raw) :
    A.pyToSy rate amount = .ok n := by
  obtain ⟨q, hq, hraw⟩ := natural_div_raw hA hc amount hrate
  rw [pyToSy, unwrap_eq_ok.2 hq, ok_bind]
  exact floorU64_of_raw hA hc (by rw [hraw, add_correction_div_div hc, hn])

theorem syBackingForPt_exact {syInEscrow : UInt64} (hrate : rate.raw ≠ 0)
    (hn : n.toNat = amount.toNat * denom / rate.raw) :
    A.syBackingForPt rate amount syInEscrow = .ok (min n syInEscrow) := by
  obtain ⟨q, hq, hraw⟩ := natural_div_raw hA hc amount hrate
  have hfloor := floorU64_of_raw hA hc (p := q) (n := n)
    (by rw [hraw, add_correction_div_div hc, hn])
  rw [syBackingForPt, if_neg fun h0 => hrate (eq_zero_iff.1 h0), unwrap_eq_ok.2 hq, ok_bind,
    hfloor, ok_bind]

theorem fromRatio_exact (num den : UInt64) :
    (A.fromRatio num den).raw = num.toNat * denom / den.toNat := by
  by_cases hden : (fromNaturalU64 den).raw = 0
  · have hzero : den.toNat = 0 := (Nat.mul_eq_zero.1 hden).resolve_right denom_pos.ne'
    rw [fromRatio, hA.divZero hden, hzero, Nat.div_zero]
    rfl
  · obtain ⟨q, hq, hraw⟩ := natural_div_raw hA hc num hden
    rw [fromRatio, hq, Option.getD_some, hraw, fromNaturalU64_raw, Nat.mul_comm den.toNat,
      ← Nat.div_div_eq_div_mul, add_correction_div hc]

/-- What a growing index earns, in units. -/
theorem delta_mul_exact {delta : Number} {balance : UInt64}
    (hfit : delta.raw * balance.toNat * denom < 2 ^ 256) :
    ∃ q, A.mul delta (fromNaturalU64 balance) = some q ∧ q.raw = delta.raw * balance.toNat := by
  refine mul_exact hA hc ?_ hfit
  rw [fromNaturalU64_raw, Nat.mul_assoc]

omit hA hc in
theorem exists_sub {last cur : Number} (h : ¬ cur ≤ last) :
    ∃ d, cur.sub last = .ok d ∧ d.raw = cur.raw - last.raw := by
  have hlt : last.raw < cur.raw := lt_def.1 (not_le.1 h)
  exact ⟨⟨cur.raw - last.raw, (Nat.sub_le _ _).trans_lt cur.isLt⟩,
    sub_eq_ok.2 (Nat.sub_add_cancel hlt.le), rfl⟩

theorem calcShareValue_exact {last cur : Number}
    (hn : n.toNat = (cur.raw - last.raw) * amount.toNat / denom) :
    A.calcShareValue last cur amount = .ok n := by
  unfold calcShareValue
  split
  · rename_i hle
    rw [Nat.sub_eq_zero_of_le (le_def.1 hle), Nat.zero_mul, Nat.zero_div] at hn
    rw [UInt64.toNat_inj.1 (hn.trans UInt64.toNat_zero.symm)]
  · rename_i hgt
    obtain ⟨d, hd, hdraw⟩ := exists_sub hgt
    rw [← hdraw] at hn
    have hsmall : d.raw * amount.toNat < 2 ^ 64 * denom :=
      (Nat.div_lt_iff_lt_mul denom_pos).1 (hn ▸ n.toNat_lt)
    obtain ⟨q, hq, hraw⟩ := delta_mul_exact hA hc
      ((Nat.mul_lt_mul_of_pos_right hsmall denom_pos).trans (by decide))
    rw [hd, ok_bind, unwrap_eq_ok.2 hq, ok_bind]
    exact floorU64_of_raw hA hc (by rw [hraw, hn])

theorem calcSyAppreciation_exact {last cur : Number}
    (hfit : (cur.raw - last.raw) * amount.toNat * denom < 2 ^ 256)
    (hn : n.toNat = (cur.raw - last.raw) * amount.toNat / cur.raw) :
    A.calcSyAppreciation last cur amount = .ok n := by
  unfold calcSyAppreciation
  split
  · rename_i hle
    rw [Nat.sub_eq_zero_of_le (le_def.1 hle), Nat.zero_mul, Nat.zero_div] at hn
    rw [UInt64.toNat_inj.1 (hn.trans UInt64.toNat_zero.symm)]
  · rename_i hgt
    have hcur : cur.raw ≠ 0 := ((Nat.zero_le _).trans_lt (lt_def.1 (not_le.1 hgt))).ne'
    obtain ⟨d, hd, hdraw⟩ := exists_sub hgt
    rw [← hdraw] at hfit hn
    obtain ⟨p, hp, hpraw⟩ := delta_mul_exact hA hc hfit
    obtain ⟨q, hq, hraw⟩ := div_raw hA hcur (x := p) (add_correction_lt hc (hpraw ▸ hfit))
    rw [hd, ok_bind, unwrap_eq_ok.2 hp, ok_bind, unwrap_eq_ok.2 hq, ok_bind]
    exact floorU64_of_raw hA hc (by rw [hraw, hpraw, add_correction_div_div hc, hn])

end

end Arithmetic

open Arithmetic

/-- **The conversions are exact floors,** and a ceiling for `syToPyCeil`. They are so with any
correction up to half a unit, and without the way around an overflow. -/
theorem conversions_exact {b : Number} (hb : 0 < b.raw) :
    (∀ amountSy n : UInt64, n.toNat = amountSy.toNat * b.raw / denom →
      syToPy b amountSy = .ok n ∧
      ∀ c ≤ roundingCorrection, (corrected c).syToPy b amountSy = .ok n) ∧
    (∀ amountSy n : UInt64, n.toNat = (amountSy.toNat * b.raw + denom - 1) / denom →
      syToPyCeil b amountSy = .ok n ∧
      ∀ c ≤ roundingCorrection, (corrected c).syToPyCeil b amountSy = .ok n) ∧
    (∀ amountPy n : UInt64, n.toNat = amountPy.toNat * denom / b.raw →
      pyToSy b amountPy = .ok n ∧
      ∀ c ≤ roundingCorrection, (corrected c).pyToSy b amountPy = .ok n) ∧
    (∀ ptSupply syInEscrow n : UInt64, n.toNat = ptSupply.toNat * denom / b.raw →
      syBackingForPt b ptSupply syInEscrow = .ok (min n syInEscrow) ∧
      ∀ c ≤ roundingCorrection,
        (corrected c).syBackingForPt b ptSupply syInEscrow = .ok (min n syInEscrow)) ∧
    (∀ v : Vault, v.ptRedemptionRate.raw = v.syForPt.toNat * denom / v.ptSupply.toNat ∧
      ∀ c ≤ roundingCorrection, ((corrected c).fromRatio v.syForPt v.ptSupply).raw =
        v.syForPt.toNat * denom / v.ptSupply.toNat) ∧
    (∀ (last : Number) (shares n : UInt64), n.toNat = (b.raw - last.raw) * shares.toNat / denom →
      calcShareValue last b shares = .ok n ∧
      ∀ c ≤ roundingCorrection, (corrected c).calcShareValue last b shares = .ok n) ∧
    (∀ (last : Number) (sy n : UInt64), (b.raw - last.raw) * sy.toNat * denom < 2 ^ 256 →
      n.toNat = (b.raw - last.raw) * sy.toNat / b.raw →
      calcSyAppreciation last b sy = .ok n ∧
      ∀ c ≤ roundingCorrection, (corrected c).calcSyAppreciation last b sy = .ok n) := by
  have hne := hb.ne'
  refine ⟨fun a n hn => ⟨?_, fun c hc => syToPy_exact (corrected_adds c) hc hn⟩,
    fun a n hn => ⟨?_, fun c hc => syToPyCeil_exact (corrected_adds c) hc hn⟩,
    fun a n hn => ⟨?_, fun c hc => pyToSy_exact (corrected_adds c) hc hne hn⟩,
    fun a s n hn => ⟨?_, fun c hc => syBackingForPt_exact (corrected_adds c) hc hne hn⟩,
    fun v => ⟨?_, fun c hc => fromRatio_exact (corrected_adds c) hc _ _⟩,
    fun last a n hn => ⟨?_, fun c hc => calcShareValue_exact (corrected_adds c) hc hn⟩,
    fun last a n hfit hn =>
      ⟨?_, fun c hc => calcSyAppreciation_exact (corrected_adds c) hc hfit hn⟩⟩
  · exact (library_syToPy b a).symm.trans (syToPy_exact library_adds le_rfl hn)
  · exact (library_syToPyCeil b a).symm.trans (syToPyCeil_exact library_adds le_rfl hn)
  · exact (library_pyToSy b a).symm.trans (pyToSy_exact library_adds le_rfl hne hn)
  · exact (library_syBackingForPt b a s).symm.trans
      (syBackingForPt_exact library_adds le_rfl hne hn)
  · rw [Vault.ptRedemptionRate, ← library_fromRatio]
    exact fromRatio_exact library_adds le_rfl _ _
  · exact (library_calcShareValue last b a).symm.trans
      (calcShareValue_exact library_adds le_rfl hn)
  · exact (library_calcSyAppreciation last b a).symm.trans
      (calcSyAppreciation_exact library_adds le_rfl hfit hn)

/-- At a rate of 0.7. -/
theorem conversions_exact_belowOne :
    0 < 7 * 10 ^ 11 ∧
    syToPy ⟨7 * 10 ^ 11, by decide⟩ 3 = .ok 2 ∧ syToPyCeil ⟨7 * 10 ^ 11, by decide⟩ 3 = .ok 3 ∧
    pyToSy ⟨7 * 10 ^ 11, by decide⟩ 3 = .ok 4 ∧
    syBackingForPt ⟨7 * 10 ^ 11, by decide⟩ 3 10 = .ok 4 ∧
    calcShareValue 0 ⟨7 * 10 ^ 11, by decide⟩ 3 = .ok 2 ∧
    calcSyAppreciation ⟨3 * 10 ^ 11, by decide⟩ ⟨7 * 10 ^ 11, by decide⟩ 10 = .ok 5 := by
  have h := conversions_exact (b := ⟨7 * 10 ^ 11, by decide⟩) (by decide)
  exact ⟨by decide, (h.1 3 2 (by decide)).1, (h.2.1 3 3 (by decide)).1, (h.2.2.1 3 4 (by decide)).1,
    (h.2.2.2.1 3 10 4 (by decide)).1, (h.2.2.2.2.2.1 0 3 2 (by decide)).1,
    (h.2.2.2.2.2.2 ⟨3 * 10 ^ 11, by decide⟩ 10 5 (by decide) (by decide)).1⟩

/-- The rate grows from 0 to `2 ^ 216` units: the product leaves 256 bits, and the way around it
loses the last unit. -/
theorem not_calcSyAppreciation_exact :
    ¬ ∀ (last cur : Number) (sy n : UInt64), 0 < cur.raw →
      n.toNat = (cur.raw - last.raw) * sy.toNat / cur.raw →
      calcSyAppreciation last cur sy = .ok n := by
  intro h
  have hexact := h 0 ⟨2 ^ 216, by decide⟩ 1000 1000 (by decide) (by decide +kernel)
  exact absurd hexact (by decide +kernel)

end ExponentCore
