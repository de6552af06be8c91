import ExponentCore.Num.PreciseNumber

/-!
# Fast operations

Where the units of a number fit a `u128`, the `fast_*` methods compute on them directly. They do not
round to nearest. Most are the plain operation with a wider integer left out; `fastMulFloorU64`
multiplies two numbers by parts, because their product does not fit a `u128`.

Each operation has its own panic for the result that does not fit.
-/

set_option autoImplicit false

namespace ExponentCore

/-! ## Integers of 128 bits -/

abbrev U128 := BitVec 128

section
variable {a b c : U128}

def checkedAddU128 (a b : U128) : Option U128 :=
  if a.toNat + b.toNat < 2 ^ 128 then some (a + b) else none

def checkedSubU128 (a b : U128) : Option U128 :=
  if b.toNat ≤ a.toNat then some (a - b) else none

def checkedMulU128 (a b : U128) : Option U128 :=
  if a.toNat * b.toNat < 2 ^ 128 then some (a * b) else none

/-- The operator `/`, which panics when the divisor is zero. -/
def divU128 (a b : U128) : Outcome U128 :=
  if b = 0 then .error (.panic .arithmetic) else .ok (a / b)

/-- `as u128` on a `u64` -/
def asU128 (n : UInt64) : U128 := BitVec.ofNat 128 n.toNat

theorem checkedAddU128_eq_some : checkedAddU128 a b = some c ↔ c.toNat = a.toNat + b.toNat := by
  unfold checkedAddU128
  have hc := c.isLt
  split
  · rename_i h
    rw [Option.some.injEq, ← BitVec.toNat_inj, BitVec.toNat_add, Nat.mod_eq_of_lt h]
    exact eq_comm
  · simp only [reduceCtorEq, false_iff]; omega

theorem checkedSubU128_eq_some : checkedSubU128 a b = some c ↔ c.toNat + b.toNat = a.toNat := by
  unfold checkedSubU128
  split
  · rename_i h
    have hs : (a - b).toNat = a.toNat - b.toNat := BitVec.toNat_sub_of_le (BitVec.le_def.2 h)
    rw [Option.some.injEq, ← BitVec.toNat_inj, hs]; omega
  · simp only [reduceCtorEq, false_iff]; omega

theorem checkedMulU128_eq_some : checkedMulU128 a b = some c ↔ c.toNat = a.toNat * b.toNat := by
  unfold checkedMulU128
  have hc := c.isLt
  split
  · rename_i h
    rw [Option.some.injEq, ← BitVec.toNat_inj, BitVec.toNat_mul, Nat.mod_eq_of_lt h]
    exact eq_comm
  · simp only [reduceCtorEq, false_iff]; omega

theorem divU128_eq_ok :
    divU128 a b = .ok c ↔ b.toNat ≠ 0 ∧ c.toNat = a.toNat / b.toNat := by
  unfold divU128
  have hb : b = 0 ↔ b.toNat = 0 := BitVec.toNat_inj.symm
  split
  · rename_i h
    simp only [reduceCtorEq, hb.1 h, ne_eq, not_true_eq_false, false_and]
  · rename_i h
    rw [Except.ok.injEq, ← BitVec.toNat_inj, BitVec.toNat_udiv]
    exact ⟨fun hc => ⟨fun h0 => h (hb.2 h0), hc.symm⟩, fun hc => hc.2.symm⟩

theorem toNat_ofNat_of_lt {k : Nat} (h : k < 2 ^ 128) : (BitVec.ofNat 128 k).toNat = k := by
  rw [BitVec.toNat_ofNat, Nat.mod_eq_of_lt h]

theorem asU128_toNat (n : UInt64) : (asU128 n).toNat = n.toNat :=
  toNat_ofNat_of_lt (n.toNat_lt.trans (by decide))

end

namespace Number

/-! ## Plain operations on `u128` -/

/-- `Number::from` -/
def fromU128 (value : U128) : Outcome Number := unwrap (ofRaw (value.toNat * denom))

def floorU128 (a : Number) : Outcome U128 := do
  let whole ← unwrap a.floor
  let n ← unwrap whole.toImprecise
  .ok (BitVec.ofNat 128 n)

/-! ## Units as `u128` -/

/-- `DENOM` -/
def denomU128 : U128 := BitVec.ofNat 128 denom

theorem denomU128_toNat : denomU128.toNat = denom := by decide

/-- The two upper words are zero. -/
def rawU128 (a : Number) : Outcome U128 := do
  assertTrue (a.raw < 2 ^ 128) "Number too large for u128"
  .ok (BitVec.ofNat 128 a.raw)

theorem fromRawU128_lt (raw : U128) : raw.toNat < 2 ^ 256 := raw.isLt.trans (by decide)

def fromRawU128 (raw : U128) : Number := ⟨raw.toNat, fromRawU128_lt raw⟩

/-! ## Fast operations -/

def fastFloorU128 (a : Number) : Outcome U128 := do
  let raw ← a.rawU128
  .ok (raw / denomU128)

def fastFromU128 (value : U128) : Outcome Number := do
  let scaled ← expect "Number::fast_from_u128 overflow" (checkedMulU128 value denomU128)
  .ok (fromRawU128 scaled)

def fastAddU128 (a b : Number) : Outcome Number := do
  let a ← a.rawU128
  let b ← b.rawU128
  let raw ← expect "Number::fast_add overflow" (checkedAddU128 a b)
  .ok (fromRawU128 raw)

def fastSubU128 (a b : Number) : Outcome Number := do
  let a ← a.rawU128
  let b ← b.rawU128
  let raw ← expect "Number::fast_sub underflow" (checkedSubU128 a b)
  .ok (fromRawU128 raw)

def fastMulU64 (a : Number) (integer : UInt64) : Outcome Number := do
  let raw ← a.rawU128
  let raw ← expect "Number::fast_mul_u64 overflow" (checkedMulU128 raw (asU128 integer))
  .ok (fromRawU128 raw)

def fastDivU64 (a : Number) (integer : UInt64) : Outcome Number := do
  let raw ← a.rawU128
  let raw ← divU128 raw (asU128 integer)
  .ok (fromRawU128 raw)

def fastMulFloorU64 (a b : Number) : Outcome UInt64 := do
  let a ← a.rawU128
  let b ← b.rawU128
  let d := denomU128
  let d2 ← expect "Number::DENOM^2 overflow in fast_mul_floor_u64" (checkedMulU128 d d)
  let aHi := a / d
  let aLo := a % d
  let bHi := b / d
  let bLo := b % d
  -- the second product is only taken when the first one fits
  let cross ← expect "fast_mul_floor_u64 cross term overflow" (checkedMulU128 aHi bLo)
  let cross' ← unwrap (checkedMulU128 aLo bHi)
  let cross ← expect "fast_mul_floor_u64 cross term overflow" (checkedAddU128 cross cross')
  let crossDiv := cross / d
  let crossRem := cross % d
  let loProd ← expect "fast_mul_floor_u64 low term overflow" (checkedMulU128 aLo bLo)
  let carry ← expect "fast_mul_floor_u64 carry term overflow"
    ((checkedMulU128 crossRem d).bind fun v => checkedAddU128 v loProd)
  let carry := carry / d2
  let hiProd ← unwrap (checkedMulU128 aHi bHi)
  let result ← unwrap ((checkedAddU128 hiProd crossDiv).bind fun v => checkedAddU128 v carry)
  expect "fast_mul_floor_u64 result does not fit in u64" (toU64 result.toNat)

end Number

end ExponentCore
