import ExponentCore.Num.Outcome

/-!
# Precise numbers

`Number` wraps a 256-bit integer that counts units of `10^-12`. Multiplication and division round
to the nearest unit; when the widened intermediate value leaves 256 bits they fall back to dividing
first, which loses precision, and fail when that leaves 256 bits too.

The arithmetic operators of the source unwrap the checked operation. They are `Number.add`, `sub`,
`mul` and `div` here.
-/

set_option autoImplicit false

namespace ExponentCore

/-- A fixed-point number of 256 bits with twelve decimals. -/
structure Number where
  raw : Nat
  isLt : raw < 2 ^ 256
deriving DecidableEq

namespace Number

/-- The number of units in one. -/
def denom : Nat := 10 ^ 12

/-- Half a unit, added before a division to round to nearest. -/
def roundingCorrection : Nat := denom / 2

/-- The number with the given units, if 256 bits hold them. -/
def ofRaw (n : Nat) : Option Number :=
  if h : n < 2 ^ 256 then some ⟨n, h⟩ else none

def zero : Number := ⟨0, by decide⟩

def one : Number := ⟨denom, by decide⟩

instance : Zero Number := ⟨zero⟩
instance : One Number := ⟨one⟩
instance : Inhabited Number := ⟨0⟩

/-- The value that the units stand for. -/
def value (a : Number) : ℚ := a.raw / denom

theorem raw_injective : Function.Injective Number.raw := by
  rintro ⟨a, ha⟩ ⟨b, hb⟩ h
  simpa using h

/-- Numbers are ordered as their units are. -/
instance : LinearOrder Number := LinearOrder.lift' Number.raw raw_injective

/-! ## Constructors -/

theorem fromNaturalU64_lt (value : UInt64) : value.toNat * denom < 2 ^ 256 := by
  have := value.toNat_lt
  unfold denom; omega

def fromNaturalU64 (value : UInt64) : Number := ⟨value.toNat * denom, fromNaturalU64_lt value⟩

/-! ## Checked operations -/

def checkedAdd (a b : Number) : Option Number := ofRaw (a.raw + b.raw)

def checkedSub (a b : Number) : Option Number :=
  if b.raw ≤ a.raw then ofRaw (a.raw - b.raw) else none

def checkedMul (a b : Number) : Option Number :=
  if a.raw * b.raw < 2 ^ 256 then
    if a.raw * b.raw + roundingCorrection < 2 ^ 256 then
      ofRaw ((a.raw * b.raw + roundingCorrection) / denom)
    else none
  else if b.raw ≤ a.raw then ofRaw (a.raw / denom * b.raw)
  else ofRaw (b.raw / denom * a.raw)

def checkedDiv (a b : Number) : Option Number :=
  if b.raw = 0 then none
  else if a.raw * denom < 2 ^ 256 then
    if a.raw * denom + roundingCorrection < 2 ^ 256 then
      ofRaw ((a.raw * denom + roundingCorrection) / b.raw)
    else none
  else if a.raw + roundingCorrection < 2 ^ 256 then
    ofRaw ((a.raw + roundingCorrection) / b.raw * denom)
  else none

def add (a b : Number) : Outcome Number := unwrap (a.checkedAdd b)
def sub (a b : Number) : Outcome Number := unwrap (a.checkedSub b)
def mul (a b : Number) : Outcome Number := unwrap (a.checkedMul b)
def div (a b : Number) : Outcome Number := unwrap (a.checkedDiv b)

/-- The quotient of two naturals, `0` when the denominator is. -/
def fromRatio (num den : UInt64) : Number :=
  ((fromNaturalU64 num).checkedDiv (fromNaturalU64 den)).getD 0

/-! ## Rounding to integers -/

/-- `PreciseNumber::floor` -/
def floor (a : Number) : Option Number := ofRaw (a.raw / denom * denom)

/-- `PreciseNumber::ceiling` -/
def ceiling (a : Number) : Option Number :=
  if a.raw + denom < 2 ^ 256 then ofRaw ((a.raw + denom - 1) / denom * denom) else none

/-- `PreciseNumber::to_imprecise`: the nearest `u128`. The cast to `u128` panics by itself. -/
def toImprecise (a : Number) : Option Nat :=
  if a.raw + roundingCorrection < 2 ^ 256 then
    if (a.raw + roundingCorrection) / denom < 2 ^ 128 then
      some ((a.raw + roundingCorrection) / denom)
    else none
  else none

def floorU64 (a : Number) : Outcome UInt64 := do
  let whole ← unwrap a.floor
  let n ← unwrap whole.toImprecise
  unwrap (toU64 n)

def ceilU64 (a : Number) : Outcome UInt64 := do
  let whole ← unwrap a.ceiling
  let n ← unwrap whole.toImprecise
  unwrap (toU64 n)

end Number

/-! ## Conversions between SY and PT or YT -/

/-- `py_to_sy` -/
def pyToSy (syExchangeRate : Number) (amountPy : UInt64) : Outcome UInt64 := do
  let sy ← (Number.fromNaturalU64 amountPy).div syExchangeRate
  sy.floorU64

/-- `py_to_sy_ceil` -/
def pyToSyCeil (syExchangeRate : Number) (amountPy : UInt64) : Outcome UInt64 := do
  let sy ← (Number.fromNaturalU64 amountPy).div syExchangeRate
  sy.ceilU64

/-- `sy_to_py` -/
def syToPy (syExchangeRate : Number) (amountSy : UInt64) : Outcome UInt64 := do
  let py ← (Number.fromNaturalU64 amountSy).mul syExchangeRate
  py.floorU64

/-- `sy_to_py_ceil` -/
def syToPyCeil (syExchangeRate : Number) (amountSy : UInt64) : Outcome UInt64 := do
  let py ← (Number.fromNaturalU64 amountSy).mul syExchangeRate
  py.ceilU64

/-- `calc_share_value`: what a balance earns while an index grows. -/
def calcShareValue (lastSeenIndex curIndex : Number) (shareBalance : UInt64) : Outcome UInt64 :=
  if curIndex ≤ lastSeenIndex then .ok 0
  else do
    let delta ← curIndex.sub lastSeenIndex
    let earned ← delta.mul (Number.fromNaturalU64 shareBalance)
    earned.floorU64

end ExponentCore
