import ExponentCore.Num.PreciseNumber

/-!
# The numbers of the curve

The pricing library is generic in its number type; `Num` is its trait. The program runs it on `f64`,
and a few functions of `f64` that the program calls itself are part of the class too.

`Exact K` reads the numbers as those of an ordered field `K`, without rounding, that has a logarithm
and its inverse (`LnExp`). There are no infinities: a division by zero and the logarithm of a number
that is not positive give `nan`, which every operation passes on and which no comparison accepts, as
in floating point.
-/

set_option autoImplicit false

namespace ExponentCore

/-- The trait `Num`. -/
class Num (N : Type) extends Add N, Sub N, Mul N, Div N, Neg N, LE N, LT N where
  decLe : DecidableLE N
  decLt : DecidableLT N
  ln : N → N
  exp : N → N
  one : N
  zero : N
  fromRatio (numerator denominator : UInt64) : N
  fromU64 : UInt64 → N
  toU64 : N → UInt64
  fromI64 : Int → N
  max : N
  /-- of `f64` alone, as are the next two -/
  floor : N → N
  isFinite : N → Bool
  isSignNegative : N → Bool

namespace Num

variable {N : Type} [Num N]

instance : DecidableLE N := decLe
instance : DecidableLT N := decLt

def abs (a : N) : N := if a < zero then -a else a

end Num

/-- `f64_to_u64_checked` -/
def f64ToU64Checked {N : Type} [Num N] (value : N) : Option UInt64 :=
  if Num.isFinite value = false ∨ value < Num.zero then none
  else if Num.fromU64 (UInt64.ofNat (2 ^ 64 - 1)) < value then none
  else some (Num.toU64 value)

/-- `Number::to_f64`, which is exact or fails. The product with the denominator before it fails only
for numbers that are too large in any case. -/
def Number.toF64 {N : Type} [Num N] (a : Number) : Option N :=
  if a.raw ≤ 2 ^ 53 - 1 then
    some (Num.fromRatio (UInt64.ofNat a.raw) (UInt64.ofNat Number.denom))
  else none

/-! ## Exact numbers -/

/-- An increasing logarithm on the positive numbers and its inverse. -/
class LnExp (K : Type) [Zero K] [LT K] where
  ln : K → K
  exp : K → K
  exp_pos (a : K) : 0 < exp a
  exp_ln (a : K) : 0 < a → exp (ln a) = a
  ln_exp (a : K) : ln (exp a) = a
  ln_lt_ln (a b : K) : 0 < a → a < b → ln a < ln b

noncomputable instance : LnExp ℝ where
  ln := Real.log
  exp := Real.exp
  exp_pos := Real.exp_pos
  exp_ln _ := Real.exp_log
  ln_exp := Real.log_exp
  ln_lt_ln _ _ := Real.log_lt_log

/-- A logarithm for rational numbers, on which the curve can be run: of all that the real one has,
only the order is kept. -/
instance : LnExp ℚ where
  ln a := if 1 ≤ a then a - 1 else 1 - 1 / a
  exp a := if 0 ≤ a then a + 1 else 1 / (1 - a)
  exp_pos a := by
    split
    · linarith
    · exact one_div_pos.2 (by linarith)
  exp_ln a ha := by
    by_cases h : 1 ≤ a
    · rw [if_pos h, if_pos (by linarith)]
      ring
    · have hinv : 1 < 1 / a := (one_lt_div ha).2 (not_le.1 h)
      rw [if_neg h, if_neg (by linarith), sub_sub_cancel, one_div_one_div]
  ln_exp a := by
    by_cases h : 0 ≤ a
    · rw [if_pos h, if_pos (by linarith)]
      ring
    · have hlt : 1 / (1 - a) < 1 := by
        rw [div_lt_one (by linarith)]
        linarith
      rw [if_neg h, if_neg (not_le.2 hlt), one_div_one_div]
      ring
  ln_lt_ln a b ha hab := by
    have hinv : 1 / b < 1 / a := one_div_lt_one_div_of_lt ha hab
    by_cases h : 1 ≤ a
    · rw [if_pos h, if_pos (h.trans hab.le)]
      linarith
    · have hinv' : 1 < 1 / a := (one_lt_div ha).2 (not_le.1 h)
      rw [if_neg h]
      split
      · linarith
      · linarith

/-- A number of the field, or none. -/
inductive Exact (K : Type) where
  | num (a : K)
  | nan
deriving DecidableEq

namespace Exact

variable {K : Type}

/-- A function of numbers, applied to exact ones. -/
def map (f : K → K) : Exact K → Exact K
  | num a => num (f a)
  | nan => nan

def map₂ (f : K → K → Exact K) : Exact K → Exact K → Exact K
  | num a, num b => f a b
  | _, _ => nan

/-- A comparison of numbers; `nan` compares with nothing. -/
def Compares (r : K → K → Prop) : Exact K → Exact K → Prop
  | num a, num b => r a b
  | _, _ => False

instance {r : K → K → Prop} [DecidableRel r] : DecidableRel (Compares r) := fun x y =>
  match x, y with
  | num a, num b => inferInstanceAs (Decidable (r a b))
  | num _, nan => isFalse id
  | nan, num _ => isFalse id
  | nan, nan => isFalse id

variable [Field K] [LinearOrder K] [FloorRing K] [LnExp K]

instance : Num (Exact K) where
  add := map₂ fun a b => num (a + b)
  sub := map₂ fun a b => num (a - b)
  mul := map₂ fun a b => num (a * b)
  div := map₂ fun a b => if b = 0 then nan else num (a / b)
  neg := map fun a => -a
  le := Compares fun a b => a ≤ b
  lt := Compares fun a b => a < b
  decLe := inferInstanceAs (DecidableRel (Compares fun a b : K => a ≤ b))
  decLt := inferInstanceAs (DecidableRel (Compares fun a b : K => a < b))
  ln
    | num a => if 0 < a then num (LnExp.ln a) else nan
    | nan => nan
  exp := map LnExp.exp
  one := num 1
  zero := num 0
  fromRatio n d := if d = 0 then nan else num (n.toNat / d.toNat)
  fromU64 n := num n.toNat
  toU64
    | num a => UInt64.ofNat (Nat.min ⌊a⌋₊ (2 ^ 64 - 1))
    | nan => 0
  fromI64 n := num n
  -- an ordered field has no largest number
  max := nan
  floor := map fun a => ⌊a⌋
  isFinite
    | num _ => true
    | nan => false
  isSignNegative
    | num a => a < 0
    | nan => false

/-! ### Operations on numbers -/

section
variable {a b : K} {x y : Exact K} {n d : UInt64}

@[simp] theorem num_add_num : num a + num b = num (a + b) := rfl
@[simp] theorem num_sub_num : num a - num b = num (a - b) := rfl
@[simp] theorem num_mul_num : num a * num b = num (a * b) := rfl
@[simp] theorem neg_num : -num a = num (-a) := rfl

theorem num_div_num (hb : b ≠ 0) : num a / num b = num (a / b) := if_neg hb

@[simp] theorem num_lt_num : num a < num b ↔ a < b := Iff.rfl
@[simp] theorem num_le_num : num a ≤ num b ↔ a ≤ b := Iff.rfl

@[simp] theorem one_eq : (Num.one : Exact K) = num 1 := rfl
@[simp] theorem zero_eq : (Num.zero : Exact K) = num 0 := rfl
@[simp] theorem fromU64_eq : (Num.fromU64 n : Exact K) = num (n.toNat : K) := rfl
@[simp] theorem fromI64_eq (i : Int) : (Num.fromI64 i : Exact K) = num (i : K) := rfl

theorem fromRatio_eq (hd : d ≠ 0) :
    (Num.fromRatio n d : Exact K) = num ((n.toNat : K) / (d.toNat : K)) :=
  if_neg hd

theorem ln_num (ha : 0 < a) : Num.ln (num a) = num (LnExp.ln a) := if_pos ha

@[simp] theorem exp_num : Num.exp (num a) = num (LnExp.exp a) := rfl
@[simp] theorem floor_num : Num.floor (num a) = num (⌊a⌋ : K) := rfl

/-! ### What a result says about the operands -/

theorem lt_iff : x < y ↔ ∃ a b, x = num a ∧ y = num b ∧ a < b := by
  cases x <;> cases y <;> simp [LT.lt, Compares]

theorem le_iff : x ≤ y ↔ ∃ a b, x = num a ∧ y = num b ∧ a ≤ b := by
  cases x <;> cases y <;> simp [LE.le, Compares]

theorem add_eq_num {c : K} : x + y = num c ↔ ∃ a b, x = num a ∧ y = num b ∧ a + b = c := by
  cases x <;> cases y <;> simp [HAdd.hAdd, Add.add, map₂]

theorem sub_eq_num {c : K} : x - y = num c ↔ ∃ a b, x = num a ∧ y = num b ∧ a - b = c := by
  cases x <;> cases y <;> simp [HSub.hSub, Sub.sub, map₂]

theorem mul_eq_num {c : K} : x * y = num c ↔ ∃ a b, x = num a ∧ y = num b ∧ a * b = c := by
  cases x <;> cases y <;> simp [HMul.hMul, Mul.mul, map₂]

theorem div_eq_num {c : K} :
    x / y = num c ↔ ∃ a b, x = num a ∧ y = num b ∧ b ≠ 0 ∧ a / b = c := by
  cases x with
  | nan => simp [HDiv.hDiv, Div.div, map₂]
  | num a =>
    cases y with
    | nan => simp [HDiv.hDiv, Div.div, map₂]
    | num b =>
      by_cases hb : b = 0
      · simp [HDiv.hDiv, Div.div, map₂, hb]
      · simp [num_div_num hb, hb]

theorem ln_eq_num {c : K} : Num.ln x = num c ↔ ∃ a, x = num a ∧ 0 < a ∧ LnExp.ln a = c := by
  cases x with
  | nan => simp [Num.ln]
  | num a =>
    by_cases ha : 0 < a
    · simp [ln_num ha, ha]
    · simp [Num.ln, ha]

theorem exp_eq_num {c : K} : Num.exp x = num c ↔ ∃ a, x = num a ∧ LnExp.exp a = c := by
  cases x <;> simp [Num.exp, map]

end

/-! ### Conversions to integers -/

section
variable {a : K} {n : UInt64}

theorem toU64_toNat : (Num.toU64 (num a)).toNat = min ⌊a⌋₊ (2 ^ 64 - 1) := by
  refine UInt64.toNat_ofNat_of_lt' ((Nat.min_le_right _ _).trans_lt ?_)
  decide

theorem le_toU64 {m : Nat} (h : (m : K) ≤ a) (hm : m ≤ n.toNat) :
    m ≤ (Num.toU64 (num a)).toNat := by
  rw [toU64_toNat, le_min_iff]
  have := n.toNat_lt
  exact ⟨Nat.le_floor h, by omega⟩

variable [IsStrictOrderedRing K]

theorem toU64_le (ha : 0 ≤ a) : ((Num.toU64 (num a)).toNat : K) ≤ a := by
  refine le_trans ?_ (Nat.floor_le ha)
  rw [toU64_toNat, Nat.cast_le]
  exact Nat.min_le_left _ _

@[simp] theorem toU64_natCast : Num.toU64 (num (n.toNat : K)) = n := by
  rw [← UInt64.toNat_inj, toU64_toNat, Nat.floor_natCast]
  have := n.toNat_lt
  omega

theorem abs_num : Num.abs (num a) = num |a| := by
  unfold Num.abs
  by_cases ha : a < 0
  · rw [if_pos (show num a < Num.zero from ha), neg_num, abs_of_neg ha]
  · rw [if_neg (show ¬ num a < Num.zero from ha), abs_of_nonneg (not_lt.1 ha)]

/-- A whole number is converted exactly, or not at all. -/
theorem f64ToU64Checked_intCast {z : Int} (h : f64ToU64Checked (num (z : K)) = some n) :
    (n.toNat : Int) = z := by
  unfold f64ToU64Checked at h
  split at h
  · cases h
  · rename_i hsign
    split at h
    · cases h
    · rename_i hmax
      simp only [zero_eq, num_lt_num, not_or, not_lt, Int.cast_nonneg_iff] at hsign
      simp only [fromU64_eq, num_lt_num, not_lt] at hmax
      obtain ⟨k, rfl⟩ := Int.eq_ofNat_of_zero_le hsign.2
      rw [Int.cast_natCast] at h hmax
      have hk : k < 2 ^ 64 := (Nat.cast_le.1 hmax).trans_lt (by decide)
      have hround : k = (UInt64.ofNat k).toNat := (UInt64.toNat_ofNat_of_lt' hk).symm
      rw [hround, toU64_natCast, Option.some.injEq] at h
      rw [← h, ← hround]

end

end Exact

end ExponentCore
