import Mathlib

/-!
# Outcomes and checked integers

A handler either succeeds, returns an error of the program, or panics; Solana undoes every write of
an instruction in the last two cases. `Outcome` is that result type. The integers are `UInt64`,
`UInt32` and `UInt16` as in the source; the workspace is built with `overflow-checks = true`, so a
plain `+`, `-` or `*` that leaves the type panics, and the `checked_*` methods return an `Option`.
Every operation has one lemma `…_eq_ok` (or `…_eq_some`) that says when it succeeds and what the
result is as a natural number.
-/

set_option autoImplicit false

namespace ExponentCore

/-! ## Faults -/

/-- The errors of the program. -/
inductive ExponentCoreError
  | invalidProxyAccount | vaultExpired | emissionIndexMustBeSequential | amountLargerThanStaged
  | mathOverflow | durationNegative | farmDoesNotExist | lpSupplyMaximumExceeded
  | vaultIsNotActive | operationAmountTooSmall | strippingDisabled | mergingDisabled
  | depositingYtDisabled | withdrawingYtDisabled | collectingInterestDisabled
  | collectingEmissionsDisabled | buyingPtDisabled | sellingPtDisabled | buyingYtDisabled
  | sellingYtDisabled | depositingLiquidityDisabled | withdrawingLiquidityDisabled
  | vaultInEmergencyMode | farmAlreadyExists | claimLimitExceeded | netBalanceChangeExceedsLimit
  | minSyOutNotMet | minPtOutNotMet | minLpOutNotMet
deriving DecidableEq, Repr

/-- The error of the `amount_value` library. -/
inductive AmountError
  | amountLargerThanAvailable
deriving DecidableEq, Repr

/-- What makes the program abort. -/
inductive Panic
  /-- `unwrap` of a `None` -/
  | unwrapNone
  /-- `expect` of a `None`, with its message -/
  | expectNone (message : String)
  /-- a failed `assert!`, with its message (empty when the source gives none) -/
  | assertFailed (message : String)
  /-- an arithmetic operator that overflows, or a division by zero -/
  | arithmetic
  /-- an index beyond the end of a vector -/
  | indexOutOfBounds
deriving DecidableEq, Repr

inductive Fault
  | error (e : ExponentCoreError)
  | amountError (e : AmountError)
  | panic (p : Panic)
  /-- a call into another program fails -/
  | cpi
deriving DecidableEq, Repr

/-- The result of a function of the program. -/
abbrev Outcome := Except Fault

section
variable {α β : Type}

@[simp] theorem ok_bind (a : α) (f : α → Outcome β) : (Except.ok a >>= f : Outcome β) = f a := rfl

@[simp] theorem error_bind (e : Fault) (f : α → Outcome β) :
    (Except.error e >>= f : Outcome β) = Except.error e := rfl

@[simp] theorem pure_eq_ok (a : α) : (pure a : Outcome α) = Except.ok a := rfl

@[simp] theorem throw_eq_error (e : Fault) : (throw e : Outcome α) = Except.error e := rfl

/-- A computation succeeds iff its parts do. -/
theorem bind_eq_ok {x : Outcome α} {f : α → Outcome β} {b : β} :
    x >>= f = .ok b ↔ ∃ a, x = .ok a ∧ f a = .ok b := by
  cases x with
  | error e => simp
  | ok a => simp

theorem ite_bind {p : Prop} [Decidable p] (x y : Outcome α) (f : α → Outcome β) :
    (if p then x else y) >>= f = if p then x >>= f else y >>= f := by
  split <;> rfl

/-- What a successful computation returns can be tested by running it. -/
instance {x : Outcome α} {P : α → Prop} [DecidablePred P] : Decidable (∃ a, x = .ok a ∧ P a) :=
  match x with
  | .ok a => decidable_of_iff (P a) (by simp)
  | .error _ => isFalse (by simp)

instance {x : Outcome α} {P : α → Prop} [DecidablePred P] : Decidable (∀ a, x = .ok a → P a) :=
  match x with
  | .ok a => decidable_of_iff (P a) (by simp)
  | .error _ => isTrue (by simp)

/-- `Option::unwrap` -/
def unwrap : Option α → Outcome α
  | some a => .ok a
  | none => .error (.panic .unwrapNone)

/-- `Option::expect` -/
def expect (message : String) : Option α → Outcome α
  | some a => .ok a
  | none => .error (.panic (.expectNone message))

/-- `Option::ok_or`, with the error returned -/
def okOr (e : ExponentCoreError) : Option α → Outcome α
  | some a => .ok a
  | none => .error (.error e)

@[simp] theorem okOr_eq_ok {e : ExponentCoreError} {o : Option α} {a : α} :
    okOr e o = .ok a ↔ o = some a := by
  cases o <;> simp [okOr]

@[simp] theorem unwrap_eq_ok {o : Option α} {a : α} : unwrap o = .ok a ↔ o = some a := by
  cases o <;> simp [unwrap]

@[simp] theorem expect_eq_ok {m : String} {o : Option α} {a : α} :
    expect m o = .ok a ↔ o = some a := by
  cases o <;> simp [expect]

/-- `require!` -/
def require (p : Prop) [Decidable p] (e : ExponentCoreError) : Outcome Unit :=
  if p then .ok () else .error (.error e)

/-- `assert!` -/
def assertTrue (p : Prop) [Decidable p] (message : String) : Outcome Unit :=
  if p then .ok () else .error (.panic (.assertFailed message))

@[simp] theorem require_eq_ok {p : Prop} [Decidable p] {e : ExponentCoreError} {u : Unit} :
    require p e = .ok u ↔ p := by
  unfold require; split <;> simp_all

@[simp] theorem assertTrue_eq_ok {p : Prop} [Decidable p] {m : String} {u : Unit} :
    assertTrue p m = .ok u ↔ p := by
  unfold assertTrue; split <;> simp_all

/-- Indexing a vector. -/
def getAt (l : List α) (i : Nat) : Outcome α :=
  match l[i]? with
  | some a => .ok a
  | none => .error (.panic .indexOutOfBounds)

@[simp] theorem getAt_eq_ok {l : List α} {i : Nat} {a : α} :
    getAt l i = .ok a ↔ l[i]? = some a := by
  unfold getAt; split <;> simp_all

/-- Writing an entry of a vector. -/
def setAt (l : List α) (i : Nat) (a : α) : Outcome (List α) :=
  if i < l.length then .ok (l.set i a) else .error (.panic .indexOutOfBounds)

@[simp] theorem setAt_eq_ok {l l' : List α} {i : Nat} {a : α} :
    setAt l i a = .ok l' ↔ i < l.length ∧ l.set i a = l' := by
  unfold setAt; split <;> simp_all

end

/-! ## Unsigned integers -/

section
variable {a b c : UInt64}

def checkedAdd (a b : UInt64) : Option UInt64 :=
  if a.toNat + b.toNat < 2 ^ 64 then some (a + b) else none

def checkedSub (a b : UInt64) : Option UInt64 :=
  if b.toNat ≤ a.toNat then some (a - b) else none

theorem checkedAdd_eq_some : checkedAdd a b = some c ↔ c.toNat = a.toNat + b.toNat := by
  unfold checkedAdd
  have hc := c.toNat_lt
  split
  · rename_i h
    simp only [Option.some.injEq, ← UInt64.toNat_inj, UInt64.toNat_add, Nat.mod_eq_of_lt h]
    exact eq_comm
  · simp only [reduceCtorEq, false_iff]; omega

theorem checkedSub_eq_some : checkedSub a b = some c ↔ c.toNat + b.toNat = a.toNat := by
  unfold checkedSub
  split
  · rename_i h
    have hs : (a - b).toNat = a.toNat - b.toNat := UInt64.toNat_sub_of_le _ _ h
    simp only [Option.some.injEq, ← UInt64.toNat_inj, hs]; omega
  · simp only [reduceCtorEq, false_iff]; omega

theorem checkedSub_eq_none : checkedSub a b = none ↔ a.toNat < b.toNat := by
  unfold checkedSub
  split <;> simp_all

/-- The `u64` of a natural number, if it has one (`try_into`, `checked_mul`). -/
def toU64 (n : Nat) : Option UInt64 :=
  if n < 2 ^ 64 then some (UInt64.ofNat n) else none

theorem toU64_eq_some {n : Nat} : toU64 n = some c ↔ c.toNat = n := by
  unfold toU64
  have hc := c.toNat_lt
  split
  · rename_i h
    rw [Option.some.injEq, ← UInt64.toNat_inj, UInt64.toNat_ofNat_of_lt' h]
    exact eq_comm
  · simp only [reduceCtorEq, false_iff]; omega

/-- The operators `+`, `-` and `*` on `u64`, which panic when the result does not fit. -/
def addU64 (a b : UInt64) : Outcome UInt64 :=
  if a.toNat + b.toNat < 2 ^ 64 then .ok (a + b) else .error (.panic .arithmetic)

def subU64 (a b : UInt64) : Outcome UInt64 :=
  if b.toNat ≤ a.toNat then .ok (a - b) else .error (.panic .arithmetic)

def mulU64 (a b : UInt64) : Outcome UInt64 :=
  if a.toNat * b.toNat < 2 ^ 64 then .ok (a * b) else .error (.panic .arithmetic)

theorem addU64_eq_ok : addU64 a b = .ok c ↔ c.toNat = a.toNat + b.toNat := by
  rw [← checkedAdd_eq_some]
  unfold addU64 checkedAdd
  split <;> simp

theorem subU64_eq_ok : subU64 a b = .ok c ↔ c.toNat + b.toNat = a.toNat := by
  rw [← checkedSub_eq_some]
  unfold subU64 checkedSub
  split <;> simp

theorem mulU64_eq_ok : mulU64 a b = .ok c ↔ c.toNat = a.toNat * b.toNat := by
  unfold mulU64
  have hc := c.toNat_lt
  split
  · rename_i h
    simp only [Except.ok.injEq, ← UInt64.toNat_inj, UInt64.toNat_mul, Nat.mod_eq_of_lt h]
    exact eq_comm
  · simp only [reduceCtorEq, false_iff]; omega

def checkedSubU32 (a b : UInt32) : Option UInt32 :=
  if b.toNat ≤ a.toNat then some (a - b) else none

theorem checkedSubU32_eq_some {a b c : UInt32} :
    checkedSubU32 a b = some c ↔ c.toNat + b.toNat = a.toNat := by
  unfold checkedSubU32
  split
  · rename_i h
    have hs : (a - b).toNat = a.toNat - b.toNat := UInt32.toNat_sub_of_le _ _ h
    simp only [Option.some.injEq, ← UInt32.toNat_inj, hs]; omega
  · simp only [reduceCtorEq, false_iff]; omega

/-- The operator `+` on `u32`. -/
def addU32 (a b : UInt32) : Outcome UInt32 :=
  if a.toNat + b.toNat < 2 ^ 32 then .ok (a + b) else .error (.panic .arithmetic)

theorem addU32_eq_ok {a b c : UInt32} : addU32 a b = .ok c ↔ c.toNat = a.toNat + b.toNat := by
  unfold addU32
  have hc := c.toNat_lt
  split
  · rename_i h
    simp only [Except.ok.injEq, ← UInt32.toNat_inj, UInt32.toNat_add, Nat.mod_eq_of_lt h]
    exact eq_comm
  · simp only [reduceCtorEq, false_iff]; omega

end

/-! ## Signed integers -/

/-- `as i64` on a `u64`: the upper half becomes negative. -/
def asI64 (a : UInt64) : Int := (a.toNat : Int).bmod (2 ^ 64)

/-- `as u64` on an `i64`. -/
def asU64 (n : Int) : UInt64 := UInt64.ofNat (n % 2 ^ 64).toNat

/-- The operators on `i64`, which panic when the result does not fit. -/
def inI64 (n : Int) : Outcome Int :=
  if -2 ^ 63 ≤ n ∧ n < 2 ^ 63 then .ok n else .error (.panic .arithmetic)

/-- The `i64` of an integer, if it has one (`checked_mul`). -/
def checkedI64 (n : Int) : Option Int := if -2 ^ 63 ≤ n ∧ n < 2 ^ 63 then some n else none

theorem inI64_eq_ok {n m : Int} : inI64 n = .ok m ↔ (-2 ^ 63 ≤ n ∧ n < 2 ^ 63) ∧ n = m := by
  unfold inI64
  split <;> simp_all

theorem asI64_mod (a : UInt64) : asI64 a % 2 ^ 64 = a.toNat := by
  have ha := a.toNat_lt
  have h : asI64 a % ((2 ^ 64 : Nat) : Int) = (a.toNat : Int) % ((2 ^ 64 : Nat) : Int) :=
    Int.bmod_emod
  omega

theorem asU64_toNat (n : Int) : ((asU64 n).toNat : Int) = n % 2 ^ 64 := by
  rw [asU64, UInt64.toNat_ofNat']
  omega

/-! ## Token transfers -/

/-- An SPL transfer moves exactly its amount from one balance to another, or fails. The balance that
belongs to a user is not modelled, so these are the two halves. -/
def transferIn (balance amount : UInt64) : Outcome UInt64 :=
  if balance.toNat + amount.toNat < 2 ^ 64 then .ok (balance + amount) else .error .cpi

def transferOut (balance amount : UInt64) : Outcome UInt64 :=
  if amount.toNat ≤ balance.toNat then .ok (balance - amount) else .error .cpi

theorem transferIn_eq_ok {a b c : UInt64} :
    transferIn a b = .ok c ↔ c.toNat = a.toNat + b.toNat := by
  rw [← checkedAdd_eq_some]
  unfold transferIn checkedAdd
  split <;> simp

theorem transferOut_eq_ok {a b c : UInt64} :
    transferOut a b = .ok c ↔ c.toNat + b.toNat = a.toNat := by
  rw [← checkedSub_eq_some]
  unfold transferOut checkedSub
  split <;> simp

end ExponentCore
