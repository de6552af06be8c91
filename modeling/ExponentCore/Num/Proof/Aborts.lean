import ExponentCore.Num.Proof.PreciseNumber

/-!
# Computations that return, and when

`NoAbort` says of a computation that it does not abort: it has a value, or it is refused with an
error of the program. Most functions have no errors of their own (`OnlyAborts`), and then not to
abort is to have a value (`noAbort_iff`). Whether there is one is a matter of bounds; the lemmas at
the end say so for the operations that everything else is made of.
-/

set_option autoImplicit false

namespace ExponentCore

open Number

section
variable {α β : Type} {x : Outcome α} {f : α → Outcome β} {a : α}

/-- **The computation does not abort.** -/
def NoAbort (x : Outcome α) : Prop := ∀ p, x ≠ .error (.panic p)

instance : ∀ x : Outcome α, Decidable (NoAbort x)
  | .ok _ => isTrue fun p h => by cases h
  | .error (.panic p) => isFalse fun h => h p rfl
  | .error (.error _) => isTrue fun p h => by cases h
  | .error (.amountError _) => isTrue fun p h => by cases h
  | .error .cpi => isTrue fun p h => by cases h

/-- The computation has no errors of its own. -/
class OnlyAborts (x : Outcome α) : Prop where
  cases : (∃ a, x = .ok a) ∨ ∃ p, x = .error (.panic p)

theorem noAbort_bind [OnlyAborts x] : NoAbort (x >>= f) ↔ ∃ a, x = .ok a ∧ NoAbort (f a) := by
  rcases OnlyAborts.cases (x := x) with ⟨a, rfl⟩ | ⟨p, rfl⟩
  · simp only [ok_bind, Except.ok.injEq, exists_eq_left']
  · refine ⟨fun h => absurd rfl (h p), ?_⟩
    rintro ⟨a, ha, -⟩
    cases ha

theorem exists_bind : (∃ b, x >>= f = .ok b) ↔ ∃ a, x = .ok a ∧ ∃ b, f a = .ok b := by
  simp only [bind_eq_ok]
  exact exists_comm.trans (exists_congr fun a => exists_and_left)

instance : OnlyAborts (.ok a : Outcome α) := ⟨.inl ⟨a, rfl⟩⟩

theorem OnlyAborts.bind (hx : OnlyAborts x) (hf : ∀ a, OnlyAborts (f a)) :
    OnlyAborts (x >>= f) where
  cases := by
    rcases hx.cases with ⟨a, rfl⟩ | ⟨p, rfl⟩
    · exact (hf a).cases
    · exact .inr ⟨p, rfl⟩

instance [hx : OnlyAborts x] [hf : ∀ a, OnlyAborts (f a)] : OnlyAborts (x >>= f) := hx.bind hf

instance {p : Prop} [Decidable p] {x y : Outcome α} [hx : OnlyAborts x] [hy : OnlyAborts y] :
    OnlyAborts (if p then x else y) := by
  split
  · exact hx
  · exact hy

instance : ∀ o : Option α, OnlyAborts (unwrap o)
  | some a => ⟨.inl ⟨a, rfl⟩⟩
  | none => ⟨.inr ⟨_, rfl⟩⟩

instance {m : String} : ∀ o : Option α, OnlyAborts (expect m o)
  | some a => ⟨.inl ⟨a, rfl⟩⟩
  | none => ⟨.inr ⟨_, rfl⟩⟩

instance {p : Panic} : OnlyAborts (.error (.panic p) : Outcome α) := ⟨.inr ⟨p, rfl⟩⟩

instance {p : Prop} [Decidable p] {m : String} : OnlyAborts (assertTrue p m) :=
  inferInstanceAs (OnlyAborts (ite _ _ _))

instance {f : α → Outcome β} [hf : ∀ a, OnlyAborts (f a)] {l : List α} :
    OnlyAborts (l.mapM f) := by
  induction l with
  | nil => exact inferInstanceAs (OnlyAborts (.ok []))
  | cons a l ih =>
    rw [List.mapM_cons]
    exact inferInstanceAs (OnlyAborts (f a >>= fun b => l.mapM f >>= fun bs => .ok (b :: bs)))

end

section
variable {a b : Number} {n m : UInt64}

instance : OnlyAborts (a.add b) := inferInstanceAs (OnlyAborts (unwrap _))

instance : OnlyAborts (a.sub b) := inferInstanceAs (OnlyAborts (unwrap _))

instance : OnlyAborts (a.mul b) := inferInstanceAs (OnlyAborts (unwrap _))

instance : OnlyAborts (a.div b) := inferInstanceAs (OnlyAborts (unwrap _))

instance : OnlyAborts a.floorU64 := by
  unfold floorU64
  infer_instance

instance : OnlyAborts (addU64 n m) := inferInstanceAs (OnlyAborts (ite _ _ _))

instance : OnlyAborts (subU64 n m) := inferInstanceAs (OnlyAborts (ite _ _ _))

instance : OnlyAborts (mulU64 n m) := inferInstanceAs (OnlyAborts (ite _ _ _))

instance {i : Int} : OnlyAborts (inI64 i) := inferInstanceAs (OnlyAborts (ite _ _ _))

instance : OnlyAborts (calcShareValue a b m) := by
  unfold calcShareValue
  infer_instance

instance : OnlyAborts (pyToSy a m) := by
  unfold pyToSy
  infer_instance

end

/-! ## Which part of a computation answers an error -/

section
variable {α β : Type} {x : Outcome α} {f : α → Outcome β} {e : ExponentCoreError} {k : Fault}
  {a b : UInt64}

theorem bind_eq_error : x >>= f = .error k ↔ x = .error k ∨ ∃ a, x = .ok a ∧ f a = .error k := by
  cases x with
  | error k' => simp
  | ok a => simp

/-- How a computation fails can be tested by running it. -/
instance : Decidable (x = .error k) :=
  match x with
  | .ok _ => isFalse (by simp)
  | .error k' => decidable_of_iff (k' = k) (by simp)

@[simp] theorem require_eq_error {p : Prop} [Decidable p] :
    require p e = .error k ↔ ¬ p ∧ k = .error e := by
  unfold require
  split <;> simp_all [eq_comm]

theorem OnlyAborts.ne_error [OnlyAborts x] : x ≠ .error (.error e) := by
  rcases OnlyAborts.cases (x := x) with ⟨a, rfl⟩ | ⟨p, rfl⟩
  · simp
  · simp

/-- A transfer that fails is an error of the token program. -/
@[simp] theorem transferIn_ne_error : transferIn a b ≠ .error (.error e) := by
  unfold transferIn
  split <;> simp

@[simp] theorem transferOut_ne_error : transferOut a b ≠ .error (.error e) := by
  unfold transferOut
  split <;> simp

end

/-! ## When a value exists -/

theorem exists_toNat {k : Nat} : (∃ n : UInt64, n.toNat = k) ↔ k < 2 ^ 64 := by
  constructor
  · rintro ⟨n, rfl⟩
    exact n.toNat_lt
  · intro h
    exact ⟨UInt64.ofNat k, UInt64.toNat_ofNat_of_lt' h⟩

theorem exists_raw {k : Nat} : (∃ p : Number, p.raw = k) ↔ k < 2 ^ 256 := by
  constructor
  · rintro ⟨p, rfl⟩
    exact p.isLt
  · intro h
    exact ⟨⟨k, h⟩, rfl⟩

section
variable {a b : Number} {n m : UInt64}

/-- A product with a whole number has a value as long as the units, rounded down to whole ones where
they leave 256 bits, stay within them. -/
theorem exists_mul_natural :
    (∃ p, a.mul (fromNaturalU64 m) = .ok p) ↔ a.raw / denom * denom * m.toNat < 2 ^ 256 := by
  simp only [mul_natural_eq_ok, exists_raw, product]
  split
  · rename_i hfit
    have hexact : a.raw * m.toNat < 2 ^ 256 :=
      (Nat.le_mul_of_pos_right _ denom_pos).trans_lt hfit
    have hdown : a.raw / denom * denom * m.toNat ≤ a.raw * m.toNat :=
      Nat.mul_le_mul_right _ (Nat.div_mul_le_self _ _)
    exact ⟨fun _ => hdown.trans_lt hexact, fun _ => hexact⟩
  · exact Iff.rfl

end

end ExponentCore
