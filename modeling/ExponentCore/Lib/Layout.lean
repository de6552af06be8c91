import ExponentCore.Lib.Machine

/-!
# Machines whose state is kept in accounts

The parts of a state are kept in accounts, each of which has data of some length. An input declares
the accounts that it writes, some of them with a new length. The data is resized, the machine takes
its step, and the accounts are written back: the input fails if the part for one of them is longer
than its data. `Layout.step` is that sequence.

`fits_step` is the frame rule: where inputs leave the accounts alone that they do not declare, every
part goes on fitting the data that it is kept in.
-/

set_option autoImplicit false

namespace Machine

structure Layout (σ ι A : Type) where
  /-- the length of the part of a state that is kept in an account -/
  size : σ → A → Nat
  /-- the accounts that an input writes, with the length that it gives their data first -/
  declared : σ → ι → List (A × Option Nat)

/-- A state, and the lengths of the data that it is kept in. -/
structure Held (σ A : Type) where
  state : σ
  dataLen : A → Nat

/-- Why an input fails: the step does, or what it leaves is longer than its data. -/
inductive Failure (ε : Type)
  | step (e : ε)
  | full
deriving DecidableEq

namespace Layout

section
variable {σ ι A ε : Type} (L : Layout σ ι A)

/-- The lengths after an input has resized its accounts. -/
def resized [BEq A] (h : Held σ A) (i : ι) (a : A) : Nat :=
  ((L.declared h.state i).lookup a).join.getD (h.dataLen a)

/-- There is room for what a step writes. -/
def Room (h : Held σ A) (i : ι) (s : σ) : Prop :=
  ∀ d ∈ L.declared h.state i, L.size s d.1 ≤ d.2.getD (h.dataLen d.1)

instance (h : Held σ A) (i : ι) (s : σ) : Decidable (L.Room h i s) := List.decidableBAll _ _

/-- One input. -/
def step [BEq A] (step : σ → ι → Except ε σ) (h : Held σ A) (i : ι) :
    Except (Failure ε) (Held σ A) :=
  match step h.state i with
  | .ok s => if L.Room h i s then .ok ⟨s, L.resized h i⟩ else .error .full
  | .error e => .error (.step e)

/-- If the machine takes its step, what it leaves is written back. -/
def WritesBack (step : σ → ι → Except ε σ) (h : Held σ A) (i : ι) : Prop :=
  ∀ s, step h.state i = .ok s → L.Room h i s

/-- Every part fits the data that it is kept in. -/
def Fits (h : Held σ A) : Prop := ∀ a, L.size h.state a ≤ h.dataLen a

/-- An input leaves the accounts alone that it does not declare. -/
def Framed (step : σ → ι → Except ε σ) : Prop :=
  ∀ s i s' a, step s i = .ok s' → a ∉ (L.declared s i).map Prod.fst → L.size s' a = L.size s a

end

section
variable {σ ι A ε : Type} {L : Layout σ ι A} {step : σ → ι → Except ε σ}
  {h h' : Held σ A} {i : ι} {a : A} [BEq A]

theorem step_eq_ok : L.step step h i = .ok h' ↔
    ∃ s, step h.state i = .ok s ∧ L.Room h i s ∧ h' = ⟨s, L.resized h i⟩ := by
  unfold Layout.step
  cases step h.state i with
  | error e => simp
  | ok s =>
    by_cases hroom : L.Room h i s
    · simp [hroom, eq_comm]
    · simp [hroom]

variable [LawfulBEq A]

/-- An account that is not declared keeps its length. -/
theorem resized_of_notMem (ha : a ∉ (L.declared h.state i).map Prod.fst) :
    L.resized h i a = h.dataLen a := by
  have hlookup : (L.declared h.state i).lookup a = none := by
    rw [List.lookup_eq_none_iff]
    intro d hd
    refine bne_iff_ne.2 fun heq => ha ?_
    exact List.mem_map.2 ⟨d, hd, heq.symm⟩
  rw [resized, hlookup]
  rfl

/-- A declared account has the length that it was checked for. -/
theorem exists_resized (ha : a ∈ (L.declared h.state i).map Prod.fst) :
    ∃ d ∈ L.declared h.state i, d.1 = a ∧ L.resized h i a = d.2.getD (h.dataLen a) := by
  cases hlookup : (L.declared h.state i).lookup a with
  | none =>
    obtain ⟨d, hd, rfl⟩ := List.mem_map.1 ha
    rw [List.lookup_eq_none_iff] at hlookup
    exact absurd rfl (bne_iff_ne.1 (hlookup d hd))
  | some r =>
    obtain ⟨l₁, l₂, hl, -⟩ := List.lookup_eq_some_iff.1 hlookup
    refine ⟨(a, r), ?_, rfl, ?_⟩
    · rw [hl]
      exact List.mem_append_right _ List.mem_cons_self
    · rw [resized, hlookup]
      rfl

theorem fits_step (hframe : L.Framed step) (hfits : L.Fits h)
    (hstep : L.step step h i = .ok h') : L.Fits h' := by
  obtain ⟨s, hs, hroom, rfl⟩ := step_eq_ok.1 hstep
  intro a
  show L.size s a ≤ L.resized h i a
  by_cases ha : a ∈ (L.declared h.state i).map Prod.fst
  · obtain ⟨d, hd, rfl, hlen⟩ := exists_resized ha
    rw [hlen]
    exact hroom d hd
  · rw [hframe _ _ _ _ hs ha, resized_of_notMem ha]
    exact hfits a

end

end Layout

end Machine
