import Mathlib

/-!
# Machines that roll back

A machine takes an input in a state and either moves on or fails; a failing input leaves the state
as it was. `run` feeds a list of inputs. A property of the inputs that may depend on the state they
meet is an `Admits`, a property of every state on the way is a `Throughout`, a quantity summed over
the inputs is a `total`, and history that the machine does not keep is recorded beside it by
`recording`.

`run_induction` is the invariant rule, `throughout_of_step` the same for every state on the way,
and `throughout_iff_admits` and `throughout_iff_admits_of_inv` the rules for a property that holds
throughout exactly when every step meets a condition (`Accepted`: every step that succeeds).
`admits_congr_of_inv` exchanges conditions that agree wherever an invariant holds. Two
machines side by side are `par`, whose runs interleave; a condition that guards a property of each
guards both (`Guards.par`).
-/

set_option autoImplicit false

namespace Machine

section
variable {σ ι ε : Type} (step : σ → ι → Except ε σ)

/-- The state after one input. -/
def next (s : σ) (i : ι) : σ :=
  match step s i with
  | .ok s' => s'
  | .error _ => s

/-- The state after a list of inputs. -/
def run : σ → List ι → σ
  | s, [] => s
  | s, i :: is => run (next step s i) is

/-- Every input meets `P` in the state it is given to. -/
def Admits (P : σ → ι → Prop) : σ → List ι → Prop
  | _, [] => True
  | s, i :: is => P s i ∧ Admits P (next step s i) is

/-- Every state of the run, the first and the last included, meets `Q`. -/
def Throughout (Q : σ → Prop) : σ → List ι → Prop
  | s, [] => Q s
  | s, i :: is => Q s ∧ Throughout Q (next step s i) is

/-- A condition on the steps that succeed. -/
def Accepted (R : σ → ι → σ → Prop) (s : σ) (i : ι) : Prop := ∀ s', step s i = .ok s' → R s i s'

instance {R : σ → ι → σ → Prop} [∀ s i s', Decidable (R s i s')] (s : σ) (i : ι) :
    Decidable (Accepted step R s i) :=
  match h : step s i with
  | .ok s' => decidable_of_iff (R s i s') (by simp [Accepted, h])
  | .error _ => isTrue (by simp [Accepted, h])

instance instDecidableAdmits {P : σ → ι → Prop} [∀ s i, Decidable (P s i)] :
    ∀ (s : σ) (is : List ι), Decidable (Admits step P s is)
  | _, [] => isTrue trivial
  | s, i :: is =>
    have := instDecidableAdmits (P := P) (next step s i) is
    inferInstanceAs (Decidable (P s i ∧ Admits step P (next step s i) is))

end

section
variable {σ ι ε : Type} {step : σ → ι → Except ε σ} {s s' : σ} {i : ι} {is js : List ι}

theorem next_of_ok (h : step s i = .ok s') : next step s i = s' := by
  simp [next, h]

theorem next_of_error {e : ε} (h : step s i = .error e) : next step s i = s := by
  simp [next, h]

/-- A step succeeds or changes nothing. -/
theorem next_cases (step : σ → ι → Except ε σ) (s : σ) (i : ι) :
    (∃ s', step s i = .ok s' ∧ next step s i = s') ∨
      (∃ e, step s i = .error e) ∧ next step s i = s := by
  cases h : step s i with
  | ok s' => exact .inl ⟨s', rfl, next_of_ok h⟩
  | error e => exact .inr ⟨⟨e, rfl⟩, next_of_error h⟩

theorem admits_append {P : σ → ι → Prop} :
    Admits step P s (is ++ js) ↔ Admits step P s is ∧ Admits step P (run step s is) js := by
  induction is generalizing s with
  | nil => simp [Admits, run]
  | cons i is ih => simp [Admits, run, ih, and_assoc]

theorem admits_true : Admits step (fun _ _ => True) s is := by
  induction is generalizing s with
  | nil => trivial
  | cons i is ih => exact ⟨trivial, ih⟩

/-- A property of the inputs alone. -/
theorem admits_of_forall {P : ι → Prop} (h : ∀ i ∈ is, P i) :
    Admits step (fun _ i => P i) s is := by
  induction is generalizing s with
  | nil => trivial
  | cons i is ih => exact ⟨h i List.mem_cons_self, ih fun j hj => h j (List.mem_cons_of_mem i hj)⟩

theorem Admits.mono {P P' : σ → ι → Prop} (h : Admits step P s is)
    (himp : ∀ s i, P s i → P' s i) : Admits step P' s is := by
  induction is generalizing s with
  | nil => trivial
  | cons i is ih => exact ⟨himp _ _ h.1, ih h.2⟩

theorem Admits.and {P P' : σ → ι → Prop} (h : Admits step P s is) (h' : Admits step P' s is) :
    Admits step (fun s i => P s i ∧ P' s i) s is := by
  induction is generalizing s with
  | nil => trivial
  | cons i is ih => exact ⟨⟨h.1, h'.1⟩, ih h.2 h'.2⟩

/-- The invariant rule: what every admitted successful step preserves holds after the run. -/
theorem run_induction {P : σ → ι → Prop} {I : σ → Prop}
    (hstep : ∀ s i s', I s → P s i → step s i = .ok s' → I s')
    (h₀ : I s) (hadm : Admits step P s is) : I (run step s is) := by
  induction is generalizing s with
  | nil => exact h₀
  | cons i is ih =>
    refine ih ?_ hadm.2
    rcases next_cases step s i with ⟨s', hs, hn⟩ | ⟨-, hn⟩
    · rw [hn]; exact hstep s i s' h₀ hadm.1 hs
    · rw [hn]; exact h₀

/-- The invariant rule for steps that all have to succeed. -/
theorem inv_of_foldlM {I : σ → Prop} {P : ι → Prop}
    (hstep : ∀ s i s', I s → P i → step s i = .ok s' → I s') (h₀ : I s) (hP : ∀ i ∈ is, P i)
    (h : is.foldlM step s = .ok s') : I s' := by
  induction is generalizing s with
  | nil =>
    obtain rfl := Except.ok.inj h
    exact h₀
  | cons i is ih =>
    rw [List.foldlM_cons] at h
    cases hs : step s i with
    | ok s₁ =>
      rw [hs] at h
      exact ih (hstep s i s₁ h₀ (hP i List.mem_cons_self) hs)
        (fun j hj => hP j (List.mem_cons_of_mem i hj)) h
    | error e =>
      rw [hs] at h
      cases h

/-- An invariant of the admitted steps may be assumed of every input. -/
theorem Admits.with_invariant {P : σ → ι → Prop} {I : σ → Prop} (h : Admits step P s is)
    (hstep : ∀ s i s', I s → P s i → step s i = .ok s' → I s') (h₀ : I s) :
    Admits step (fun s i => I s ∧ P s i) s is := by
  induction is generalizing s with
  | nil => trivial
  | cons i is ih =>
    refine ⟨⟨h₀, h.1⟩, ih h.2 ?_⟩
    rcases next_cases step s i with ⟨s', hs, hn⟩ | ⟨-, hn⟩
    · rw [hn]; exact hstep s i s' h₀ h.1 hs
    · rw [hn]; exact h₀

/-- Conditions that an invariant makes equivalent. -/
theorem admits_congr_of_inv {P P' : σ → ι → Prop} {I : σ → Prop}
    (hstep : ∀ s i s', I s → step s i = .ok s' → I s') (hiff : ∀ s i, I s → (P s i ↔ P' s i))
    (h₀ : I s) : Admits step P s is ↔ Admits step P' s is := by
  have hinv {R : σ → ι → Prop} (h : Admits step R s is) :
      Admits step (fun s i => I s ∧ R s i) s is :=
    h.with_invariant (fun s i s' hs _ => hstep s i s' hs) h₀
  constructor
  · exact fun h => (hinv h).mono fun s i hs => (hiff s i hs.1).1 hs.2
  · exact fun h => (hinv h).mono fun s i hs => (hiff s i hs.1).2 hs.2

/-- What holds throughout a run holds of the states that its steps, and one more, start from. -/
theorem Throughout.admits {Q : σ → Prop} (h : Throughout step Q s is) :
    Admits step (fun s _ => Q s) s (is ++ [i]) := by
  induction is generalizing s with
  | nil => exact ⟨h, trivial⟩
  | cons j is ih => exact ⟨h.1, ih h.2⟩

theorem Throughout.first {Q : σ → Prop} (h : Throughout step Q s is) : Q s := by
  cases is with
  | nil => exact h
  | cons i is => exact h.1

theorem Throughout.mono {Q Q' : σ → Prop} (h : Throughout step Q s is) (himp : ∀ s, Q s → Q' s) :
    Throughout step Q' s is := by
  induction is generalizing s with
  | nil => exact himp s h
  | cons i is ih => exact ⟨himp s h.1, ih h.2⟩

theorem throughout_iff {Q : σ → Prop} :
    Throughout step Q s is ↔ ∀ js ks, is = js ++ ks → Q (run step s js) := by
  induction is generalizing s with
  | nil =>
    constructor
    · rintro h js ks hjs
      obtain rfl : js = [] := (List.append_eq_nil_iff.1 hjs.symm).1
      exact h
    · exact fun h => h [] [] rfl
  | cons i is ih =>
    constructor
    · rintro ⟨h, ht⟩ (_ | ⟨j, js⟩) ks hjs
      · exact h
      · obtain ⟨rfl, rfl⟩ := List.cons.inj hjs
        exact ih.1 ht js ks rfl
    · exact fun h => ⟨h [] _ rfl, ih.2 fun js ks hjs => h (i :: js) ks (by simp [hjs])⟩

theorem throughout_of_step {P : σ → ι → Prop} {Inv : σ → Prop}
    (hstep : ∀ s i s', Inv s → P s i → step s i = .ok s' → Inv s')
    (h₀ : Inv s) (hadm : Admits step P s is) : Throughout step Inv s is := by
  refine throughout_iff.2 ?_
  rintro js ks rfl
  exact run_induction hstep h₀ (admits_append.1 hadm).1

/-- A property holds throughout exactly when every step meets the condition, if it decides the
property after a successful step and a failing step meets it. -/
theorem throughout_iff_admits {P : σ → ι → Prop} {Q : σ → Prop}
    (hok : ∀ s i s', Q s → step s i = .ok s' → (Q s' ↔ P s i))
    (herr : ∀ s i e, step s i = .error e → P s i) (h₀ : Q s) :
    Throughout step Q s is ↔ Admits step P s is := by
  induction is generalizing s with
  | nil => simpa [Throughout, Admits] using h₀
  | cons i is ih =>
    rcases next_cases step s i with ⟨s', hs, hn⟩ | ⟨⟨e, he⟩, hn⟩
    · simp only [Throughout, Admits, hn]
      constructor
      · rintro ⟨-, ht⟩
        exact ⟨(hok s i s' h₀ hs).1 ht.first, (ih ht.first).1 ht⟩
      · rintro ⟨hp, ht⟩
        exact ⟨h₀, (ih ((hok s i s' h₀ hs).2 hp)).2 ht⟩
    · simp only [Throughout, Admits, hn]
      exact ⟨fun h => ⟨herr s i e he, (ih h₀).1 h.2⟩, fun h => ⟨h₀, (ih h₀).2 h.2⟩⟩

/-- The same for a condition on the steps that succeed. -/
theorem throughout_iff_accepted {P : σ → ι → Prop} {Q : σ → Prop}
    (hok : ∀ s i s', Q s → step s i = .ok s' → (Q s' ↔ P s i)) (h₀ : Q s) :
    Throughout step Q s is ↔ Admits step (Accepted step fun s i _ => P s i) s is := by
  refine throughout_iff_admits ?_ ?_ h₀
  · intro s i s' hq h
    rw [hok s i s' hq h]
    exact ⟨fun hp _ _ => hp, fun hp => hp s' h⟩
  · intro s i e he s' h
    cases he.symm.trans h

theorem admits_accepted_congr {R R' : σ → ι → σ → Prop}
    (h : ∀ s i s', step s i = .ok s' → (R s i s' ↔ R' s i s')) :
    Admits step (Accepted step R) s is ↔ Admits step (Accepted step R') s is := by
  have hiff : Accepted step R = Accepted step R' := by
    funext s i
    exact propext (forall_congr' fun s' => forall_congr' fun hs => h s i s' hs)
  rw [hiff]

/-- The same in an environment `E` that keeps an invariant: the condition is enough for the
invariant, and a step after which the property holds meets the condition. -/
theorem throughout_iff_admits_of_inv {E P : σ → ι → Prop} {I Q : σ → Prop}
    (hstep : ∀ s i s', I s → E s i → P s i → step s i = .ok s' → I s')
    (hinv : ∀ s, I s → Q s)
    (hok : ∀ s i s', I s → E s i → step s i = .ok s' → Q s' → P s i)
    (herr : ∀ s i e, step s i = .error e → P s i) (h₀ : I s) (hE : Admits step E s is) :
    Throughout step Q s is ↔ Admits step P s is := by
  induction is generalizing s with
  | nil => simpa [Throughout, Admits] using hinv s h₀
  | cons i is ih =>
    rcases next_cases step s i with ⟨s', hs, hn⟩ | ⟨⟨e, he⟩, hn⟩
    · simp only [Throughout, Admits, hn]
      constructor
      · rintro ⟨-, ht⟩
        have hp := hok s i s' h₀ hE.1 hs ht.first
        exact ⟨hp, (ih (hstep s i s' h₀ hE.1 hp hs) (hn ▸ hE.2)).1 ht⟩
      · rintro ⟨hp, ht⟩
        exact ⟨hinv s h₀, (ih (hstep s i s' h₀ hE.1 hp hs) (hn ▸ hE.2)).2 ht⟩
    · simp only [Throughout, Admits, hn]
      exact ⟨fun h => ⟨herr s i e he, (ih h₀ (hn ▸ hE.2)).1 h.2⟩,
        fun h => ⟨hinv s h₀, (ih h₀ (hn ▸ hE.2)).2 h.2⟩⟩

/-- A run, seen through a map under which each step is one of another machine. -/
theorem run_map {τ κ ε' : Type} {step' : τ → κ → Except ε' τ} {f : σ → τ} {g : ι → κ}
    {P : σ → ι → Prop} (hstep : ∀ s i, P s i → f (next step s i) = next step' (f s) (g i))
    (hadm : Admits step P s is) : f (run step s is) = run step' (f s) (is.map g) := by
  induction is generalizing s with
  | nil => rfl
  | cons i is ih =>
    rw [run, List.map_cons, run, ← hstep s i hadm.1]
    exact ih hadm.2

theorem Throughout.last {Q : σ → Prop} (h : Throughout step Q s is) : Q (run step s is) :=
  throughout_iff.1 h is [] (List.append_nil is).symm

end

/-! ## Two machines side by side -/

section
variable {σ τ ι κ ε : Type}

/-- Each input is for one of the machines. -/
def par (step₁ : σ → ι → Except ε σ) (step₂ : τ → κ → Except ε τ) (s : σ × τ) :
    ι ⊕ κ → Except ε (σ × τ)
  | .inl i => (step₁ s.1 i).map fun s₁ => (s₁, s.2)
  | .inr i => (step₂ s.2 i).map fun s₂ => (s.1, s₂)

/-- A condition on steps that a property needs, and that is enough for it by an invariant. -/
structure Guards (step : σ → ι → Except ε σ) (I : σ → Prop) (P : σ → ι → Prop) (Q : σ → Prop) :
    Prop where
  holds : ∀ s, I s → Q s
  keeps : ∀ s i s', I s → P s i → step s i = .ok s' → I s'
  needed : ∀ s i s', I s → step s i = .ok s' → Q s' → P s i
  failing : ∀ s i e, step s i = .error e → P s i

variable {step₁ : σ → ι → Except ε σ} {step₂ : τ → κ → Except ε τ} {I₁ Q₁ : σ → Prop}
  {I₂ Q₂ : τ → Prop} {P₁ : σ → ι → Prop} {P₂ : τ → κ → Prop} {s : σ} {r r' : σ × τ}
  {is : List ι} {i : ι} {k : κ} {e : ε}

theorem map_eq_ok {α β : Type} {x : Except ε α} {f : α → β} {b : β} :
    x.map f = .ok b ↔ ∃ a, x = .ok a ∧ b = f a := by
  cases x <;> simp [Except.map, eq_comm]

theorem map_eq_error {α β : Type} {x : Except ε α} {f : α → β} :
    x.map f = .error e ↔ x = .error e := by
  cases x <;> simp [Except.map]

theorem Guards.throughout_iff (h : Guards step₁ I₁ P₁ Q₁) (h₀ : I₁ s) :
    Throughout step₁ Q₁ s is ↔ Admits step₁ P₁ s is :=
  throughout_iff_admits_of_inv (E := fun _ _ => True) (fun s i s' hs _ => h.keeps s i s' hs) h.holds
    (fun s i s' hs _ => h.needed s i s' hs) h.failing h₀ admits_true

theorem Guards.par (h₁ : Guards step₁ I₁ P₁ Q₁) (h₂ : Guards step₂ I₂ P₂ Q₂) :
    Guards (par step₁ step₂) (fun s => I₁ s.1 ∧ I₂ s.2) (fun s i => i.elim (P₁ s.1) (P₂ s.2))
      (fun s => Q₁ s.1 ∧ Q₂ s.2) where
  holds s hs := ⟨h₁.holds _ hs.1, h₂.holds _ hs.2⟩
  keeps s i s' hs hp h := by
    cases i with
    | inl i =>
      obtain ⟨s₁, hs₁, rfl⟩ := map_eq_ok.1 h
      exact ⟨h₁.keeps _ i _ hs.1 hp hs₁, hs.2⟩
    | inr i =>
      obtain ⟨s₂, hs₂, rfl⟩ := map_eq_ok.1 h
      exact ⟨hs.1, h₂.keeps _ i _ hs.2 hp hs₂⟩
  needed s i s' hs h hq := by
    cases i with
    | inl i =>
      obtain ⟨s₁, hs₁, rfl⟩ := map_eq_ok.1 h
      exact h₁.needed _ i _ hs.1 hs₁ hq.1
    | inr i =>
      obtain ⟨s₂, hs₂, rfl⟩ := map_eq_ok.1 h
      exact h₂.needed _ i _ hs.2 hs₂ hq.2
  failing s i e h := by
    cases i with
    | inl i => exact h₁.failing _ i e (map_eq_error.1 h)
    | inr i => exact h₂.failing _ i e (map_eq_error.1 h)

end

/-! ## Totals over a run -/

section
variable {σ ι ε : Type} (step : σ → ι → Except ε σ)

/-- A quantity summed over the inputs of a run, each in the state it is given to. -/
def total {M : Type} [AddCommMonoid M] (f : σ → ι → M) : σ → List ι → M
  | _, [] => 0
  | s, i :: is => f s i + total f (next step s i) is

variable {step} {s : σ} {is : List ι}

/-- Totals are compared step by step. -/
theorem total_mul_le_mul {P : σ → ι → Prop} {f f' : σ → ι → Nat} {c d : Nat}
    (hstep : ∀ s i, P s i → f s i * c ≤ f' s i * d) (hadm : Admits step P s is) :
    total step f s is * c ≤ total step f' s is * d := by
  induction is generalizing s with
  | nil => simp [total]
  | cons i is ih =>
    rw [total, total, Nat.add_mul, Nat.add_mul]
    exact Nat.add_le_add (hstep s i hadm.1) (ih hadm.2)

/-- A total in other units. -/
theorem map_total {M N : Type} [AddCommMonoid M] [AddCommMonoid N] (φ : M →+ N) (f : σ → ι → M) :
    φ (total step f s is) = total step (fun s i => φ (f s i)) s is := by
  induction is generalizing s with
  | nil => exact map_zero φ
  | cons i is ih => rw [total, total, map_add, ih]

/-- What every step adds to a quantity at most adds up to what the run adds at most. -/
theorem le_add_total {M : Type} [AddCommMonoid M] [PartialOrder M] [IsOrderedAddMonoid M]
    {P : σ → ι → Prop} {f : σ → ι → M} {g : σ → M}
    (hstep : ∀ s i, P s i → g (next step s i) ≤ g s + f s i) (hadm : Admits step P s is) :
    g (run step s is) ≤ g s + total step f s is := by
  induction is generalizing s with
  | nil => exact (add_zero _).ge
  | cons i is ih =>
    rw [total, run, ← add_assoc]
    exact (ih hadm.2).trans (add_le_add_left (hstep s i hadm.1) _)

/-- What every step takes off a quantity adds up to what the run takes off. -/
theorem total_add_eq {M : Type} [AddCommMonoid M] {P : σ → ι → Prop} {f : σ → ι → M} {g : σ → M}
    (hstep : ∀ s i, P s i → f s i + g (next step s i) = g s) (hadm : Admits step P s is) :
    total step f s is + g (run step s is) = g s := by
  induction is generalizing s with
  | nil => exact zero_add _
  | cons i is ih => rw [total, run, add_assoc, ih hadm.2, hstep s i hadm.1]

/-- A balance with inflows `e` and outflows `c`, where something may be lost in every step. -/
theorem add_total_le {M : Type} [AddCommMonoid M] [PartialOrder M] [IsOrderedAddMonoid M]
    {P : σ → ι → Prop} {g : σ → M} {c e : σ → ι → M}
    (hstep : ∀ s i, P s i → g (next step s i) + c s i ≤ g s + e s i) (hadm : Admits step P s is) :
    g (run step s is) + total step c s is ≤ g s + total step e s is := by
  induction is generalizing s with
  | nil => exact le_rfl
  | cons i is ih =>
    rw [total, total, run]
    calc g (run step (next step s i) is) + (c s i + total step c (next step s i) is)
        = g (run step (next step s i) is) + total step c (next step s i) is + c s i := by
          rw [add_comm (c s i), add_assoc]
      _ ≤ g (next step s i) + total step e (next step s i) is + c s i :=
          add_le_add_left (ih hadm.2) _
      _ = g (next step s i) + c s i + total step e (next step s i) is := add_right_comm _ _ _
      _ ≤ g s + e s i + total step e (next step s i) is := add_le_add_left (hstep s i hadm.1) _
      _ = g s + (e s i + total step e (next step s i) is) := add_assoc _ _ _

theorem total_mul_le {P : σ → ι → Prop} {f f' : σ → ι → Nat} {c : Nat}
    (hstep : ∀ s i, P s i → f s i * c ≤ f' s i) (hadm : Admits step P s is) :
    total step f s is * c ≤ total step f' s is := by
  have h := total_mul_le_mul (d := 1) (fun s i hp => (hstep s i hp).trans_eq (mul_one _).symm) hadm
  rwa [mul_one] at h

end

/-! ## Recording a history -/

section
variable {σ ι ε γ : Type} (step : σ → ι → Except ε σ) (record : σ → ι → σ → γ → γ)

/-- The machine with a history beside its state; a successful step updates it. -/
def recording (r : σ × γ) (i : ι) : Except ε (σ × γ) :=
  match step r.1 i with
  | .ok s' => .ok (s', record r.1 i s' r.2)
  | .error e => .error e

variable {step record} {r r' : σ × γ} {i : ι} {is : List ι}

theorem recording_eq_ok :
    recording step record r i = .ok r' ↔
      ∃ s', step r.1 i = .ok s' ∧ r' = (s', record r.1 i s' r.2) := by
  unfold recording
  cases h : step r.1 i with
  | ok s' => simp [eq_comm]
  | error e => simp

theorem next_recording_fst : (next (recording step record) r i).1 = next step r.1 i := by
  unfold next recording
  cases h : step r.1 i <;> rfl

theorem admits_recording {P : σ → ι → Prop} :
    Admits (recording step record) (fun r i => P r.1 i) r is ↔ Admits step P r.1 is := by
  induction is generalizing r with
  | nil => simp [Admits]
  | cons i is ih => rw [Admits, Admits, ih, next_recording_fst]

end

end Machine
