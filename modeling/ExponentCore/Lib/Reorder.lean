import ExponentCore.Lib.Machine
import Mathlib.Data.List.Dedup
import Mathlib.Data.List.Perm.Basic

/-!
# Runs in another order, and runs seen in part

Here a run is one whose inputs are all accepted, `is.foldlM step s = .ok s'`.

`Swaps` says that two inputs accepted one after the other are accepted in the other order too, and
with the same result, `Absorbs` that an input accepted once is accepted again and changes nothing
more. Where a step does both, the result of a run depends on which inputs it has, not on their order
or number (`foldlM_of_mem_iff`).

`Sees` says that a second machine follows the first through what it sees of the inputs: an input it
sees is a step of both, one it does not see leaves the two states as related as they were. Then a
run of the first is a run of the second on what it sees (`Sees.foldlM`), and two runs that look the
same end the same for it (`Sees.foldlM_unique`).
-/

set_option autoImplicit false

namespace Machine

section
variable {σ ι ε : Type} {step : σ → ι → Except ε σ} {s s' : σ} {i : ι} {is js : List ι}

/-- Inputs accepted one after the other are accepted in the other order, with the same result. -/
def Swaps (step : σ → ι → Except ε σ) : Prop :=
  ∀ s i j s₁ s₂, step s i = .ok s₁ → step s₁ j = .ok s₂ →
    ∃ s₃, step s j = .ok s₃ ∧ step s₃ i = .ok s₂

/-- An input accepted once is accepted again, and changes nothing more. -/
def Absorbs (step : σ → ι → Except ε σ) : Prop :=
  ∀ s i s₁, step s i = .ok s₁ → step s₁ i = .ok s₁

theorem foldlM_cons_eq_ok :
    (i :: is).foldlM step s = .ok s' ↔ ∃ s₁, step s i = .ok s₁ ∧ is.foldlM step s₁ = .ok s' := by
  rw [List.foldlM_cons]
  cases h : step s i with
  | ok s₁ =>
    constructor
    · intro hr
      exact ⟨s₁, rfl, hr⟩
    · rintro ⟨s₂, heq, hr⟩
      cases heq
      exact hr
  | error e =>
    constructor
    · intro hr
      cases hr
    · rintro ⟨s₂, heq, hr⟩
      cases heq

theorem foldlM_of_perm (hswap : Swaps step) (hp : is.Perm js)
    (h : is.foldlM step s = .ok s') : js.foldlM step s = .ok s' := by
  induction hp generalizing s with
  | nil => exact h
  | cons i hp ih =>
    obtain ⟨s₁, h₁, h₂⟩ := foldlM_cons_eq_ok.1 h
    exact foldlM_cons_eq_ok.2 ⟨s₁, h₁, ih h₂⟩
  | swap i j l =>
    obtain ⟨s₁, h₁, h₂⟩ := foldlM_cons_eq_ok.1 h
    obtain ⟨s₂, h₂, h₃⟩ := foldlM_cons_eq_ok.1 h₂
    obtain ⟨s₃, h₄, h₅⟩ := hswap s j i s₁ s₂ h₁ h₂
    exact foldlM_cons_eq_ok.2 ⟨s₃, h₄, foldlM_cons_eq_ok.2 ⟨s₂, h₅, h₃⟩⟩
  | trans hp hq ih₁ ih₂ => exact ih₂ (ih₁ h)

/-- An input of a run may be given once more. -/
theorem foldlM_cons_of_mem (hswap : Swaps step) (habsorb : Absorbs step) (hi : i ∈ is)
    (h : is.foldlM step s = .ok s') : (i :: is).foldlM step s = .ok s' := by
  obtain ⟨l, hl⟩ : ∃ l, is.Perm (i :: l) := by
    obtain ⟨l₁, l₂, rfl⟩ := List.append_of_mem hi
    exact ⟨l₁ ++ l₂, List.perm_middle⟩
  obtain ⟨s₁, h₁, h₂⟩ := foldlM_cons_eq_ok.1 (foldlM_of_perm hswap hl h)
  have htwice : (i :: i :: l).foldlM step s = .ok s' :=
    foldlM_cons_eq_ok.2 ⟨s₁, h₁, foldlM_cons_eq_ok.2 ⟨s₁, habsorb s i s₁ h₁, h₂⟩⟩
  exact foldlM_of_perm hswap (hl.symm.cons i) htwice

/-- An input that comes again may be left out. -/
theorem foldlM_of_cons_mem (hswap : Swaps step) (habsorb : Absorbs step) (hi : i ∈ is)
    (h : (i :: is).foldlM step s = .ok s') : is.foldlM step s = .ok s' := by
  obtain ⟨l, hl⟩ : ∃ l, is.Perm (i :: l) := by
    obtain ⟨l₁, l₂, rfl⟩ := List.append_of_mem hi
    exact ⟨l₁ ++ l₂, List.perm_middle⟩
  obtain ⟨s₁, h₁, h₂⟩ := foldlM_cons_eq_ok.1 (foldlM_of_perm hswap (hl.cons i) h)
  obtain ⟨s₂, h₂, h₃⟩ := foldlM_cons_eq_ok.1 h₂
  obtain rfl : s₂ = s₁ := Except.ok.inj (h₂.symm.trans (habsorb s i s₁ h₁))
  exact foldlM_of_perm hswap hl.symm (foldlM_cons_eq_ok.2 ⟨s₂, h₁, h₃⟩)

theorem foldlM_dedup [DecidableEq ι] (hswap : Swaps step) (habsorb : Absorbs step) :
    is.dedup.foldlM step s = .ok s' ↔ is.foldlM step s = .ok s' := by
  induction is generalizing s with
  | nil => rw [List.dedup_nil]
  | cons i is ih =>
    by_cases hi : i ∈ is
    · rw [List.dedup_cons_of_mem hi, ih]
      exact ⟨foldlM_cons_of_mem hswap habsorb hi, foldlM_of_cons_mem hswap habsorb hi⟩
    · rw [List.dedup_cons_of_notMem hi, foldlM_cons_eq_ok, foldlM_cons_eq_ok]
      simp only [ih]

/-- **Neither order nor number matters**: a run on the same inputs has the same result. -/
theorem foldlM_of_mem_iff [DecidableEq ι] (hswap : Swaps step) (habsorb : Absorbs step)
    (hmem : ∀ i, i ∈ is ↔ i ∈ js) (h : is.foldlM step s = .ok s') :
    js.foldlM step s = .ok s' := by
  have hperm : is.dedup.Perm js.dedup := by
    refine (List.perm_ext_iff_of_nodup (List.nodup_dedup is) (List.nodup_dedup js)).2 fun i => ?_
    rw [List.mem_dedup, List.mem_dedup]
    exact hmem i
  exact (foldlM_dedup hswap habsorb).1
    (foldlM_of_perm hswap hperm ((foldlM_dedup hswap habsorb).2 h))

end

/-! ## What another machine sees -/

section
variable {σ τ ι κ ε ε' : Type} {step : σ → ι → Except ε σ} {step' : τ → κ → Except ε' τ}
  {sight : ι → Option κ} {R : σ → τ → Prop}

/-- The second machine follows the first through what it sees of the inputs. -/
structure Sees (step : σ → ι → Except ε σ) (step' : τ → κ → Except ε' τ) (sight : ι → Option κ)
    (R : σ → τ → Prop) : Prop where
  hidden : ∀ s i s' t, sight i = none → step s i = .ok s' → R s t → R s' t
  seen : ∀ s i s' t k, sight i = some k → step s i = .ok s' → R s t →
    ∃ t', step' t k = .ok t' ∧ R s' t'

/-- **A run of the first machine** is a run of the second on what it sees. -/
theorem Sees.foldlM (h : Sees step step' sight R) {s s' : σ} {t : τ} {is : List ι} (hR : R s t)
    (hrun : is.foldlM step s = .ok s') :
    ∃ t', (is.filterMap sight).foldlM step' t = .ok t' ∧ R s' t' := by
  induction is generalizing s t with
  | nil =>
    cases hrun
    exact ⟨t, rfl, hR⟩
  | cons i is ih =>
    obtain ⟨s₁, h₁, h₂⟩ := foldlM_cons_eq_ok.1 hrun
    cases hi : sight i with
    | none =>
      rw [List.filterMap_cons_none hi]
      exact ih (h.hidden s i s₁ t hi h₁ hR) h₂
    | some k =>
      obtain ⟨t₁, ht₁, hR₁⟩ := h.seen s i s₁ t k hi h₁ hR
      obtain ⟨t', ht', hR'⟩ := ih hR₁ h₂
      rw [List.filterMap_cons_some hi]
      exact ⟨t', foldlM_cons_eq_ok.2 ⟨t₁, ht₁, ht'⟩, hR'⟩

/-- **Two runs that look the same** end the same for the second machine. -/
theorem Sees.foldlM_unique (h : Sees step step' sight R) {s₁ s₂ s₁' s₂' : σ} {t : τ}
    {is js : List ι} (hR₁ : R s₁ t) (hR₂ : R s₂ t)
    (hsame : is.filterMap sight = js.filterMap sight) (hrun₁ : is.foldlM step s₁ = .ok s₁')
    (hrun₂ : js.foldlM step s₂ = .ok s₂') : ∃ t', R s₁' t' ∧ R s₂' t' := by
  obtain ⟨t₁, ht₁, h₁⟩ := h.foldlM hR₁ hrun₁
  obtain ⟨t₂, ht₂, h₂⟩ := h.foldlM hR₂ hrun₂
  rw [hsame] at ht₁
  obtain rfl : t₂ = t₁ := Except.ok.inj (ht₂.symm.trans ht₁)
  exact ⟨t₂, h₁, h₂⟩

end

end Machine
