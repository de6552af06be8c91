import ExponentCore.Lib.ListSum

/-!
# Accounts that settle lazily

An index grows, and an account is owed its weight for every unit by which the index has grown since
the account was last settled. Settling pays that out, rounded down, and moves the checkpoint of the
account to the index. `totalOwed` is the liability over a list of accounts: it grows by the growth
of the index times the total weight (`totalOwed_advance`), so it stays within a fund that is fed at
least at that rate (`totalOwed_advance_le`), and a settlement does not raise it (`owed_settle_le`).

`Funded` packs the liability and the order of the checkpoints into an invariant, with one rule for
each thing that may happen: an account changes (`Funded.set`), one is opened (`Funded.push`), the
index grows (`Funded.advance`).
-/

set_option autoImplicit false

namespace Accumulator

/-- How to read an account: what it has been paid, its weight, and the index up to which it has
been paid. -/
structure View (α K : Type) where
  settled : α → K
  weight : α → K
  checkpoint : α → K

namespace View

variable {α K : Type} {index growth supply : K} {a b : α} {l : List α}

section
variable [CommRing K] (V : View α K)

/-- What an account has been paid and what it would be paid now. -/
def owed (index : K) (a : α) : K := V.settled a + V.weight a * (index - V.checkpoint a)

def totalOwed (index : K) (l : List α) : K := (l.map (V.owed index)).sum

def totalWeight (l : List α) : K := (l.map V.weight).sum

variable {V}

theorem owed_of_checkpoint (h : V.checkpoint a = index) : V.owed index a = V.settled a := by
  rw [owed, h, sub_self, mul_zero, add_zero]

theorem owed_of_weight (h : V.weight a = 0) : V.owed index a = V.settled a := by
  rw [owed, h, zero_mul, add_zero]

theorem owed_advance : V.owed (index + growth) a = V.owed index a + growth * V.weight a := by
  rw [owed, owed]
  ring

theorem totalOwed_advance :
    V.totalOwed (index + growth) l = V.totalOwed index l + growth * V.totalWeight l := by
  induction l with
  | nil => simp [totalOwed, totalWeight]
  | cons a l ih =>
    simp only [totalOwed, totalWeight, List.map_cons, List.sum_cons] at ih ⊢
    rw [ih, owed_advance]
    ring

end

section
variable [CommRing K] [LinearOrder K] [IsStrictOrderedRing K] {V : View α K}

/-- A fund that is fed for at least the total weight keeps up with the index. -/
theorem totalOwed_advance_le {i g : K} (hg : 0 ≤ g) (hw : V.totalWeight l ≤ supply) :
    V.totalOwed (i + g) l ≤ V.totalOwed i l + g * supply := by
  rw [totalOwed_advance]
  exact add_le_add_right (mul_le_mul_of_nonneg_left hw hg) _

omit [IsStrictOrderedRing K] in
/-- Settling for no more than is owed does not raise what is owed. -/
theorem owed_settle_le (hc : V.checkpoint b = index)
    (hs : V.settled b ≤ V.settled a + V.weight a * (index - V.checkpoint a)) :
    V.owed index b ≤ V.owed index a := by
  rw [owed_of_checkpoint hc]
  exact hs

theorem settled_le_owed (hw : 0 ≤ V.weight a) (hc : V.weight a ≠ 0 → V.checkpoint a ≤ index) :
    V.settled a ≤ V.owed index a := by
  rcases hw.eq_or_lt with h0 | hpos
  · rw [owed_of_weight h0.symm]
  · exact le_add_of_nonneg_right (mul_nonneg hw (sub_nonneg.2 (hc hpos.ne')))

theorem sum_settled_le_totalOwed {i : K} (hw : ∀ a ∈ l, 0 ≤ V.weight a)
    (hc : ∀ a ∈ l, V.weight a ≠ 0 → V.checkpoint a ≤ i) :
    (l.map V.settled).sum ≤ V.totalOwed i l :=
  List.sum_le_sum fun a ha => settled_le_owed (hw a ha) (hc a ha)

/-! ## Funds -/

/-- **A fund covers all accounts**, and none of them is paid beyond the index. -/
structure Funded (V : View α K) (index fund : K) (l : List α) : Prop where
  behind : ∀ a ∈ l, V.checkpoint a ≤ index
  covered : V.totalOwed index l ≤ fund

variable {fund fund' feed : K} {i : Nat}

omit [IsStrictOrderedRing K] in
theorem Funded.mono (h : V.Funded index fund l) (hf : fund ≤ fund') : V.Funded index fund' l :=
  ⟨h.behind, h.covered.trans hf⟩

/-- An account changes, and the fund with it. -/
theorem Funded.set (h : V.Funded index fund l) (hi : l[i]? = some a)
    (hc : V.checkpoint b ≤ index) (ho : V.owed index b + fund ≤ V.owed index a + fund') :
    V.Funded index fund' (l.set i b) where
  behind c hmem := by
    rcases List.mem_or_eq_of_mem_set hmem with hmem | rfl
    · exact h.behind c hmem
    · exact hc
  covered := by
    have hsum := ListSum.sum_map_set (f := V.owed index) (b := b) hi
    have hcov := h.covered
    rw [totalOwed] at hcov ⊢
    linarith only [hsum, hcov, ho]

theorem Funded.push (h : V.Funded index fund l) (hc : V.checkpoint b ≤ index)
    (ho : V.owed index b ≤ 0) : V.Funded index fund (l ++ [b]) where
  behind c hmem := by
    rcases List.mem_append.1 hmem with hmem | hmem
    · exact h.behind c hmem
    · rw [List.mem_singleton.1 hmem]
      exact hc
  covered := by
    have hcov := h.covered
    rw [totalOwed] at hcov ⊢
    rw [ListSum.sum_map_append_singleton]
    linarith only [hcov, ho]

/-- The index grows, and the fund is fed for the total weight. -/
theorem Funded.advance (h : V.Funded index fund l) (hg : 0 ≤ growth)
    (hf : growth * V.totalWeight l ≤ feed) : V.Funded (index + growth) (fund + feed) l where
  behind a ha := (h.behind a ha).trans (le_add_of_nonneg_right hg)
  covered := by
    rw [totalOwed_advance]
    exact add_le_add h.covered hf

/-- What one account is owed is within the fund. -/
theorem Funded.owed_le (h : V.Funded index fund l) (hw : ∀ a ∈ l, 0 ≤ V.weight a)
    (hs : ∀ a ∈ l, 0 ≤ V.settled a) (ha : a ∈ l) : V.owed index a ≤ fund := by
  have hnonneg : ∀ y ∈ l.map (V.owed index), 0 ≤ y := by
    intro y hy
    obtain ⟨b, hb, rfl⟩ := List.mem_map.1 hy
    exact (hs b hb).trans (settled_le_owed (hw b hb) fun _ => h.behind b hb)
  exact (List.single_le_sum hnonneg _ (List.mem_map_of_mem ha)).trans h.covered

/-- What one account has been paid is within the fund. -/
theorem Funded.settled_le (h : V.Funded index fund l) (hw : ∀ a ∈ l, 0 ≤ V.weight a)
    (hs : ∀ a ∈ l, 0 ≤ V.settled a) (ha : a ∈ l) : V.settled a ≤ fund :=
  (settled_le_owed (hw a ha) fun _ => h.behind a ha).trans (h.owed_le hw hs ha)

end

end View

end Accumulator
