import Mathlib

/-!
# Lists when one entry changes

The sum of a function over a list of accounts, and the other entries, when one account is replaced
or one is added. The statements about sums add on both sides rather than subtract, so they hold over
the naturals as well.
-/

set_option autoImplicit false

namespace ListSum

variable {α M : Type} [AddCommMonoid M] {f : α → M} {l : List α} {i : Nat} {a b : α}

/-- Replacing an entry trades its value for the new one. -/
theorem sum_map_set (h : l[i]? = some a) :
    ((l.set i b).map f).sum + f a = (l.map f).sum + f b := by
  induction l generalizing i with
  | nil => simp at h
  | cons x l ih =>
    cases i with
    | zero =>
      obtain rfl : x = a := by simpa using h
      simp only [List.set_cons_zero, List.map_cons, List.sum_cons]
      rw [add_comm (f b), add_comm (f x), add_right_comm]
    | succ i =>
      have h' : l[i]? = some a := by simpa using h
      simp only [List.set_cons_succ, List.map_cons, List.sum_cons]
      rw [add_assoc, ih h', ← add_assoc]

theorem sum_map_append_singleton : ((l ++ [a]).map f).sum = (l.map f).sum + f a := by
  simp

/-- An entry is replaced by one with the same image. -/
theorem map_set_of_eq {β : Type} {f : α → β} {l : List α} {i : Nat} {a b : α} (ha : l[i]? = some a)
    (h : f b = f a) : (l.set i b).map f = l.map f := by
  obtain ⟨hlt, rfl⟩ := List.getElem?_eq_some_iff.1 ha
  have hmap : i < (l.map f).length := by rwa [List.length_map]
  calc (l.set i b).map f
      = (l.map f).set i (l.map f)[i] := by rw [List.map_set, h, List.getElem_map]
    _ = l.map f := List.set_getElem_self hmap

/-- Adding an entry leaves the others alone. -/
theorem getElem?_concat_of_ne (h : i ≠ l.length) : (l ++ [a])[i]? = l[i]? := by
  rcases lt_or_gt_of_ne h with hlt | hlt
  · exact List.getElem?_append_left hlt
  · rw [List.getElem?_eq_none (by rw [List.length_append, List.length_singleton]; exact hlt),
      List.getElem?_eq_none hlt.le]

end ListSum
