import Mathlib.Data.List.Basic
import Mathlib.Data.Nat.Bitwise
import Mathlib.Logic.Function.Basic

/-!
# Regions of a memory

A memory gives each address a byte, of any type. `alignUp` rounds an address up to a multiple, and
`toNat_and_not_mask` is its form with a mask. `Packed bottom pos rs` says of a list of regions that
they lie between two addresses and do not overlap; it is kept by a region placed at or above the
upper one (`Packed.push`).

`contents mem rs` are the bytes of the regions, as one list for each. Of packed regions they change
as separate lists do: a byte written in one region is written in its list and no other
(`contents_write`), and what is written outside of the regions is not seen (`contents_congr`).
-/

set_option autoImplicit false

namespace Regions

/-! ## Alignment -/

section
variable {p a : Nat}

def alignUp (p a : Nat) : Nat := (p + (a - 1)) / a * a

theorem dvd_alignUp : a ∣ alignUp p a := Nat.dvd_mul_left a _

theorem le_alignUp (ha : 0 < a) : p ≤ alignUp p a := by
  have hmod := Nat.div_add_mod' (p + (a - 1)) a
  have hlt := Nat.mod_lt (p + (a - 1)) ha
  unfold alignUp
  omega

theorem alignUp_le : alignUp p a ≤ p + (a - 1) := Nat.div_mul_le_self _ _

/-- Clearing the bits of a mask rounds down to a multiple. -/
theorem toNat_and_not_mask {w k : Nat} {x m : BitVec w} (hm : m.toNat = 2 ^ k - 1) :
    (x &&& ~~~m).toNat = x.toNat / 2 ^ k * 2 ^ k := by
  refine Nat.eq_of_testBit_eq fun i => ?_
  rw [BitVec.toNat_and, Nat.testBit_and, BitVec.testBit_toNat, BitVec.testBit_toNat,
    Nat.testBit_mul_two_pow, Nat.testBit_div_two_pow, BitVec.testBit_toNat, BitVec.getLsbD_not,
    ← BitVec.testBit_toNat m, hm, Nat.testBit_two_pow_sub_one]
  by_cases hi : k ≤ i
  · have hlow : decide (i < k) = false := decide_eq_false (not_lt.2 hi)
    have hwide : (x.getLsbD i && decide (i < w)) = x.getLsbD i := by
      by_cases hw : i < w
      · rw [decide_eq_true hw, Bool.and_true]
      · rw [BitVec.getLsbD_of_ge x i (not_lt.1 hw), Bool.false_and]
    rw [hlow, decide_eq_true hi, Bool.not_false, Bool.and_true, Bool.true_and,
      Nat.sub_add_cancel hi, hwide]
  · have hlow : decide (i < k) = true := decide_eq_true (not_le.1 hi)
    rw [hlow, decide_eq_false hi, Bool.not_true, Bool.and_false, Bool.and_false, Bool.false_and]

end

/-! ## Memory -/

structure Region where
  address : Nat
  size : Nat
deriving DecidableEq

def Region.Disjoint (r s : Region) : Prop :=
  r.address + r.size ≤ s.address ∨ s.address + s.size ≤ r.address

section
variable {β : Type} {mem mem' : Nat → β} {r s : Region} {rs : List Region} {bottom pos p n : Nat}

/-- The bytes of a region. -/
def Region.load (mem : Nat → β) (r : Region) : List β :=
  (List.range r.size).map fun k => mem (r.address + k)

def contents (mem : Nat → β) (rs : List Region) : List (List β) := rs.map (Region.load mem)

/-- The regions lie between two addresses and do not overlap. -/
structure Packed (bottom pos : Nat) (rs : List Region) : Prop where
  le : bottom ≤ pos
  above : ∀ r ∈ rs, bottom ≤ r.address
  below : ∀ r ∈ rs, r.address + r.size ≤ pos
  disjoint : rs.Pairwise Region.Disjoint

theorem packed_nil (h : bottom ≤ pos) : Packed bottom pos [] :=
  ⟨h, by simp, by simp, List.Pairwise.nil⟩

theorem Packed.mono (h : Packed bottom pos rs) (hp : pos ≤ p) : Packed bottom p rs where
  le := h.le.trans hp
  above := h.above
  below r hr := (h.below r hr).trans hp
  disjoint := h.disjoint

/-- A region at or above the upper address. -/
theorem Packed.push (h : Packed bottom pos rs) (hp : pos ≤ p) :
    Packed bottom (p + n) (rs ++ [⟨p, n⟩]) where
  le := by have := h.le; omega
  above r hr := by
    rcases List.mem_append.1 hr with hr | hr
    · exact h.above r hr
    · obtain rfl := List.mem_singleton.1 hr
      exact h.le.trans hp
  below r hr := by
    rcases List.mem_append.1 hr with hr | hr
    · have := h.below r hr
      omega
    · obtain rfl := List.mem_singleton.1 hr
      exact le_rfl
  disjoint := by
    refine List.pairwise_append.2 ⟨h.disjoint, List.pairwise_singleton _ _, fun r hr s hs => ?_⟩
    obtain rfl := List.mem_singleton.1 hs
    exact .inl ((h.below r hr).trans hp)

theorem length_load : (r.load mem).length = r.size := by
  rw [Region.load, List.length_map, List.length_range]

theorem getElem?_load {k : Nat} :
    (r.load mem)[k]? = if k < r.size then some (mem (r.address + k)) else none := by
  rw [Region.load, List.getElem?_map]
  by_cases hk : k < r.size
  · rw [if_pos hk, List.getElem?_range hk, Option.map_some]
  · rw [if_neg hk, List.getElem?_eq_none (by rw [List.length_range]; omega), Option.map_none]

theorem load_congr (h : ∀ a, r.address ≤ a → a < r.address + r.size → mem' a = mem a) :
    r.load mem' = r.load mem := by
  refine List.map_congr_left fun k hk => ?_
  have hlt := List.mem_range.1 hk
  exact h _ (by omega) (by omega)

/-- A region where every byte is the same. -/
theorem load_replicate {z : β} (h : ∀ a, r.address ≤ a → a < r.address + r.size → mem a = z) :
    r.load mem = List.replicate r.size z := by
  refine List.eq_replicate_iff.2 ⟨length_load, fun b hb => ?_⟩
  obtain ⟨k, hk, rfl⟩ := List.mem_map.1 hb
  have hlt := List.mem_range.1 hk
  exact h _ (by omega) (by omega)

/-- What is written outside of the regions is not seen. -/
theorem contents_congr (h : Packed bottom pos rs)
    (hmem : ∀ a, bottom ≤ a → a < pos → mem' a = mem a) : contents mem' rs = contents mem rs := by
  refine List.map_congr_left fun r hr => load_congr fun a hlow hhigh => ?_
  have habove := h.above r hr
  have hbelow := h.below r hr
  exact hmem a (by omega) (by omega)

theorem contents_push : contents mem (rs ++ [r]) = contents mem rs ++ [r.load mem] := by
  rw [contents, List.map_append, List.map_cons, List.map_nil]
  rfl

theorem load_write {k : Nat} {b : β} :
    r.load (Function.update mem (r.address + k) b) = (r.load mem).set k b := by
  refine List.ext_getElem ?_ fun j hj _ => ?_
  · rw [List.length_set, length_load, length_load]
  · rw [length_load] at hj
    simp only [Region.load, List.getElem_set, List.getElem_map, List.getElem_range]
    by_cases hkj : k = j
    · rw [if_pos hkj, hkj, Function.update_self]
    · rw [if_neg hkj, Function.update_of_ne (by omega)]

/-- **A byte written in one region** is written in its list and no other. -/
theorem contents_write {i k : Nat} {b : β} (h : rs.Pairwise Region.Disjoint)
    (hi : rs[i]? = some r) (hk : k < r.size) :
    contents (Function.update mem (r.address + k) b) rs
      = (contents mem rs).set i ((r.load mem).set k b) := by
  obtain ⟨hlt, rfl⟩ := List.getElem?_eq_some_iff.1 hi
  refine List.ext_getElem ?_ fun j hj _ => ?_
  · rw [List.length_set, contents, contents, List.length_map, List.length_map]
  · have hlen : j < rs.length := by rwa [contents, List.length_map] at hj
    simp only [contents, List.getElem_map, List.getElem_set]
    by_cases hij : i = j
    · subst hij
      rw [if_pos rfl, load_write]
    · rw [if_neg hij]
      refine load_congr fun a hlow hhigh => Function.update_of_ne ?_ _ _
      have hdisjoint : Region.Disjoint rs[i] rs[j] ∨ Region.Disjoint rs[j] rs[i] := by
        rcases Nat.lt_or_gt_of_ne hij with hl | hl
        · exact .inl (List.pairwise_iff_getElem.1 h i j hlt hlen hl)
        · exact .inr (List.pairwise_iff_getElem.1 h j i hlen hlt hl)
      unfold Region.Disjoint at hdisjoint
      omega

end

end Regions
