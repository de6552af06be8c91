import Mathlib

/-!
# Trackers that sit in slots

A registry lists streams in slots: a new stream takes the next slot, and a stream that is taken off
the list moves the later ones down. Holders keep a tracker for each slot and are not told. A
`Ledger` beside them knows the streams by name: the stream that each tracker was made for, and by
stream the index at which a holder has last settled it.

`Tracks` is what holds of trackers and ledger as long as slots and names agree (`Aligned`). Settling
keeps it (`Tracks.settle`); a list that grows or shrinks keeps it exactly when no tracker is in the
way (`Tracks.aligned_add_iff`, `Tracks.aligned_remove_iff`).
-/

set_option autoImplicit false

namespace Slots

/-- The streams in their slots, each by the number under which it was listed. -/
structure Registry where
  next : Nat := 0
  listed : List Nat := []

/-- The stream that each tracker of a holder was made for, and what the holder has seen, by stream.
-/
structure Marks (V : Type) where
  names : List Nat
  seen : Nat → V

namespace Registry

variable (r : Registry)

def add : Registry := { next := r.next + 1, listed := r.listed ++ [r.next] }

def remove (slot : Nat) : Registry := { r with listed := r.listed.eraseIdx slot }

/-- The index of a stream, where there is one index for each slot. -/
def indexOf {V : Type} (indexes : List V) (s : Nat) : Option V := indexes[r.listed.idxOf s]?

/-- No name is used twice. -/
structure WellNamed : Prop where
  nodup : r.listed.Nodup
  lt_next : ∀ s ∈ r.listed, s < r.next

end Registry

namespace Marks

variable {V : Type}

def start [Zero V] : Marks V := ⟨[], fun _ => 0⟩

/-- The missing trackers are made, and every stream of the list is settled. -/
def settle (r : Registry) (indexes : List V) (m : Marks V) : Marks V where
  names := m.names ++ r.listed.drop m.names.length
  seen s := (r.indexOf indexes s).getD (m.seen s)

end Marks

section
variable {V : Type} {r : Registry} {m : Marks V} {ts ts' indexes : List V} {slot k s : Nat} {x : V}

/-- Every tracker is in the slot of the stream that it was made for, at the index at which that
stream was settled. -/
structure Aligned (r : Registry) (m : Marks V) (ts : List V) : Prop where
  names : ∀ k s n : Nat, r.listed[k]? = some s → m.names[k]? = some n → n = s
  seen : ∀ (k s : Nat) (t : V), r.listed[k]? = some s → ts[k]? = some t → t = m.seen s

structure Tracks [Zero V] (r : Registry) (m : Marks V) (ts : List V) : Prop
    extends Aligned r m ts where
  length : m.names.length = ts.length
  lt_next : ∀ n ∈ m.names, n < r.next
  future : ∀ s : Nat, r.next ≤ s → m.seen s = 0
  /-- a stream without a tracker has not been seen -/
  unseen : ∀ k s : Nat, r.listed[k]? = some s → ts.length ≤ k → m.seen s = 0

/-! ## The list -/

namespace Registry.WellNamed

theorem add (h : r.WellNamed) : r.add.WellNamed where
  nodup := by
    have hnew : r.next ∉ r.listed := fun hmem => (h.lt_next _ hmem).false
    exact List.nodup_append.2 ⟨h.nodup, List.nodup_singleton _, by
      intro a ha b hb hab
      rw [List.mem_singleton.1 hb] at hab
      exact hnew (hab ▸ ha)⟩
  lt_next s hs := by
    rcases List.mem_append.1 hs with hs | hs
    · exact (h.lt_next s hs).trans (Nat.lt_succ_self _)
    · rw [List.mem_singleton.1 hs]
      exact Nat.lt_succ_self _

theorem remove (h : r.WellNamed) : (r.remove slot).WellNamed where
  nodup := h.nodup.sublist (List.eraseIdx_sublist _ _)
  lt_next s hs := h.lt_next s (List.mem_of_mem_eraseIdx hs)

theorem indexOf_of_listed (h : r.WellNamed) (hs : r.listed[k]? = some s)
    (hx : indexes[k]? = some x) : r.indexOf indexes s = some x := by
  obtain ⟨hk, rfl⟩ := List.getElem?_eq_some_iff.1 hs
  rw [Registry.indexOf, h.nodup.idxOf_getElem k hk]
  exact hx

theorem indexOf_of_next_le (h : r.WellNamed) (hlen : indexes.length = r.listed.length)
    (hs : r.next ≤ s) : r.indexOf indexes s = none := by
  have hmem : s ∉ r.listed := fun hmem => Nat.lt_irrefl _ ((h.lt_next s hmem).trans_le hs)
  rw [Registry.indexOf, List.idxOf_eq_length hmem, ← hlen]
  exact List.getElem?_eq_none le_rfl

end Registry.WellNamed

/-! ## One holder -/

namespace Tracks

variable [Zero V]

theorem start : Tracks r (Marks.start : Marks V) [] where
  names k s n _ hn := by cases hn
  seen k s t _ ht := by cases ht
  length := rfl
  lt_next n hn := by cases hn
  future _ _ := rfl
  unseen _ _ _ _ := rfl

theorem settle (hr : r.WellNamed) (hlen : indexes.length = r.listed.length) (h : Tracks r m ts)
    (hts : ts'.length = max ts.length indexes.length)
    (hset : ∀ (k : Nat) (x : V), indexes[k]? = some x → ts'[k]? = some x) :
    Tracks r (m.settle r indexes) ts' := by
  have hnames : (m.settle r indexes).names.length = ts'.length := by
    simp only [Marks.settle, List.length_append, List.length_drop, h.length, hts, hlen]
    omega
  refine ⟨⟨?_, ?_⟩, hnames, ?_, ?_, ?_⟩
  · intro k s n hs hn
    by_cases hk : k < m.names.length
    · rw [Marks.settle, List.getElem?_append_left hk] at hn
      exact h.names k s n hs hn
    · rw [Marks.settle, List.getElem?_append_right (not_lt.1 hk), List.getElem?_drop,
        Nat.add_sub_cancel' (not_lt.1 hk), hs] at hn
      exact (Option.some.inj hn).symm
  · intro k s t hs ht
    obtain ⟨x, hx⟩ : ∃ x, indexes[k]? = some x := by
      have hk := (List.getElem?_eq_some_iff.1 hs).1
      exact ⟨_, List.getElem?_eq_getElem (hlen ▸ hk)⟩
    rw [hset k x hx] at ht
    simp only [Marks.settle, hr.indexOf_of_listed hs hx, Option.getD_some]
    exact (Option.some.inj ht).symm
  · intro n hn
    rcases List.mem_append.1 hn with hn | hn
    · exact h.lt_next n hn
    · exact hr.lt_next n (List.mem_of_mem_drop hn)
  · intro s hs
    simp only [Marks.settle, hr.indexOf_of_next_le hlen hs, Option.getD_none]
    exact h.future s hs
  · intro k s hs hk
    have hlt := (List.getElem?_eq_some_iff.1 hs).1
    rw [hts, hlen] at hk
    omega

/-- A list that grows must not reach an old tracker. -/
theorem aligned_add_iff (h : Tracks r m ts) :
    Aligned r.add m ts ↔ ts.length ≤ r.listed.length := by
  constructor
  · intro ha
    by_contra hlt
    rw [not_le, ← h.length] at hlt
    have hnew : r.add.listed[r.listed.length]? = some r.next := List.getElem?_concat_length
    have hn := ha.names _ _ _ hnew (List.getElem?_eq_getElem hlt)
    exact (h.lt_next _ (List.getElem_mem hlt)).ne hn
  · intro hle
    refine ⟨fun k s n hs hn => ?_, fun k s t hs ht => ?_⟩
    · have hk := (List.getElem?_eq_some_iff.1 hn).1
      rw [Registry.add, List.getElem?_append_left (by rw [h.length] at hk; omega)] at hs
      exact h.names k s n hs hn
    · have hk := (List.getElem?_eq_some_iff.1 ht).1
      rw [Registry.add, List.getElem?_append_left (by omega)] at hs
      exact h.seen k s t hs ht

theorem add (h : Tracks r m ts) (hle : ts.length ≤ r.listed.length) : Tracks r.add m ts where
  toAligned := h.aligned_add_iff.2 hle
  length := h.length
  lt_next n hn := (h.lt_next n hn).trans (Nat.lt_succ_self _)
  future s hs := h.future s ((Nat.le_succ _).trans hs)
  unseen k s hs hk := by
    by_cases hlt : k < r.listed.length
    · rw [Registry.add, List.getElem?_append_left hlt] at hs
      exact h.unseen k s hs hk
    · rw [Registry.add, List.getElem?_append_right (not_lt.1 hlt)] at hs
      obtain rfl := List.mem_singleton.1 (List.mem_of_getElem? hs)
      exact h.future _ le_rfl

/-- A list that shrinks must not move a stream to a tracker of another one. -/
theorem aligned_remove_iff (hr : r.WellNamed) (hslot : slot < r.listed.length)
    (h : Tracks r m ts) :
    Aligned (r.remove slot) m ts ↔ slot + 1 = r.listed.length ∨ ts.length ≤ slot := by
  constructor
  · intro ha
    by_contra hnot
    rw [not_or, not_le, ← h.length] at hnot
    have hnext : slot + 1 < r.listed.length := by omega
    have hmoved : (r.remove slot).listed[slot]? = some r.listed[slot + 1] := by
      rw [Registry.remove, List.getElem?_eraseIdx_of_ge le_rfl]
      exact List.getElem?_eq_getElem hnext
    have hname := List.getElem?_eq_getElem hnot.2
    have hsame := (h.names slot _ _ (List.getElem?_eq_getElem hslot) hname).symm.trans
      (ha.names slot _ _ hmoved hname)
    have := (hr.nodup.getElem_inj_iff).1 hsame
    omega
  · intro hor
    have hold (k s : Nat) (hs : (r.remove slot).listed[k]? = some s) (hk : k < ts.length) :
        r.listed[k]? = some s := by
      by_cases hlt : k < slot
      · rwa [Registry.remove, List.getElem?_eraseIdx_of_lt hlt] at hs
      · rw [Registry.remove, List.getElem?_eraseIdx_of_ge (not_lt.1 hlt)] at hs
        have := (List.getElem?_eq_some_iff.1 hs).1
        omega
    refine ⟨fun k s n hs hn => ?_, fun k s t hs ht => ?_⟩
    · have hk := (List.getElem?_eq_some_iff.1 hn).1
      exact h.names k s n (hold k s hs (h.length ▸ hk)) hn
    · exact h.seen k s t (hold k s hs (List.getElem?_eq_some_iff.1 ht).1) ht

theorem remove (hr : r.WellNamed) (hslot : slot < r.listed.length) (h : Tracks r m ts)
    (hor : slot + 1 = r.listed.length ∨ ts.length ≤ slot) : Tracks (r.remove slot) m ts where
  toAligned := (h.aligned_remove_iff hr hslot).2 hor
  length := h.length
  lt_next := h.lt_next
  future := h.future
  unseen k s hs hk := by
    by_cases hlt : k < slot
    · rw [Registry.remove, List.getElem?_eraseIdx_of_lt hlt] at hs
      exact h.unseen k s hs hk
    · rw [Registry.remove, List.getElem?_eraseIdx_of_ge (not_lt.1 hlt)] at hs
      exact h.unseen (k + 1) s hs (by omega)

end Tracks

end

/-! ## All holders -/

/-- The streams of a list and the marks of every holder. -/
structure Ledger (H V : Type) where
  registry : Registry
  marks : H → Marks V

namespace Ledger

variable {H V : Type}

/-- No stream is listed, and nobody has trackers. -/
def start [Zero V] : Ledger H V := ⟨{}, fun _ => .start⟩

def add (g : Ledger H V) : Ledger H V := { g with registry := g.registry.add }

def remove (g : Ledger H V) (slot : Nat) : Ledger H V :=
  { g with registry := g.registry.remove slot }

/-- Some holders settle at the given indexes. -/
def settle [DecidableEq H] (g : Ledger H V) (holders : List H) (indexes : List V) : Ledger H V :=
  { g with
    marks := fun h =>
      if h ∈ holders then (g.marks h).settle g.registry indexes else g.marks h }

/-- The trackers of every holder are aligned; `view` gives the indexes in them. -/
def Aligned (g : Ledger H V) (view : H → Option (List V)) : Prop :=
  ∀ h ts, view h = some ts → Slots.Aligned g.registry (g.marks h) ts

section
variable [Zero V] {g : Ledger H V} {slots slot : Nat} {view view' : H → Option (List V)}

/-- Trackers and ledger agree. -/
structure Keeps (g : Ledger H V) (slots : Nat) (view : H → Option (List V)) : Prop where
  wellNamed : g.registry.WellNamed
  length : g.registry.listed.length = slots
  tracks : ∀ h ts, view h = some ts → Tracks g.registry (g.marks h) ts
  unopened : ∀ h, view h = none → g.marks h = .start

namespace Keeps

theorem aligned (h : g.Keeps slots view) : g.Aligned view := fun x ts hx =>
  (h.tracks x ts hx).toAligned

theorem start (hview : ∀ x ts, view x = some ts → ts = []) :
    (Ledger.start : Ledger H V).Keeps 0 view where
  wellNamed := ⟨List.nodup_nil, fun s hs => by cases hs⟩
  length := rfl
  tracks x ts hx := by
    obtain rfl := hview x ts hx
    exact .start
  unopened _ _ := rfl

/-- The indexes in the trackers stay. -/
theorem congr (h : g.Keeps slots view) (hview : view' = view) : g.Keeps slots view' := by
  rwa [hview]

/-- A new holder has no trackers yet. -/
theorem opened (h : g.Keeps slots view)
    (hview : ∀ x, view' x = view x ∨ view x = none ∧ view' x = some []) :
    g.Keeps slots view' where
  wellNamed := h.wellNamed
  length := h.length
  tracks x ts hx := by
    rcases hview x with hsame | ⟨hnone, hsome⟩
    · exact h.tracks x ts (hsame ▸ hx)
    · rw [hsome] at hx
      obtain rfl := Option.some.inj hx
      rw [h.unopened x hnone]
      exact .start
  unopened x hx := by
    rcases hview x with hsame | ⟨-, hsome⟩
    · exact h.unopened x (hsame ▸ hx)
    · rw [hsome] at hx
      cases hx

theorem settle [DecidableEq H] {holders : List H} {indexes : List V} (h : g.Keeps slots view)
    (hlen : indexes.length = slots) (hout : ∀ x, x ∉ holders → view' x = view x)
    (hin : ∀ x ∈ holders, ∃ ts', view' x = some ts' ∧
      ts'.length = max ((view x).getD []).length indexes.length ∧
      ∀ (k : Nat) (y : V), indexes[k]? = some y → ts'[k]? = some y) :
    (g.settle holders indexes).Keeps slots view' where
  wellNamed := h.wellNamed
  length := h.length
  tracks x ts hx := by
    by_cases hmem : x ∈ holders
    · obtain ⟨ts', hts', hlen', hset⟩ := hin x hmem
      obtain rfl : ts' = ts := Option.some.inj (hts'.symm.trans hx)
      have hold : Tracks g.registry (g.marks x) ((view x).getD []) := by
        cases hview : view x with
        | some ts => exact h.tracks x ts hview
        | none =>
          rw [h.unopened x hview]
          exact .start
      simp only [Ledger.settle, hmem, if_true]
      exact hold.settle h.wellNamed (hlen.trans h.length.symm) hlen' hset
    · simp only [Ledger.settle, hmem, if_false]
      exact h.tracks x ts (hout x hmem ▸ hx)
  unopened x hx := by
    by_cases hmem : x ∈ holders
    · obtain ⟨ts', hts', -⟩ := hin x hmem
      rw [hts'] at hx
      cases hx
    · simp only [Ledger.settle, hmem, if_false]
      exact h.unopened x (hout x hmem ▸ hx)

theorem aligned_add_iff (h : g.Keeps slots view) :
    g.add.Aligned view ↔ ∀ x ts, view x = some ts → ts.length ≤ slots := by
  rw [← h.length]
  exact forall_congr' fun x => forall_congr' fun ts => forall_congr' fun hx =>
    (h.tracks x ts hx).aligned_add_iff

theorem add (h : g.Keeps slots view) (hle : ∀ x ts, view x = some ts → ts.length ≤ slots) :
    g.add.Keeps (slots + 1) view where
  wellNamed := h.wellNamed.add
  length := by
    rw [← h.length]
    exact List.length_append
  tracks x ts hx := (h.tracks x ts hx).add (h.length ▸ hle x ts hx)
  unopened := h.unopened

theorem aligned_remove_iff (h : g.Keeps slots view) (hslot : slot < slots) :
    (g.remove slot).Aligned view ↔
      slot + 1 = slots ∨ ∀ x ts, view x = some ts → ts.length ≤ slot := by
  rw [← h.length] at hslot ⊢
  have hiff (x : H) (ts : List V) (hx : view x = some ts) :=
    (h.tracks x ts hx).aligned_remove_iff h.wellNamed hslot
  constructor
  · intro ha
    refine or_iff_not_imp_left.2 fun hne x ts hx => ?_
    exact ((hiff x ts hx).1 (ha x ts hx)).resolve_left hne
  · rintro (heq | hle) x ts hx
    · exact (hiff x ts hx).2 (.inl heq)
    · exact (hiff x ts hx).2 (.inr (hle x ts hx))

theorem remove (h : g.Keeps slots view) (hslot : slot < slots)
    (hor : slot + 1 = slots ∨ ∀ x ts, view x = some ts → ts.length ≤ slot) :
    (g.remove slot).Keeps (slots - 1) view where
  wellNamed := h.wellNamed.remove
  length := by
    rw [← h.length] at hslot ⊢
    exact List.length_eraseIdx_of_lt hslot
  tracks x ts hx := by
    refine (h.tracks x ts hx).remove h.wellNamed (h.length.symm ▸ hslot) ?_
    rw [h.length]
    exact hor.imp_right fun hle => hle x ts hx
  unopened := h.unopened

end Keeps

end

end Ledger

end Slots
