import ExponentCore.Lib.Borsh

/-!
# Codecs

A codec is a reader with its writer, and the proof that they are one format. Codecs are put together
from those of borsh's types: `pair` for one field after the other, `vec`, `iso` for the fields of a
structure, and `tagged` for a form that starts with given bytes. `Sized` says how long forms are, and
`Writes` which values have one.

The data of an account begins with the form of what it holds, and anything may follow. `load` reads
the front and ignores the rest (`load_eq_some`), `overwrite` replaces it, and `resize` cuts data off
or makes it longer.
-/

set_option autoImplicit false

namespace Borsh

structure Codec (α : Type) where
  read : Reader α
  write : α → Option (List UInt8)
  formats : Formats read write

namespace Codec

section
variable {α β : Type}

/-- A format that every value has. -/
def ofBytes (read : Reader α) (bytes : α → List UInt8)
    (h : ∀ input a rest, read.run input = some (a, rest) ↔ input = bytes a ++ rest) : Codec α where
  read
  write a := some (bytes a)
  formats input a rest := by
    rw [h]
    simp

def u8 : Codec UInt8 := ofBytes Borsh.u8 (fun n => [n]) fun _ _ _ => run_u8
def u16 : Codec UInt16 := ofBytes Borsh.u16 u16Bytes fun _ _ _ => run_u16
def u32 : Codec UInt32 := ofBytes Borsh.u32 u32Bytes fun _ _ _ => run_u32
def u64 : Codec UInt64 := ofBytes Borsh.u64 u64Bytes fun _ _ _ => run_u64
def bool : Codec Bool := ofBytes Borsh.bool boolBytes fun _ _ _ => run_bool

/-- One field, then another. -/
def pair (c : Codec α) (d : Codec β) : Codec (α × β) where
  read := Prod.mk <$> c.read <*> d.read
  write p := do
    let bs ← c.write p.1
    let cs ← d.write p.2
    some (bs ++ cs)
  formats input p rest := by
    obtain ⟨a, b⟩ := p
    simp only [run_iff_gets, gets_seq, gets_map, c.formats.gets, d.formats.gets,
      Option.bind_eq_bind, Option.bind_eq_some_iff, Option.some.injEq, Prod.mk.injEq]
    constructor
    · rintro ⟨_, _, cs, hcs, rfl, _, bs, hbs, rfl, rfl, rfl⟩
      exact ⟨_, ⟨bs, hbs, cs, hcs, rfl⟩, (List.append_assoc ..).symm⟩
    · rintro ⟨_, ⟨bs, hbs, cs, hcs, rfl⟩, rfl⟩
      exact ⟨cs ++ rest, b, cs, hcs, rfl, a, bs, hbs, List.append_assoc .., rfl, rfl⟩

def vec (c : Codec α) : Codec (List α) where
  read := Borsh.vec c.read
  write := vecBytes c.write
  formats := c.formats.vec

/-- A structure, as its fields in their order. -/
def iso (c : Codec α) (e : α ≃ β) : Codec β where
  read := e <$> c.read
  write b := c.write (e.symm b)
  formats input b rest := by
    rw [run_map]
    constructor
    · rintro ⟨a, h, rfl⟩
      show ∃ bs, c.write (e.symm (e a)) = some bs ∧ _
      rw [e.symm_apply_apply]
      exact (c.formats _ _ _).1 h
    · intro h
      exact ⟨e.symm b, (c.formats _ _ _).2 h, e.apply_symm_apply b⟩

/-- A form that starts with a tag. -/
def tagged (tag : List UInt8) (c : Codec α) : Codec α where
  read := do
    let bs ← take tag.length
    if bs = tag then c.read else fail
  write a := do
    let bs ← c.write a
    some (tag ++ bs)
  formats input a rest := by
    simp only [run_bind, run_take, Option.bind_eq_bind, Option.bind_eq_some_iff, Option.some.injEq]
    constructor
    · rintro ⟨bs, mid, ⟨-, rfl⟩, h⟩
      split at h
      · rename_i htag
        obtain ⟨cs, hcs, rfl⟩ := (c.formats _ _ _).1 h
        subst htag
        exact ⟨_, ⟨cs, hcs, rfl⟩, (List.append_assoc ..).symm⟩
      · exact absurd h run_fail
    · rintro ⟨_, ⟨bs, hbs, rfl⟩, rfl⟩
      refine ⟨tag, bs ++ rest, ⟨rfl, List.append_assoc ..⟩, ?_⟩
      rw [if_pos rfl]
      exact (c.formats _ _ _).2 ⟨bs, hbs, rfl⟩

end

/-! ## Lengths -/

section
variable {α β : Type}

/-- A form is as long as `size` says. -/
def Sized (c : Codec α) (size : α → Nat) : Prop :=
  ∀ a bs, c.write a = some bs → bs.length = size a

variable {c : Codec α} {d : Codec β} {size : α → Nat} {size' : β → Nat}

theorem sized_ofBytes {read : Reader α} {bytes : α → List UInt8} {h}
    (hlen : ∀ a, (bytes a).length = size a) : (ofBytes read bytes h).Sized size := by
  intro a bs hbs
  rw [← Option.some.inj hbs]
  exact hlen a

theorem sized_u8 : u8.Sized fun _ => 1 := sized_ofBytes fun _ => rfl
theorem sized_u16 : u16.Sized fun _ => 2 := sized_ofBytes fun _ => length_leBytes 2 _
theorem sized_u32 : u32.Sized fun _ => 4 := sized_ofBytes fun _ => length_leBytes 4 _
theorem sized_u64 : u64.Sized fun _ => 8 := sized_ofBytes fun _ => length_leBytes 8 _
theorem sized_bool : bool.Sized fun _ => 1 := sized_ofBytes fun _ => rfl

theorem Sized.pair (h : c.Sized size) (h' : d.Sized size') :
    (c.pair d).Sized fun p => size p.1 + size' p.2 := by
  intro p bs hbs
  simp only [Codec.pair, Option.bind_eq_bind, Option.bind_eq_some_iff, Option.some.injEq] at hbs
  obtain ⟨cs, hcs, ds, hds, rfl⟩ := hbs
  rw [List.length_append, h _ _ hcs, h' _ _ hds]

theorem length_timesBytes (h : c.Sized size) {l : List α} {bs : List UInt8}
    (hbs : timesBytes c.write l = some bs) : bs.length = (l.map size).sum := by
  induction l generalizing bs with
  | nil => rw [← Option.some.inj hbs]; rfl
  | cons a l ih =>
    simp only [timesBytes, Option.bind_eq_bind, Option.bind_eq_some_iff, Option.some.injEq] at hbs
    obtain ⟨cs, hcs, ds, hds, rfl⟩ := hbs
    rw [List.length_append, h _ _ hcs, ih hds, List.map_cons, List.sum_cons]

theorem Sized.vec (h : c.Sized size) : c.vec.Sized fun l => 4 + (l.map size).sum := by
  intro l bs hbs
  simp only [Codec.vec, vecBytes, Option.bind_eq_bind, Option.bind_eq_some_iff,
    Option.some.injEq] at hbs
  obtain ⟨_, hlen, cs, hcs, rfl⟩ := hbs
  obtain ⟨-, rfl⟩ := lengthBytes_eq_some.1 hlen
  rw [List.length_append, length_timesBytes h hcs, u32Bytes, length_leBytes]

theorem Sized.iso (h : c.Sized size) (e : α ≃ β) : (c.iso e).Sized fun b => size (e.symm b) :=
  fun b => h (e.symm b)

theorem Sized.tagged (h : c.Sized size) (tag : List UInt8) :
    (c.tagged tag).Sized fun a => tag.length + size a := by
  intro a bs hbs
  simp only [Codec.tagged, Option.bind_eq_bind, Option.bind_eq_some_iff, Option.some.injEq] at hbs
  obtain ⟨cs, hcs, rfl⟩ := hbs
  rw [List.length_append, h _ _ hcs]

theorem Sized.congr (h : c.Sized size) {size' : α → Nat} (hs : ∀ a, size a = size' a) :
    c.Sized size' := fun a bs hbs => (h a bs hbs).trans (hs a)

end

/-! ## Values that have a form -/

section
variable {α β : Type}

def Writes (c : Codec α) (a : α) : Prop := ∃ bs, c.write a = some bs

variable {c : Codec α} {d : Codec β}

theorem writes_ofBytes {read : Reader α} {bytes : α → List UInt8} {h} (a : α) :
    (ofBytes read bytes h).Writes a := ⟨_, rfl⟩

@[simp] theorem writes_u8 (n : UInt8) : u8.Writes n := writes_ofBytes n
@[simp] theorem writes_u16 (n : UInt16) : u16.Writes n := writes_ofBytes n
@[simp] theorem writes_u32 (n : UInt32) : u32.Writes n := writes_ofBytes n
@[simp] theorem writes_u64 (n : UInt64) : u64.Writes n := writes_ofBytes n
@[simp] theorem writes_bool (b : Bool) : bool.Writes b := writes_ofBytes b

@[simp] theorem writes_pair {p : α × β} : (c.pair d).Writes p ↔ c.Writes p.1 ∧ d.Writes p.2 := by
  simp only [Writes, pair, Option.bind_eq_bind, Option.bind_eq_some_iff, Option.some.injEq]
  constructor
  · rintro ⟨_, bs, hbs, cs, hcs, rfl⟩
    exact ⟨⟨bs, hbs⟩, cs, hcs⟩
  · rintro ⟨⟨bs, hbs⟩, cs, hcs⟩
    exact ⟨_, bs, hbs, cs, hcs, rfl⟩

theorem exists_timesBytes {l : List α} :
    (∃ bs, timesBytes c.write l = some bs) ↔ ∀ a ∈ l, c.Writes a := by
  induction l with
  | nil => simp [timesBytes]
  | cons a l ih =>
    rw [List.forall_mem_cons, ← ih]
    simp only [timesBytes, Option.bind_eq_bind, Option.bind_eq_some_iff, Option.some.injEq]
    constructor
    · rintro ⟨_, bs, hbs, cs, hcs, rfl⟩
      exact ⟨⟨bs, hbs⟩, cs, hcs⟩
    · rintro ⟨⟨bs, hbs⟩, cs, hcs⟩
      exact ⟨_, bs, hbs, cs, hcs, rfl⟩

@[simp] theorem writes_vec {l : List α} :
    c.vec.Writes l ↔ l.length < 2 ^ 32 ∧ ∀ a ∈ l, c.Writes a := by
  rw [← exists_timesBytes]
  simp only [Writes, vec, vecBytes, Option.bind_eq_bind, Option.bind_eq_some_iff,
    Option.some.injEq, lengthBytes_eq_some]
  constructor
  · rintro ⟨_, _, ⟨hlen, -⟩, bs, hbs, rfl⟩
    exact ⟨hlen, bs, hbs⟩
  · rintro ⟨hlen, bs, hbs⟩
    exact ⟨_, _, ⟨hlen, rfl⟩, bs, hbs, rfl⟩

@[simp] theorem writes_iso {e : α ≃ β} {b : β} : (c.iso e).Writes b ↔ c.Writes (e.symm b) := Iff.rfl

@[simp] theorem writes_tagged {tag : List UInt8} {a : α} :
    (c.tagged tag).Writes a ↔ c.Writes a := by
  simp [Writes, tagged, Option.bind_eq_some_iff]

end

/-! ## Data that begins with a form -/

section
variable {α : Type} {c : Codec α} {a : α} {bs data : List UInt8}

/-- What is at the front; the rest is ignored. -/
def load (c : Codec α) (data : List UInt8) : Option α := (c.read.run data).map Prod.fst

theorem load_eq_some : c.load data = some a ↔ ∃ bs, c.write a = some bs ∧ bs <+: data := by
  simp only [load, Option.map_eq_some_iff, Prod.exists, c.formats _ _ _]
  constructor
  · rintro ⟨_, rest, ⟨bs, hbs, rfl⟩, rfl⟩
    exact ⟨bs, hbs, List.prefix_append bs rest⟩
  · rintro ⟨bs, hbs, rest, rfl⟩
    exact ⟨a, rest, ⟨bs, hbs, rfl⟩, rfl⟩

/-- Two tags of one length, and one form: nothing is read as both. -/
theorem load_tagged_ne {β : Type} {d : Codec β} {tag tag' : List UInt8}
    (hlen : tag.length = tag'.length) (hne : tag ≠ tag') (h : (c.tagged tag).load data = some a) :
    (d.tagged tag').load data = none := by
  rw [Option.eq_none_iff_forall_ne_some]
  intro b hb
  obtain ⟨bs, hbs, hpre⟩ := load_eq_some.1 h
  obtain ⟨cs, hcs, hpre'⟩ := load_eq_some.1 hb
  simp only [tagged, Option.bind_eq_bind, Option.bind_eq_some_iff, Option.some.injEq] at hbs hcs
  obtain ⟨_, -, rfl⟩ := hbs
  obtain ⟨_, -, rfl⟩ := hcs
  have htag := (List.prefix_append tag _).trans hpre
  have htag' := (List.prefix_append tag' _).trans hpre'
  exact hne ((List.prefix_of_prefix_length_le htag htag' hlen.le).eq_of_length hlen)

end

end Codec

/-! ## Replacing and resizing data -/

section
variable {bs data : List UInt8} {fresh : Nat → UInt8} {n : Nat}

/-- Written over the front. -/
def overwrite (bs data : List UInt8) : List UInt8 := bs ++ data.drop bs.length

/-- Data of `n` bytes; `fresh` is what there is after the old end. -/
def resize (fresh : Nat → UInt8) (n : Nat) (data : List UInt8) : List UInt8 :=
  data.take n ++ (List.range' data.length (n - data.length)).map fresh

theorem length_overwrite (h : bs.length ≤ data.length) :
    (overwrite bs data).length = data.length := by
  rw [overwrite, List.length_append, List.length_drop]
  omega

theorem length_resize : (resize fresh n data).length = n := by
  rw [resize, List.length_append, List.length_take, List.length_map, List.length_range']
  omega

theorem Codec.load_overwrite {α : Type} {c : Codec α} {a : α} (h : c.write a = some bs) :
    c.load (overwrite bs data) = some a :=
  Codec.load_eq_some.2 ⟨bs, h, List.prefix_append bs _⟩

end

end Borsh
