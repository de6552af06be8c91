import ExponentCore.Lib.Reorder
import ExponentCore.Num.Proof.Aborts
import ExponentCore.Program.Allocator
import ExponentCore.Vault.Proof.State

/-!
# The heap as separate arrays

`HeapWorld.Sound` is the invariant of the heap: its first word is where the next block may start,
the blocks are packed below, and everything above is zero. An allocation that has room is placed at
the next aligned address and takes the heap up to its end, and one that has none changes nothing
(`alloc_cases`). So a run of the heap is a run of arrays (`heap_run`), a run of arrays that demands
no more than the heap has is a run of the heap (`heap_suffices`), and a run of the heap fails where
the arrays do, or where more is demanded than it has (`heap_fails`).
-/

set_option autoImplicit false

namespace ExponentCore

open Regions

/-! ## The word of the allocator -/

namespace Memory

variable {mem : Memory} {address value : UInt64}

theorem writeWord_above {a : Nat} (h : address.toNat + 8 ≤ a) :
    mem.writeWord address value a = mem a := by
  have hlen : (Borsh.u64Bytes value).length = 8 := Borsh.length_leBytes 8 _
  rw [writeWord, if_pos (by omega), List.getElem?_eq_none (by omega), Option.getD_none]

theorem readWord_writeWord : (mem.writeWord address value).readWord address = value := by
  have hlen : (Borsh.u64Bytes value).length = 8 := Borsh.length_leBytes 8 _
  have hload : Region.load (mem.writeWord address value) ⟨address.toNat, 8⟩
      = Borsh.u64Bytes value := by
    refine List.ext_getElem (by rw [length_load, hlen]) fun k hk _ => ?_
    rw [length_load] at hk
    simp only [Region.load, List.getElem_map, List.getElem_range, writeWord]
    rw [if_pos (by omega), Nat.add_sub_cancel_left, List.getElem?_eq_getElem (by omega),
      Option.getD_some]
  have hlt := value.toNat_lt
  rw [readWord, hload, Borsh.u64Bytes, Borsh.ofLe_leBytes, Nat.mod_eq_of_lt (by omega),
    UInt64.ofNat_toNat]

end Memory

/-! ## One allocation -/

namespace BumpAllocator

variable {mem mem' : Memory} {layout : Layout} {ptr : UInt64}

/-- Where the next block may start. -/
def position (mem : Memory) : Nat :=
  let pos := mem.readWord heapStartAddress
  (if pos = 0 then bottomAddress else pos).toNat

/-- The address of the next block of a layout. -/
def nextAddress (mem : Memory) (layout : Layout) : Nat :=
  alignUp (position mem) layout.align.toNat

theorem align_pos (layout : Layout) : 0 < layout.align.toNat := by
  obtain ⟨k, hk⟩ := layout.align_pow
  rw [hk]
  exact Nat.two_pow_pos k

theorem align_le (layout : Layout) : layout.align.toNat ≤ 2 ^ 63 := by
  obtain ⟨k, hk⟩ := layout.align_pow
  have hlt := layout.align.toNat_lt
  rw [hk] at hlt ⊢
  have hk64 : k < 64 := (Nat.pow_lt_pow_iff_right (by decide)).1 hlt
  exact Nat.pow_le_pow_right (by decide) (by omega)

theorem saturatingAdd_toNat (a b : UInt64) :
    (saturatingAdd a b).toNat = min (a.toNat + b.toNat) (2 ^ 64 - 1) := by
  unfold saturatingAdd
  cases h : checkedAdd a b with
  | some c =>
    have hc := c.toNat_lt
    rw [checkedAdd_eq_some] at h
    rw [Option.getD_some]
    omega
  | none =>
    have hmax : (0xffffffffffffffff : UInt64).toNat = 2 ^ 64 - 1 := rfl
    unfold checkedAdd at h
    split at h
    · cases h
    · rw [Option.getD_none, hmax]
      omega

/-- The heap after a block that ends at an address. -/
structure Placed (mem mem' : Memory) (stop : Nat) : Prop where
  position : BumpAllocator.position mem' = stop
  same : ∀ a, bottomAddress.toNat ≤ a → mem' a = mem a

/-- What an allocation computes, with the next address for the bits that it clears. -/
theorem alloc_eq (layout : Layout) (htop : position mem ≤ topAddress.toNat) :
    ∃ ptr : UInt64, ptr.toNat = nextAddress mem layout ∧
      alloc mem layout = if topAddress < saturatingAdd ptr layout.size then .ok (mem, 0)
        else .ok (mem.writeWord heapStartAddress (saturatingAdd ptr layout.size), ptr) := by
  have hend : topAddress.toNat = 0x300040000 := rfl
  have hone : (1 : UInt64).toNat = 1 := rfl
  let pos : UInt64 :=
    if mem.readWord heapStartAddress = 0 then bottomAddress else mem.readWord heapStartAddress
  have hpos : pos.toNat = position mem := rfl
  have halign := align_pos layout
  have hle := align_le layout
  obtain ⟨k, hk⟩ := layout.align_pow
  -- no operation on the way overflows
  obtain ⟨s₁, h₁⟩ := exists_toNat.2 (show pos.toNat + layout.align.toNat < 2 ^ 64 by omega)
  obtain ⟨s₂, h₂⟩ := exists_toNat.2 (show s₁.toNat - 1 < 2 ^ 64 by omega)
  obtain ⟨m, hm⟩ := exists_toNat.2 (show layout.align.toNat - 1 < 2 ^ 64 by omega)
  have hadd : addU64 pos layout.align = .ok s₁ := addU64_eq_ok.2 h₁
  have hsub : subU64 s₁ 1 = .ok s₂ := subU64_eq_ok.2 (by omega)
  have hmask : subU64 layout.align 1 = .ok m := subU64_eq_ok.2 (by omega)
  refine ⟨s₂ &&& ~~~m, ?_, ?_⟩
  · have hclear : (s₂ &&& ~~~m).toNat = s₂.toNat / 2 ^ k * 2 ^ k :=
      toNat_and_not_mask (x := s₂.toBitVec) (m := m.toBitVec) (hm.trans (by rw [hk]))
    have hsum : s₂.toNat = position mem + (2 ^ k - 1) := by omega
    rw [hclear, nextAddress, alignUp, hk, hsum]
  · show (addU64 pos layout.align >>= fun sum => subU64 sum 1 >>= fun sum =>
      subU64 layout.align 1 >>= fun mask => _) = _
    rw [hadd, ok_bind, hsub, ok_bind, hmask, ok_bind]

/-- **An allocation** is placed at the next aligned address if there is room, and is null otherwise,
with the heap as it was. -/
theorem alloc_cases (layout : Layout) (hbottom : bottomAddress.toNat ≤ position mem)
    (htop : position mem ≤ topAddress.toNat) :
    (nextAddress mem layout + layout.size.toNat ≤ topAddress.toNat ∧
      ∃ mem' ptr, alloc mem layout = .ok (mem', ptr) ∧ ptr.toNat = nextAddress mem layout ∧
        Placed mem mem' (nextAddress mem layout + layout.size.toNat)) ∨
    topAddress.toNat < nextAddress mem layout + layout.size.toNat ∧
      alloc mem layout = .ok (mem, 0) := by
  have hstart : bottomAddress.toNat = heapStartAddress.toNat + 8 := rfl
  have hend : topAddress.toNat = 0x300040000 := rfl
  obtain ⟨ptr, hptr, halloc⟩ := alloc_eq layout htop
  have hnext := saturatingAdd_toNat ptr layout.size
  rw [halloc]
  by_cases hroom : nextAddress mem layout + layout.size.toNat ≤ topAddress.toNat
  · have hfits : (saturatingAdd ptr layout.size).toNat
        = nextAddress mem layout + layout.size.toNat := by omega
    have hlt : ¬ topAddress < saturatingAdd ptr layout.size := by
      rw [UInt64.lt_iff_toNat_lt]
      omega
    rw [if_neg hlt]
    refine .inl ⟨hroom, _, _, rfl, hptr, ?_, fun a ha => Memory.writeWord_above (by omega)⟩
    have habove : position mem ≤ nextAddress mem layout := le_alignUp (align_pos layout)
    have hne : saturatingAdd ptr layout.size ≠ 0 := by
      intro h0
      rw [h0] at hfits
      have hzero : (0 : UInt64).toNat = 0 := rfl
      omega
    rw [position, Memory.readWord_writeWord, if_neg hne, hfits]
  · have hlt : topAddress < saturatingAdd ptr layout.size := by
      rw [UInt64.lt_iff_toNat_lt]
      omega
    rw [if_pos hlt]
    exact .inr ⟨by omega, rfl⟩

/-- The position is read from the word of the allocator. -/
theorem position_congr (h : ∀ a, a < bottomAddress.toNat → mem' a = mem a) :
    position mem' = position mem := by
  have hload : Region.load mem' ⟨heapStartAddress.toNat, 8⟩
      = Region.load mem ⟨heapStartAddress.toNat, 8⟩ := load_congr fun a _ ha => h a ha
  rw [position, position, Memory.readWord, Memory.readWord, hload]

end BumpAllocator

/-! ## The invariant -/

namespace HeapWorld

open BumpAllocator

variable {w w' : HeapWorld} {layout : Layout} {i : Nat} {b : Block}

/-- The blocks, each as the bytes in it. -/
def arrays (w : HeapWorld) : Arrays := contents w.mem w.regions

structure Sound (w : HeapWorld) : Prop where
  packed : Packed bottomAddress.toNat (position w.mem) w.regions
  top : position w.mem ≤ topAddress.toNat
  /-- what was never handed out is as it was at the start -/
  blank : ∀ a, position w.mem ≤ a → w.mem a = 0
  aligned : ∀ b ∈ w.blocks, b.layout.align.toNat ∣ b.ptr.toNat

theorem sound_fresh : Sound fresh where
  packed := packed_nil le_rfl
  top := by decide
  blank _ _ := rfl
  aligned _ h := by cases h

theorem getElem?_arrays : w.arrays[i]? = w.blocks[i]?.map fun b => b.region.load w.mem := by
  rw [arrays, contents, regions, List.getElem?_map, List.getElem?_map, Option.map_map]
  rfl

/-- **Handing out a block** that has room. -/
theorem Sound.push (h : Sound w) {mem₁ mem' : Memory} {ptr : UInt64}
    (hroom : nextAddress w.mem layout + layout.size.toNat ≤ topAddress.toNat)
    (hptr : ptr.toNat = nextAddress w.mem layout)
    (hplaced : Placed w.mem mem₁ (nextAddress w.mem layout + layout.size.toNat))
    (hfilled : ∀ a, a < ptr.toNat ∨ ptr.toNat + layout.size.toNat ≤ a → mem' a = mem₁ a) :
    Sound ⟨mem', w.blocks ++ [⟨ptr, layout⟩]⟩ ∧
      arrays ⟨mem', w.blocks ++ [⟨ptr, layout⟩]⟩
        = w.arrays ++ [Region.load mem' ⟨ptr.toNat, layout.size.toNat⟩] ∧
      position mem' = nextAddress w.mem layout + layout.size.toNat := by
  have hle : position w.mem ≤ ptr.toNat := hptr ▸ le_alignUp (align_pos layout)
  have hbottom := h.packed.le
  have hposition : position mem' = nextAddress w.mem layout + layout.size.toNat := by
    rw [← hplaced.position]
    exact position_congr fun a ha => hfilled a (.inl (by omega))
  have hregions : regions ⟨mem', w.blocks ++ [⟨ptr, layout⟩]⟩
      = w.regions ++ [⟨ptr.toNat, layout.size.toNat⟩] := by
    rw [regions, List.map_append]
    rfl
  refine ⟨⟨?_, ?_, fun a ha => ?_, fun b hb => ?_⟩, ?_, hposition⟩
  · rw [hregions, hposition, ← hptr]
    exact h.packed.push hle
  · exact hposition.trans_le hroom
  · rw [hposition] at ha
    show mem' a = 0
    rw [hfilled a (.inr (by omega)), hplaced.same a (by omega)]
    exact h.blank a (by omega)
  · rcases List.mem_append.1 hb with hb | hb
    · exact h.aligned b hb
    · obtain rfl := List.mem_singleton.1 hb
      show layout.align.toNat ∣ ptr.toNat
      rw [hptr]
      exact dvd_alignUp
  · have hold : contents mem' w.regions = contents w.mem w.regions :=
      contents_congr h.packed fun a hlow hhigh => by
        rw [hfilled a (.inl (by omega)), hplaced.same a hlow]
    show contents mem' (regions ⟨mem', w.blocks ++ [⟨ptr, layout⟩]⟩) = _
    rw [hregions, contents_push, hold, arrays]

/-- **A byte written into a block.** -/
theorem Sound.write (h : Sound w) {offset : Nat} (byte : UInt8) (hb : w.blocks[i]? = some b)
    (hoffset : offset < b.layout.size.toNat) :
    Sound { w with mem := Function.update w.mem (b.ptr.toNat + offset) byte } ∧
      arrays { w with mem := Function.update w.mem (b.ptr.toNat + offset) byte }
        = w.arrays.set i ((b.region.load w.mem).set offset byte) ∧
      position (Function.update w.mem (b.ptr.toNat + offset) byte) = position w.mem := by
  have hregion : w.regions[i]? = some b.region := by
    rw [regions, List.getElem?_map, hb, Option.map_some]
  have hmem := List.mem_of_getElem? hregion
  have habove : bottomAddress.toNat ≤ b.ptr.toNat := h.packed.above _ hmem
  have hbelow : b.ptr.toNat + b.layout.size.toNat ≤ position w.mem := h.packed.below _ hmem
  have hposition : position (Function.update w.mem (b.ptr.toNat + offset) byte)
      = position w.mem :=
    position_congr fun a ha => Function.update_of_ne (by omega) _ _
  refine ⟨⟨?_, ?_, fun a ha => ?_, h.aligned⟩, ?_, hposition⟩
  · rw [hposition]
    exact h.packed
  · rw [hposition]
    exact h.top
  · rw [hposition] at ha
    show Function.update w.mem (b.ptr.toNat + offset) byte a = 0
    rw [Function.update_of_ne (by omega)]
    exact h.blank a ha
  · exact contents_write h.packed.disjoint hregion hoffset

/-! ## One step -/

/-- What a step of the heap says of the step of the arrays. -/
inductive Answered (w : HeapWorld) (op : HeapOp) : Prop
  | done (w' : HeapWorld) (step : w.step op = .ok w') (sound : Sound w')
    (arrays : Arrays.step w.arrays op = .ok w'.arrays)
    (position : position w'.mem ≤ BumpAllocator.position w.mem + op.demand)
  | full (step : w.step op = .error .outOfMemory)
    (room : topAddress.toNat < BumpAllocator.position w.mem + op.demand)
  | broken (step : w.step op = .error .outOfBounds)
    (arrays : Arrays.step w.arrays op = .error .outOfBounds)

theorem array_of_block (hb : w.blocks[i]? = some b) :
    w.arrays.array i = .ok (b.region.load w.mem) := by
  rw [Arrays.array, getElem?_arrays, hb]
  rfl

theorem array_of_none (hb : w.blocks[i]? = none) : w.arrays.array i = .error .outOfBounds := by
  rw [Arrays.array, getElem?_arrays, hb]
  rfl

theorem block_of_some (hb : w.blocks[i]? = some b) : w.block i = .ok b := by
  rw [block, hb]

theorem block_of_none (hb : w.blocks[i]? = none) : w.block i = .error .outOfBounds := by
  rw [block, hb]

theorem hand_ok {mem : Memory} {ptr : UInt64} (hptr : ptr ≠ 0) :
    w.hand layout (.ok (mem, ptr)) = .ok ⟨mem, w.blocks ++ [⟨ptr, layout⟩]⟩ := by
  show (if ptr = 0 then _ else _) = _
  rw [if_neg hptr]

theorem hand_null {mem : Memory} : w.hand layout (.ok (mem, 0)) = .error .outOfMemory := rfl

theorem nextAddress_le (w : HeapWorld) (layout : Layout) :
    nextAddress w.mem layout + layout.size.toNat
      ≤ position w.mem + (layout.size.toNat + (layout.align.toNat - 1)) := by
  have hle : nextAddress w.mem layout ≤ position w.mem + (layout.align.toNat - 1) := alignUp_le
  omega

/-- A block that is copied from another one, of any size. -/
theorem load_copy {mem mem₁ : Memory} {src dst count : UInt64} {old new : Nat}
    (hcount : count.toNat = min old new)
    (hsrc : ∀ k, k < old → mem₁ (src.toNat + k) = mem (src.toNat + k))
    (hdst : ∀ k, k < new → mem₁ (dst.toNat + k) = 0) :
    Region.load (mem₁.copyNonoverlapping src dst count) ⟨dst.toNat, new⟩
      = Arrays.resized (Region.load mem ⟨src.toNat, old⟩) new := by
  have hlen : (Region.load mem ⟨src.toNat, old⟩).length = old := length_load
  refine List.ext_getElem? fun k => ?_
  rw [getElem?_load, Arrays.resized, List.getElem?_append, List.length_take, hlen,
    List.getElem?_take, getElem?_load, List.getElem?_replicate]
  by_cases hnew : k < new
  · rw [if_pos hnew, if_pos hnew]
    by_cases hlt : k < count.toNat
    · have hold : k < old := by omega
      have hcopied : mem₁.copyNonoverlapping src dst count (dst.toNat + k)
          = mem (src.toNat + k) := by
        rw [Memory.copyNonoverlapping, if_pos (by omega), Nat.add_sub_cancel_left,
          hsrc k hold]
      rw [if_pos (by omega), if_pos hold, hcopied]
    · have hrest : mem₁.copyNonoverlapping src dst count (dst.toNat + k) = 0 := by
        rw [Memory.copyNonoverlapping, if_neg (by omega), hdst k hnew]
      rw [if_neg (by omega), if_pos (by omega), hrest]
  · rw [if_neg hnew, if_neg (by omega), if_neg (by omega)]

/-- What an allocation returns in a sound heap: a block of zeros, or nothing. -/
theorem Sound.room (h : Sound w) (layout : Layout) :
    (∃ mem₁ ptr, alloc w.mem layout = .ok (mem₁, ptr) ∧ ptr ≠ 0 ∧
      nextAddress w.mem layout + layout.size.toNat ≤ topAddress.toNat ∧
      ptr.toNat = nextAddress w.mem layout ∧
      Placed w.mem mem₁ (nextAddress w.mem layout + layout.size.toNat) ∧
      ∀ a, ptr.toNat ≤ a → mem₁ a = 0) ∨
    alloc w.mem layout = .ok (w.mem, 0) ∧
      topAddress.toNat < position w.mem + (layout.size.toNat + (layout.align.toNat - 1)) := by
  have hbottom := h.packed.le
  have hpos : 0 < bottomAddress.toNat := by decide
  have hle := nextAddress_le w layout
  obtain ⟨hroom, mem₁, ptr, halloc, hptr, hplaced⟩ | ⟨hfull, halloc⟩ :=
    alloc_cases layout hbottom h.top
  · have habove : position w.mem ≤ ptr.toNat := hptr ▸ le_alignUp (align_pos layout)
    have hne : ptr ≠ 0 := by
      intro h0
      rw [h0] at habove
      have hzero : (0 : UInt64).toNat = 0 := rfl
      omega
    refine .inl ⟨mem₁, ptr, halloc, hne, hroom, hptr, hplaced, fun a ha => ?_⟩
    rw [hplaced.same a (by omega)]
    exact h.blank a (by omega)
  · exact .inr ⟨halloc, by omega⟩

/-- **An allocation that fills its block** is the new array, or there is no room for the block. -/
theorem Sound.handed (h : Sound w) {op : HeapOp} {result : Outcome (Memory × UInt64)}
    (fill : Memory → UInt64 → Memory) (bytes : List UInt8)
    (hstep : w.step op = w.hand layout result)
    (harrays : Arrays.step w.arrays op = .ok (w.arrays ++ [bytes]))
    (hdemand : op.demand = layout.size.toNat + (layout.align.toNat - 1))
    (hresult : ∀ mem₁ ptr, alloc w.mem layout = .ok (mem₁, ptr) →
      result = .ok (if ptr = 0 then mem₁ else fill mem₁ ptr, ptr))
    (hfilled : ∀ mem₁ ptr a, a < ptr.toNat ∨ ptr.toNat + layout.size.toNat ≤ a →
      fill mem₁ ptr a = mem₁ a)
    (hload : ∀ mem₁ ptr, (∀ a, bottomAddress.toNat ≤ a → mem₁ a = w.mem a) →
      (∀ a, ptr.toNat ≤ a → mem₁ a = 0) →
      Region.load (fill mem₁ ptr) ⟨ptr.toNat, layout.size.toNat⟩ = bytes) :
    Answered w op := by
  have hle := nextAddress_le w layout
  obtain ⟨mem₁, ptr, halloc, hne, hroom, hptr, hplaced, hzero⟩ | ⟨halloc, hfull⟩ := h.room layout
  · have hok := hresult mem₁ ptr halloc
    rw [if_neg hne] at hok
    obtain ⟨hsound, hpushed, hposition⟩ := h.push hroom hptr hplaced (hfilled mem₁ ptr)
    refine .done _ (by rw [hstep, hok, hand_ok hne]) hsound ?_ ?_
    · rw [hpushed, hload mem₁ ptr hplaced.same hzero, harrays]
    · rw [hdemand]
      exact hposition.trans_le hle
  · have hnull := hresult w.mem 0 halloc
    rw [if_pos rfl] at hnull
    refine .full (by rw [hstep, hnull, hand_null]) ?_
    rw [hdemand]
    exact hfull

/-- An operation on a block that was never handed out. -/
theorem answered_of_none {op : HeapOp} {f : Block → Except HeapFault HeapWorld}
    {g : List UInt8 → Except HeapFault Arrays} (hb : w.blocks[i]? = none)
    (hstep : w.step op = w.block i >>= f)
    (harrays : Arrays.step w.arrays op = w.arrays.array i >>= g) : Answered w op := by
  refine .broken ?_ ?_
  · rw [hstep, block_of_none hb]
    rfl
  · rw [harrays, array_of_none hb]
    rfl

/-- **A step of the heap is one of the arrays**, but for a block that there is no room for. -/
theorem Sound.step (h : Sound w) (op : HeapOp) : Answered w op := by
  cases op with
  | alloc layout =>
    refine h.handed (fun mem _ => mem) _ rfl rfl rfl (fun mem₁ ptr halloc => ?_)
      (fun _ _ _ _ => rfl) fun mem₁ ptr _ hzero => load_replicate fun a hlow _ => hzero a hlow
    rw [ite_self, halloc]
  | allocZeroed layout =>
    refine h.handed (fun mem ptr => mem.writeBytes ptr 0 layout.size) _ rfl rfl rfl
      (fun mem₁ ptr halloc => ?_) (fun _ _ a ha => if_neg (by omega)) fun mem₁ ptr _ _ =>
      load_replicate fun a hlow hhigh => if_pos ⟨hlow, hhigh⟩
    rw [allocZeroed, halloc, ok_bind]
    by_cases hnull : ptr = 0
    · rw [if_pos hnull]
      exact if_pos hnull
    · rw [if_neg hnull]
      exact if_neg hnull
  | realloc i layout =>
    cases hb : w.blocks[i]? with
    | none => exact answered_of_none hb rfl rfl
    | some b =>
      have hcount := min_toNat b.layout.size layout.size
      have hregion : b.region ∈ w.regions := List.mem_map_of_mem (List.mem_of_getElem? hb)
      have habove : bottomAddress.toNat ≤ b.ptr.toNat := h.packed.above _ hregion
      have hstep : w.step (.realloc i layout)
          = w.hand layout (realloc w.mem b.ptr b.layout layout) := by
        rw [HeapWorld.step, block_of_some hb]
        rfl
      refine h.handed
        (fun mem ptr => mem.copyNonoverlapping b.ptr ptr (min b.layout.size layout.size))
        (Arrays.resized (b.region.load w.mem) layout.size.toNat) hstep ?_ rfl
        (fun mem₁ ptr halloc => ?_) (fun _ _ a ha => if_neg (by omega))
        fun mem₁ ptr hsame hzero => ?_
      · rw [Arrays.step, array_of_block hb]
        rfl
      · rw [realloc, halloc, ok_bind]
        by_cases hnull : ptr = 0
        · rw [if_pos hnull]
          exact if_pos hnull
        · rw [if_neg hnull]
          exact if_neg hnull
      · exact load_copy hcount (fun k _ => hsame _ (by omega)) fun k _ => hzero _ (by omega)
  | dealloc i =>
    cases hb : w.blocks[i]? with
    | none => exact answered_of_none hb rfl rfl
    | some b =>
      refine .done w ?_ h ?_ (Nat.le_add_right _ _)
      · rw [HeapWorld.step, block_of_some hb]
        rfl
      · rw [Arrays.step, array_of_block hb]
        rfl
  | write i offset byte =>
    cases hb : w.blocks[i]? with
    | none => exact answered_of_none hb rfl rfl
    | some b =>
      have hlen : (b.region.load w.mem).length = b.layout.size.toNat := length_load
      by_cases hoffset : offset < b.layout.size.toNat
      · obtain ⟨hsound, harrays, hposition⟩ := h.write byte hb hoffset
        refine .done _ ?_ hsound ?_ (hposition.trans_le (Nat.le_add_right _ _))
        · rw [HeapWorld.step, block_of_some hb]
          exact if_pos hoffset
        · rw [harrays, Arrays.step, array_of_block hb]
          exact if_pos (hlen ▸ hoffset)
      · refine .broken ?_ ?_
        · rw [HeapWorld.step, block_of_some hb]
          exact if_neg hoffset
        · rw [Arrays.step, array_of_block hb]
          exact if_neg (hlen ▸ hoffset)

/-! ## Runs -/

theorem sees_arrays : Machine.Sees HeapWorld.step Arrays.step some
    fun w arrays => Sound w ∧ w.arrays = arrays where
  hidden _ _ _ _ hsight := by cases hsight
  seen w op w' arrays k hsight hstep hR := by
    obtain rfl := Option.some.inj hsight
    obtain ⟨hsound, rfl⟩ := hR
    cases hsound.step op with
    | done w₁ h₁ hsound₁ harrays =>
      obtain rfl : w₁ = w' := Except.ok.inj (h₁.symm.trans hstep)
      exact ⟨_, harrays, hsound₁, rfl⟩
    | full h₁ => cases h₁.symm.trans hstep
    | broken h₁ => cases h₁.symm.trans hstep

/-- A run of the arrays that demands no more than there is left. -/
theorem Sound.run_of_arrays {ops : List HeapOp} {arrays : Arrays} (h : Sound w)
    (hops : ops.foldlM Arrays.step w.arrays = .ok arrays)
    (hroom : position w.mem + (ops.map HeapOp.demand).sum ≤ topAddress.toNat) :
    ∃ w', ops.foldlM HeapWorld.step w = .ok w' ∧ Sound w' ∧ w'.arrays = arrays ∧
      position w'.mem ≤ position w.mem + (ops.map HeapOp.demand).sum := by
  induction ops generalizing w with
  | nil =>
    cases hops
    exact ⟨w, rfl, h, rfl, Nat.le_add_right _ _⟩
  | cons op ops ih =>
    obtain ⟨arrays₁, h₁, h₂⟩ := Machine.foldlM_cons_eq_ok.1 hops
    rw [List.map_cons, List.sum_cons] at hroom ⊢
    cases h.step op with
    | done w₁ hstep hsound harrays hposition =>
      obtain rfl : w₁.arrays = arrays₁ := Except.ok.inj (harrays.symm.trans h₁)
      obtain ⟨w', hrun, hsound', harrays', hposition'⟩ := ih hsound h₂ (by omega)
      exact ⟨w', Machine.foldlM_cons_eq_ok.2 ⟨w₁, hstep, hrun⟩, hsound', harrays', by omega⟩
    | full _ hfull => omega
    | broken _ harrays => cases harrays.symm.trans h₁

/-- A run that fails does so at an operation that the arrays refuse too, or that has no room. -/
theorem Sound.fails {ops : List HeapOp} {fault : HeapFault} (h : Sound w)
    (hrun : ops.foldlM HeapWorld.step w = .error fault) :
    ∃ done op rest w', ops = done ++ op :: rest ∧ done.foldlM HeapWorld.step w = .ok w' ∧
      done.foldlM Arrays.step w.arrays = .ok w'.arrays ∧
      (fault = .outOfBounds ∧ Arrays.step w'.arrays op = .error .outOfBounds ∨
        fault = .outOfMemory ∧
          topAddress.toNat < position w.mem + ((done ++ [op]).map HeapOp.demand).sum) := by
  induction ops generalizing w with
  | nil => cases hrun
  | cons op ops ih =>
    rw [List.foldlM_cons] at hrun
    cases h.step op with
    | done w₁ hstep hsound harrays hposition =>
      rw [hstep] at hrun
      obtain ⟨done, op', rest, w', rfl, hdone, hdone', hcase⟩ := ih hsound hrun
      refine ⟨op :: done, op', rest, w', rfl, Machine.foldlM_cons_eq_ok.2 ⟨w₁, hstep, hdone⟩,
        Machine.foldlM_cons_eq_ok.2 ⟨w₁.arrays, harrays, hdone'⟩, ?_⟩
      obtain hbroken | ⟨rfl, hfull⟩ := hcase
      · exact .inl hbroken
      · refine .inr ⟨rfl, ?_⟩
        rw [List.cons_append, List.map_cons, List.sum_cons]
        omega
    | full hstep hfull =>
      rw [hstep] at hrun
      cases hrun
      refine ⟨[], op, ops, w, rfl, rfl, rfl, .inr ⟨rfl, ?_⟩⟩
      rw [List.nil_append, List.map_singleton, List.sum_singleton]
      exact hfull
    | broken hstep harrays =>
      rw [hstep] at hrun
      cases hrun
      exact ⟨[], op, ops, w, rfl, rfl, rfl, .inl ⟨rfl, harrays⟩⟩

/-- **The heap is separate arrays**: in every run of allocations, reallocations, releases and writes
that the heap has room for, each block holds what it would as an array of its own, no block overlaps
another or the word of the allocator, none reaches beyond the heap, and each is aligned. -/
theorem heap_run (ops : List HeapOp) (w : HeapWorld)
    (h : ops.foldlM HeapWorld.step fresh = .ok w) :
    ops.foldlM Arrays.step [] = .ok w.arrays ∧
      Packed bottomAddress.toNat topAddress.toNat w.regions ∧
      ∀ b ∈ w.blocks, b.layout.align.toNat ∣ b.ptr.toNat := by
  obtain ⟨arrays, hrun, hsound, rfl⟩ := sees_arrays.foldlM ⟨sound_fresh, rfl⟩ h
  rw [List.filterMap_some] at hrun
  exact ⟨hrun, hsound.packed.mono hsound.top, hsound.aligned⟩

/-- A block of four bytes that grows to eight. -/
def sampleOps : List HeapOp :=
  [.alloc ⟨4, 4, ⟨2, rfl⟩, by decide⟩, .write 0 1 7, .realloc 0 ⟨8, 4, ⟨2, rfl⟩, by decide⟩,
    .write 1 0 9]

theorem arrays_sampleOps :
    sampleOps.foldlM Arrays.step [] = .ok [[0, 7, 0, 0], [9, 7, 0, 0, 0, 0, 0, 0]] := rfl

theorem heap_run_sampleOps :
    ∃ w, sampleOps.foldlM HeapWorld.step fresh = .ok w ∧
      w.arrays = [[0, 7, 0, 0], [9, 7, 0, 0, 0, 0, 0, 0]] ∧
      Packed bottomAddress.toNat topAddress.toNat w.regions := by
  obtain ⟨w, hrun, -, harrays, -⟩ := sound_fresh.run_of_arrays arrays_sampleOps (by decide)
  exact ⟨w, hrun, harrays, (heap_run sampleOps w hrun).2.1⟩

/-- **What the heap has room for**: a run of the arrays whose blocks, with what alignment skips and
the word of the allocator, take no more than `n` bytes is a run of the heap, in its first `n` bytes.
A transaction that asks for no longer heap has 32 KiB. -/
theorem heap_suffices (ops : List HeapOp) (arrays : Arrays) (n : Nat)
    (hops : ops.foldlM Arrays.step [] = .ok arrays)
    (hroom : 8 + (ops.map HeapOp.demand).sum ≤ n) (hn : n ≤ heapLength.toNat) :
    ∃ w, ops.foldlM HeapWorld.step fresh = .ok w ∧ w.arrays = arrays ∧
      Packed bottomAddress.toNat (heapStartAddress.toNat + n) w.regions := by
  have hstart : position fresh.mem = heapStartAddress.toNat + 8 := by decide
  have htop : topAddress.toNat = heapStartAddress.toNat + heapLength.toNat := rfl
  obtain ⟨w, hrun, hsound, harrays, hposition⟩ :=
    sound_fresh.run_of_arrays hops (by omega)
  exact ⟨w, hrun, harrays, hsound.packed.mono (by omega)⟩

theorem heap_suffices_sampleOps :
    ∃ w, sampleOps.foldlM HeapWorld.step fresh = .ok w ∧
      w.arrays = [[0, 7, 0, 0], [9, 7, 0, 0, 0, 0, 0, 0]] ∧
      Packed bottomAddress.toNat (heapStartAddress.toNat + 32 * 1024) w.regions :=
  heap_suffices sampleOps _ (32 * 1024) arrays_sampleOps (by decide) (by decide)

/-- **Why a run fails**: at an operation on a block that was not handed out, or beyond its end,
where the arrays fail too, or at an allocation up to which the blocks, with what alignment skips,
take more than the whole heap. Nothing overflows on the way. -/
theorem heap_fails (ops : List HeapOp) (fault : HeapFault)
    (h : ops.foldlM HeapWorld.step fresh = .error fault) :
    ∃ done op rest w, ops = done ++ op :: rest ∧ done.foldlM HeapWorld.step fresh = .ok w ∧
      done.foldlM Arrays.step [] = .ok w.arrays ∧
      (fault = .outOfBounds ∧ Arrays.step w.arrays op = .error .outOfBounds ∨
        fault = .outOfMemory ∧
          heapLength.toNat < 8 + ((done ++ [op]).map HeapOp.demand).sum) := by
  have hstart : position fresh.mem = heapStartAddress.toNat + 8 := by decide
  have htop : topAddress.toNat = heapStartAddress.toNat + heapLength.toNat := rfl
  obtain ⟨done, op, rest, w, hops, hdone, harrays, hcase⟩ := sound_fresh.fails h
  refine ⟨done, op, rest, w, hops, hdone, harrays, ?_⟩
  obtain hbroken | ⟨hfault, hfull⟩ := hcase
  · exact .inl hbroken
  · exact .inr ⟨hfault, by omega⟩

/-- A block as long as the heap has no room beside the word of the allocator. -/
theorem heap_fails_wholeHeap :
    [HeapOp.alloc ⟨262144, 1, ⟨0, rfl⟩, by decide⟩].foldlM HeapWorld.step fresh
      = .error .outOfMemory ∧
    ∃ done op, heapLength.toNat < 8 + ((done ++ [op]).map HeapOp.demand).sum := by
  have hrun : [HeapOp.alloc ⟨262144, 1, ⟨0, rfl⟩, by decide⟩].foldlM HeapWorld.step fresh
      = .error .outOfMemory := rfl
  obtain ⟨done, op, rest, w, -, -, -, ⟨hbad, -⟩ | ⟨-, hfull⟩⟩ := heap_fails _ _ hrun
  · cases hbad
  · exact ⟨hrun, done, op, hfull⟩

end HeapWorld

end ExponentCore
