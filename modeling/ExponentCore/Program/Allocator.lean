import ExponentCore.Lib.Borsh
import ExponentCore.Lib.Machine
import ExponentCore.Lib.Regions
import ExponentCore.Num.Outcome

/-!
# The allocator

The global allocator of the program, on the bytes of the heap, which the VM gives to every
transaction zeroed. `alloc_zeroed` and `realloc` are those of `GlobalAlloc`, which the allocator
leaves as they are. The first word of the heap is the allocator's own.

`HeapWorld.step` runs one call of the program to its allocator, or one write of a byte to a block.
`Arrays.step` is what the program means by it: every block is an array of its own, of zeros when it
is new, and there is always room for another.
-/

set_option autoImplicit false

namespace ExponentCore

open Regions (Region)

/-- `std::alloc::Layout`: an alignment is a power of two, and a size that is rounded up to it fits
an `isize`. -/
structure BumpAllocator.Layout where
  size : UInt64
  align : UInt64
  align_pow : ∃ k, align.toNat = 2 ^ k
  size_le : Regions.alignUp size.toNat align.toNat < 2 ^ 63

open BumpAllocator (Layout)

/-- The heap, by address. -/
abbrev Memory := Nat → UInt8

namespace Memory

variable (mem : Memory)

def readWord (address : UInt64) : UInt64 :=
  UInt64.ofNat (Borsh.ofLe (Region.load mem ⟨address.toNat, 8⟩))

def writeWord (address value : UInt64) : Memory := fun a =>
  if address.toNat ≤ a then ((Borsh.u64Bytes value)[a - address.toNat]?).getD (mem a) else mem a

/-- `ptr::write_bytes` -/
def writeBytes (dst : UInt64) (byte : UInt8) (count : UInt64) : Memory := fun a =>
  if dst.toNat ≤ a ∧ a < dst.toNat + count.toNat then byte else mem a

/-- `ptr::copy_nonoverlapping` -/
def copyNonoverlapping (src dst count : UInt64) : Memory := fun a =>
  if dst.toNat ≤ a ∧ a < dst.toNat + count.toNat then mem (src.toNat + (a - dst.toNat)) else mem a

end Memory

def saturatingAdd (a b : UInt64) : UInt64 := (checkedAdd a b).getD 0xffffffffffffffff

def heapStartAddress : UInt64 := 0x300000000

def heapLength : UInt64 := 8 * 32 * 1024

namespace BumpAllocator

def topAddress : UInt64 := heapStartAddress + heapLength

def bottomAddress : UInt64 := heapStartAddress + 8

/-- Returns the address of the block, or null. -/
def alloc (mem : Memory) (layout : Layout) : Outcome (Memory × UInt64) := do
  let pos := mem.readWord heapStartAddress
  -- first time, set starting position to bottom address
  let pos := if pos = 0 then bottomAddress else pos
  -- align the position upwards
  let sum ← addU64 pos layout.align
  let sum ← subU64 sum 1
  let mask ← subU64 layout.align 1
  let pos := sum &&& ~~~mask
  let nextPos := saturatingAdd pos layout.size
  if topAddress < nextPos then .ok (mem, 0)
  else .ok (mem.writeWord heapStartAddress nextPos, pos)

/-- A bump allocator does not free. -/
def dealloc (mem : Memory) (_ptr : UInt64) (_layout : Layout) : Memory := mem

/-- `GlobalAlloc::alloc_zeroed` -/
def allocZeroed (mem : Memory) (layout : Layout) : Outcome (Memory × UInt64) := do
  let (mem, ptr) ← alloc mem layout
  if ptr = 0 then .ok (mem, ptr) else .ok (mem.writeBytes ptr 0 layout.size, ptr)

/-- `GlobalAlloc::realloc` -/
def realloc (mem : Memory) (ptr : UInt64) (layout newLayout : Layout) :
    Outcome (Memory × UInt64) := do
  let (mem, newPtr) ← alloc mem newLayout
  if newPtr = 0 then .ok (mem, newPtr)
  else
    let mem := mem.copyNonoverlapping ptr newPtr (min layout.size newLayout.size)
    .ok (dealloc mem ptr layout, newPtr)

end BumpAllocator

/-! ## Runs -/

inductive HeapOp
  | alloc (layout : Layout)
  | allocZeroed (layout : Layout)
  | realloc (block : Nat) (newLayout : Layout)
  | dealloc (block : Nat)
  | write (block : Nat) (offset : Nat) (byte : UInt8)

inductive HeapFault
  | panic (fault : Fault)
  /-- the allocator returned null -/
  | outOfMemory
  /-- the program broke the contract of its allocator -/
  | outOfBounds

structure Block where
  ptr : UInt64
  layout : Layout

def Block.region (b : Block) : Region := ⟨b.ptr.toNat, b.layout.size.toNat⟩

/-- The heap, and the blocks that were handed out. One that is given back keeps its place. -/
structure HeapWorld where
  mem : Memory
  blocks : List Block

namespace HeapWorld

/-- The heap at the start of a transaction. -/
def fresh : HeapWorld := ⟨fun _ => 0, []⟩

variable (w : HeapWorld)

def regions : List Region := w.blocks.map Block.region

def block (index : Nat) : Except HeapFault Block :=
  match w.blocks[index]? with
  | some b => .ok b
  | none => .error .outOfBounds

/-- The block that the allocator returns for a layout. -/
def hand (layout : Layout) (result : Outcome (Memory × UInt64)) : Except HeapFault HeapWorld := do
  let (mem, ptr) ← result.mapError .panic
  if ptr = 0 then .error .outOfMemory
  else .ok { mem, blocks := w.blocks ++ [⟨ptr, layout⟩] }

def step : HeapOp → Except HeapFault HeapWorld
  | .alloc layout => w.hand layout (BumpAllocator.alloc w.mem layout)
  | .allocZeroed layout => w.hand layout (BumpAllocator.allocZeroed w.mem layout)
  | .realloc index newLayout => do
    let b ← w.block index
    w.hand newLayout (BumpAllocator.realloc w.mem b.ptr b.layout newLayout)
  | .dealloc index => do
    let b ← w.block index
    .ok { w with mem := BumpAllocator.dealloc w.mem b.ptr b.layout }
  | .write index offset byte => do
    let b ← w.block index
    if offset < b.layout.size.toNat then
      .ok { w with mem := Function.update w.mem (b.ptr.toNat + offset) byte }
    else .error .outOfBounds

end HeapWorld

/-- The blocks of the heap as arrays of their own. -/
abbrev Arrays := List (List UInt8)

namespace Arrays

variable (arrays : Arrays)

def array (index : Nat) : Except HeapFault (List UInt8) :=
  match arrays[index]? with
  | some bytes => .ok bytes
  | none => .error .outOfBounds

/-- A longer array begins with the bytes of the old one. -/
def resized (bytes : List UInt8) (size : Nat) : List UInt8 :=
  bytes.take size ++ List.replicate (size - bytes.length) 0

def step : HeapOp → Except HeapFault Arrays
  | .alloc layout | .allocZeroed layout =>
    .ok (arrays ++ [List.replicate layout.size.toNat 0])
  | .realloc index newLayout => do
    let bytes ← arrays.array index
    .ok (arrays ++ [resized bytes newLayout.size.toNat])
  | .dealloc index => do
    let _ ← arrays.array index
    .ok arrays
  | .write index offset byte => do
    let bytes ← arrays.array index
    if offset < bytes.length then .ok (arrays.set index (bytes.set offset byte))
    else .error .outOfBounds

end Arrays

/-- What an operation may take of the heap: the size of a block, and what its alignment skips. -/
def HeapOp.demand : HeapOp → Nat
  | .alloc layout | .allocZeroed layout | .realloc _ layout =>
    layout.size.toNat + (layout.align.toNat - 1)
  | .dealloc _ | .write _ _ _ => 0

end ExponentCore
