import HighCache.Lib.Memory
import Mathlib.Data.Fin.VecNotation
import Mathlib.Data.List.FinRange

/-!
# The slab allocator

`slab_allocator.cpp`: eight size classes, each a list of one-mebibyte slabs cut into equal blocks,
with the free blocks of a class linked through their own first word. Requests above the largest
class go to `::operator new` directly.

## The surroundings

`::operator new` is outside. A call that may reach it gets its answer as `fresh`, `none` where it
throws; whether it is reached is up to the code. The memory is shared with the callers and passed
along. An allocation that throws leaves allocator and memory as they were.

## Arithmetic

The byte counters are `Checked`: their sums and differences are meant to be exact. The two counts
of calls are only ever incremented, so they are machine words.
-/

namespace HighCache

/-! ## Metrics -/

/-- `ValueAllocatorMetrics`. -/
structure ValueAllocatorMetrics where
  allocatedBytes : ℕ
  usedBytes : ℕ
  freeBytes : ℕ
  allocationCount : UInt64
  deallocationCount : UInt64
  internalFragmentation : ℕ
  slabCount : ℕ
  deriving DecidableEq, Repr

namespace ValueAllocatorMetrics

/-- All counters at zero. -/
def zero : ValueAllocatorMetrics := ⟨0, 0, 0, 0, 0, 0, 0⟩

/-- The counters after a request that went to `::operator new`. -/
def addLarge (size : ℕ) (x : ValueAllocatorMetrics) : Except Fault ValueAllocatorMetrics := do
  let allocatedBytes ← Checked.add x.allocatedBytes size
  let usedBytes ← Checked.add x.usedBytes size
  .ok { x with
    allocatedBytes := allocatedBytes
    usedBytes := usedBytes
    allocationCount := x.allocationCount + 1 }

/-- The counters after a large block went back to `::operator delete`. -/
def subLarge (size : ℕ) (x : ValueAllocatorMetrics) : Except Fault ValueAllocatorMetrics := do
  let allocatedBytes ← Checked.sub x.allocatedBytes size
  let usedBytes ← Checked.sub x.usedBytes size
  .ok { x with
    allocatedBytes := allocatedBytes
    usedBytes := usedBytes
    deallocationCount := x.deallocationCount + 1 }

end ValueAllocatorMetrics

namespace SlabAllocator

/-! ## Size classes -/

/-- `slab_size`. -/
def slabSize : ℕ := 1024 * 1024

/-- `size_classes`. -/
def sizeClasses : Fin 8 → ℕ := ![64, 128, 256, 512, 1024, 2048, 4096, 8192]

/-- `size_classes.back()`. -/
def largestClass : ℕ := 8192

/-- `SlabAllocator::class_index`: the first class with room. -/
def classIndex (requestedSize : ℕ) : Except Fault (Fin 8) := do
  Checked.assert (requestedSize > 0)
  Checked.assert (requestedSize ≤ largestClass)
  match (List.finRange 8).find? fun index ↦ requestedSize ≤ sizeClasses index with
  | some index => .ok index
  | none => .error .assertion

end SlabAllocator

/-! ## One size class

A free block holds the address of the next one in its first word. A new slab is threaded from its
first block on, each in front of the one before, so the last block of a slab is handed out first. -/

/-- `SlabAllocator::SlabClass`; a slab is its address. -/
structure SlabClass where
  objectSize : ℕ
  freeHead : Pointer
  slabs : List Pointer

namespace SlabClass

/-- `SlabClass::deallocate`: the block becomes the head of the free list. -/
def deallocate (pointer : Pointer) (s : Memory × SlabClass) : Memory × SlabClass :=
  (s.1.storeWord pointer s.2.freeHead, { s.2 with freeHead := pointer })

/-- The loop of `SlabClass::add_slab`. -/
def threadBlocks (data : Pointer) : List ℕ → Memory × SlabClass → Memory × SlabClass
  | [], s => s
  | index :: indices, s => threadBlocks data indices (deallocate (data + index * s.2.objectSize) s)

/-- `SlabClass::add_slab` with the memory it got. -/
def addSlab (data : Pointer) (s : Memory × SlabClass) : Memory × SlabClass :=
  threadBlocks data (List.range (SlabAllocator.slabSize / s.2.objectSize))
    (s.1, { s.2 with slabs := s.2.slabs ++ [data] })

/-- `SlabClass::allocate`, or `none` where adding a slab throws. -/
def allocate (fresh : Option Pointer) (s : Memory × SlabClass) :
    Except Fault (Option (Pointer × Memory × SlabClass)) :=
  match if s.2.freeHead = 0 then fresh.map fun data ↦ addSlab data s else some s with
  | none => .ok none
  | some (m, k) =>
    -- reading `next` through a null head is undefined
    if k.freeHead = 0 then .error .invalidIterator
    else .ok (some (k.freeHead, m, { k with freeHead := m.loadWord k.freeHead }))

end SlabClass

/-! ## The allocator

The updates of the metrics are functions of their own, in the order of the source. Each may stop
with a fault, at an addition that would wrap or a subtraction that would go below zero. -/

/-- `SlabAllocator`. -/
structure SlabAllocator where
  classes : Fin 8 → SlabClass
  metrics : ValueAllocatorMetrics

namespace SlabAllocator

/-- `SlabAllocator::SlabAllocator`. -/
def new : SlabAllocator where
  classes := fun index ↦ ⟨sizeClasses index, 0, []⟩
  metrics := .zero

/-- The counters after a slab was added. -/
def addSlabMetrics (x : ValueAllocatorMetrics) : Except Fault ValueAllocatorMetrics := do
  let allocatedBytes ← Checked.add x.allocatedBytes slabSize
  let freeBytes ← Checked.add x.freeBytes slabSize
  let slabCount ← Checked.add x.slabCount 1
  .ok { x with allocatedBytes := allocatedBytes, freeBytes := freeBytes, slabCount := slabCount }

/-- The counters after a block of a class was handed out. -/
def takeMetrics (size classSize : ℕ) (x : ValueAllocatorMetrics) :
    Except Fault ValueAllocatorMetrics := do
  let usedBytes ← Checked.add x.usedBytes size
  let freeBytes ← Checked.sub x.freeBytes classSize
  let waste ← Checked.sub classSize size
  let internalFragmentation ← Checked.add x.internalFragmentation waste
  .ok { x with
    usedBytes := usedBytes
    freeBytes := freeBytes
    internalFragmentation := internalFragmentation
    allocationCount := x.allocationCount + 1 }

/-- The counters after a block of a class came back. -/
def giveMetrics (size classSize fragmentation : ℕ) (x : ValueAllocatorMetrics) :
    Except Fault ValueAllocatorMetrics := do
  let usedBytes ← Checked.sub x.usedBytes size
  let freeBytes ← Checked.add x.freeBytes classSize
  let internalFragmentation ← Checked.sub x.internalFragmentation fragmentation
  .ok { x with
    usedBytes := usedBytes
    freeBytes := freeBytes
    internalFragmentation := internalFragmentation
    deallocationCount := x.deallocationCount + 1 }

/-- `SlabAllocator::allocate`, or `none` where it throws. -/
def allocate (size : ℕ) (fresh : Option Pointer) (m : Memory) (a : SlabAllocator) :
    Except Fault (Option (Pointer × Memory × SlabAllocator)) :=
  if size = 0 then .ok (some (0, m, a))
  else if size > largestClass then
    match fresh with
    | none => .ok none
    | some pointer => do
      let metrics ← a.metrics.addLarge size
      .ok (some (pointer, m, { a with metrics := metrics }))
  else do
    let index ← classIndex size
    let slabsBefore := (a.classes index).slabs.length
    match ← SlabClass.allocate fresh (m, a.classes index) with
    | none => .ok none
    | some (pointer, m, k) =>
      let metrics ← if k.slabs.length ≠ slabsBefore then addSlabMetrics a.metrics else .ok a.metrics
      let metrics ← takeMetrics size (sizeClasses index) metrics
      .ok (some (pointer, m, ⟨Function.update a.classes index k, metrics⟩))

/-- `SlabAllocator::deallocate`. -/
def deallocate (pointer : Pointer) (size : ℕ) (m : Memory) (a : SlabAllocator) :
    Except Fault (Memory × SlabAllocator) :=
  if pointer = 0 then do
    Checked.assert (size = 0)
    .ok (m, a)
  else do
    Checked.assert (size ≠ 0)
    Checked.assert (a.metrics.usedBytes ≥ size)
    if size > largestClass then
      Checked.assert (a.metrics.allocatedBytes ≥ size)
      let metrics ← a.metrics.subLarge size
      .ok (m, { a with metrics := metrics })
    else
      let index ← classIndex size
      let fragmentation ← Checked.sub (sizeClasses index) size
      Checked.assert (a.metrics.internalFragmentation ≥ fragmentation)
      let (m, k) := SlabClass.deallocate pointer (m, a.classes index)
      let metrics ← giveMetrics size (sizeClasses index) fragmentation a.metrics
      .ok (m, ⟨Function.update a.classes index k, metrics⟩)

end SlabAllocator

end HighCache
