/-
  The kernel heap: `heap.c`.

  The heap is a doubly linked list of block headers in a run of physical pages, so its state
  is the memory itself together with the three static variables (`Region`). Every function is
  given as the loads and stores it makes, in the order of the source.

  The loops that follow `next` take as many turns as the heap has room for headers, and one
  more; `none` says that a loop did not end within them.
-/
import ArgusOs.Memory.Paging

namespace ArgusOs.Heap

open Lib Memory

def heapBlockMagic : UInt32 := 0xA86B10C5
def heapAlignment : UInt64 := 16
/-- `sizeof(heap_block_t)`. -/
def headerBytes : UInt64 := 32

/-- The static variables of `heap.c`. -/
structure Region where
  base : UInt64
  size : UInt64
  firstBlock : UInt64

/-! ## Headers -/

variable (mem : Mem) (block : UInt64)

def sizeAt : UInt64 := load64 mem block.toNat
def previousAt : UInt64 := load64 mem (block.toNat + 8)
def nextAt : UInt64 := load64 mem (block.toNat + 16)
def magicAt : UInt32 := load32 mem (block.toNat + 24)
def freeAt : UInt32 := load32 mem (block.toNat + 28)

def setSize (block v : UInt64) : Mem := store64 mem block.toNat v
def setPrevious (block v : UInt64) : Mem := store64 mem (block.toNat + 8) v
def setNext (block v : UInt64) : Mem := store64 mem (block.toNat + 16) v
def setMagic (v : UInt32) : Mem := store32 mem (block.toNat + 24) v
def setFree (v : UInt32) : Mem := store32 mem (block.toNat + 28) v

/-- The stores that make a header of a free block. -/
def writeHeader (block size previous next : UInt64) : Mem :=
  let mem := setSize mem block size
  let mem := setPrevious mem block previous
  let mem := setNext mem block next
  let mem := setMagic mem block heapBlockMagic
  setFree mem block 1

/-- `if (next) next->previous = block`. -/
def linkBack (next block : UInt64) : Mem :=
  if next = 0 then mem else setPrevious mem next block

/-! ## Functions -/

def alignSize (size : UInt64) : UInt64 :=
  if size > 0xFFFFFFFFFFFFFFFF - (heapAlignment - 1) then 0
  else (size + heapAlignment - 1) &&& ~~~(heapAlignment - 1)

def blockInHeap (heap : Region) (block : UInt64) : Bool :=
  heap.base ≠ 0 ∧ block ≥ heap.base ∧ block ≤ heap.base + heap.size - headerBytes

/-- The stores of `merge_with_next`. -/
def absorb (block next : UInt64) : Mem :=
  let mem := setSize mem block (sizeAt mem block + (headerBytes + sizeAt mem next))
  let mem := setNext mem block (nextAt mem next)
  let mem := linkBack mem (nextAt mem block) block
  setMagic mem next 0

def mergeWithNext : Mem :=
  if nextAt mem block = 0 ∨ freeAt mem (nextAt mem block) = 0 ∨
      magicAt mem (nextAt mem block) ≠ heapBlockMagic then mem
  else absorb mem block (nextAt mem block)

/-- `heap_init`; the statics change on success only. -/
def heapInit (phys : Phys) (heap : Region) (pages : UInt64) : Phys × Region × Bool :=
  if pages = 0 ∨ pages > 0xFFFFFFFFFFFFFFFF / UInt64.ofNat argusPageSize then (phys, heap, false)
  else
    let (pmm, address) := pmmAllocPages phys.pmm pages.toNat
    if address = 0 then (⟨phys.mem, pmm⟩, heap, false)
    else
      let size := pages * UInt64.ofNat argusPageSize
      (⟨writeHeader phys.mem address (size - headerBytes) 0 0, pmm⟩, ⟨address, size, address⟩, true)

/-- The part of a block that is not needed becomes a free block. -/
def splitBlock (block size : UInt64) : Mem :=
  let split := block + headerBytes + size
  let mem := writeHeader mem split (sizeAt mem block - size - headerBytes) block (nextAt mem block)
  let mem := linkBack mem (nextAt mem split) split
  let mem := setNext mem block split
  setSize mem block size

/-- What `kmalloc` does to the block it takes. -/
def takeBlock (block size : UInt64) : Mem :=
  setFree (if sizeAt mem block ≥ size + headerBytes + heapAlignment then splitBlock mem block size
    else mem) block 0

/-- The turns a loop over the blocks is given. -/
def Region.turns (heap : Region) : Nat := heap.size.toNat / 32 + 1

/-- The loop of `kmalloc` from a block on: the memory and the pointer that is returned. -/
def kmallocFrom (mem : Mem) (size : UInt64) : Nat → UInt64 → Option (Mem × UInt64)
  | 0, block => if block = 0 then some (mem, 0) else none
  | turns + 1, block =>
    if block = 0 then some (mem, 0)
    else if freeAt mem block = 0 ∨ magicAt mem block ≠ heapBlockMagic ∨ sizeAt mem block < size then
      kmallocFrom mem size turns (nextAt mem block)
    else some (takeBlock mem block size, block + headerBytes)

def kmalloc (heap : Region) (mem : Mem) (requestedSize : UInt64) : Option (Mem × UInt64) :=
  if alignSize requestedSize = 0 ∨ heap.firstBlock = 0 then some (mem, 0)
  else kmallocFrom mem (alignSize requestedSize) heap.turns heap.firstBlock

/-- What `kfree` does to the block it gives back. -/
def releaseBlock : Mem :=
  let mem := mergeWithNext (setFree mem block 1) block
  if previousAt mem block ≠ 0 ∧ freeAt mem (previousAt mem block) ≠ 0 then
    mergeWithNext mem (previousAt mem block)
  else mem

def kfree (heap : Region) (mem : Mem) (pointer : UInt64) : Mem × Bool :=
  if pointer = 0 then (mem, false)
  else if heap.firstBlock = 0 ∨ pointer < heap.base + headerBytes ∨
      pointer ≥ heap.base + heap.size ∨ pointer &&& (heapAlignment - 1) ≠ 0 then (mem, false)
  else if blockInHeap heap (pointer - headerBytes) = false ∨
      magicAt mem (pointer - headerBytes) ≠ heapBlockMagic ∨
      freeAt mem (pointer - headerBytes) ≠ 0 then (mem, false)
  else (releaseBlock mem (pointer - headerBytes), true)

def heapTotalBytes (heap : Region) : UInt64 :=
  if heap.size > headerBytes then heap.size - headerBytes else 0

/-- The loop of `heap_free_bytes` and of `heap_used_bytes`: which blocks count is the argument. -/
def sumFrom (mem : Mem) (counts : UInt64 → Bool) : Nat → UInt64 → UInt64 → Option UInt64
  | 0, block, total => if block = 0 then some total else none
  | turns + 1, block, total =>
    if block = 0 then some total
    else sumFrom mem counts turns (nextAt mem block)
      (if counts block then total + sizeAt mem block else total)

def heapFreeBytes (heap : Region) (mem : Mem) : Option UInt64 :=
  sumFrom mem (fun block => magicAt mem block = heapBlockMagic ∧ freeAt mem block ≠ 0) heap.turns
    heap.firstBlock 0

def heapUsedBytes (heap : Region) (mem : Mem) : Option UInt64 :=
  sumFrom mem (fun block => magicAt mem block = heapBlockMagic ∧ freeAt mem block = 0) heap.turns
    heap.firstBlock 0

/-- What `heap_validate` does not accept of a block. -/
def badBlock (heap : Region) (mem : Mem) (block previous cursor : UInt64) : Bool :=
  blockInHeap heap block = false ∨ block ≠ cursor ∨ magicAt mem block ≠ heapBlockMagic ∨
    previousAt mem block ≠ previous ∨ sizeAt mem block = 0 ∨
    sizeAt mem block &&& (heapAlignment - 1) ≠ 0 ∨
    sizeAt mem block > heap.base + heap.size - block - headerBytes ∨
    (previous ≠ 0 ∧ freeAt mem previous ≠ 0 ∧ freeAt mem block ≠ 0)

/-- The loop of `heap_validate`, with the number of blocks it still accepts. -/
def validateFrom (heap : Region) (mem : Mem) : Nat → UInt64 → UInt64 → UInt64 → Bool
  | 0, block, _, cursor => if block = 0 then cursor = heap.base + heap.size else false
  | left + 1, block, previous, cursor =>
    if block = 0 then cursor = heap.base + heap.size
    else if badBlock heap mem block previous cursor then false
    else
      let cursor := block + headerBytes + sizeAt mem block
      if nextAt mem block ≠ 0 ∧ nextAt mem block ≠ cursor then false
      else validateFrom heap mem left (nextAt mem block) block cursor

def heapValidate (heap : Region) (mem : Mem) : Bool :=
  if heap.firstBlock = 0 ∨ heap.firstBlock ≠ heap.base then false
  else validateFrom heap mem (heap.size / headerBytes).toNat heap.firstBlock 0 heap.base

end ArgusOs.Heap
