import VectorTick.Common.Status

/-! The heap buffers of the writer: blocks at 64-byte alignment, rounded up to a multiple of it. -/

set_option autoImplicit false

namespace VectorTick

open Foundation

/-- `std::aligned_alloc`: no block, or one of the size asked for with arbitrary contents. -/
structure Allocator where
  alignedAlloc : Nat → Option Bytes
  length_alignedAlloc : ∀ {size : Nat} {block : Bytes}, alignedAlloc size = some block →
    block.length = size

/-- `capacity_` is the length of the block; `size` is what was asked for. -/
structure AlignedBuffer where
  data : Bytes
  size : Nat
  inside : size ≤ data.length

namespace AlignedBuffer

def alignment : Nat := 64

def allocSize (size : Nat) : Nat := (size + alignment - 1) / alignment * alignment

theorem le_allocSize (size : Nat) : size ≤ allocSize size := by
  rw [allocSize, alignment]
  omega

theorem allocSize_lt (size : Nat) : allocSize size < size + alignment := by
  rw [allocSize, alignment]
  omega

def empty : AlignedBuffer := ⟨[], 0, Nat.le_refl 0⟩

def allocate (memory : Allocator) (size : Nat) : Except Stop AlignedBuffer :=
  if size = 0 then .ok empty
  else match found : memory.alignedAlloc (allocSize size) with
    | none => failWith .allocationFailed "aligned_alloc failed"
    | some block => .ok ⟨block, size, memory.length_alignedAlloc found ▸ le_allocSize size⟩

theorem allocate_none {memory : Allocator} {size : Nat} (some : 0 < size)
    (full : memory.alignedAlloc (allocSize size) = none) :
    allocate memory size = failWith .allocationFailed "aligned_alloc failed" := by
  rw [allocate, if_neg (by omega)]
  split
  · rfl
  · rename_i found
    rw [full] at found
    cases found

theorem allocate_some {memory : Allocator} {size : Nat} {block : Bytes} (some : 0 < size)
    (found : memory.alignedAlloc (allocSize size) = .some block) :
    ∃ buffer, allocate memory size = .ok buffer ∧ buffer.data = block := by
  rw [allocate, if_neg (by omega)]
  split
  · rename_i full
    rw [found] at full
    cases full
  · rename_i other same
    rw [found, Option.some.injEq] at same
    exact ⟨_, rfl, same.symm⟩

end AlignedBuffer

end VectorTick
