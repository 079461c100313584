import Mathlib

/-! # Blocks of memory

An allocated block is a list of cells. A copy reads or writes a range of them and
fails when the range leaves the block. -/

namespace CStabilizer.Library.Memory

universe u

variable {β : Type u}

def read (block : List β) (off n : Nat) : Option (List β) :=
  if off + n ≤ block.length then some ((block.drop off).take n) else none

def write (block : List β) (off : Nat) (cells : List β) : Option (List β) :=
  if off + cells.length ≤ block.length then
    some (block.take off ++ (cells ++ block.drop (off + cells.length)))
  else none

/-- What `new` returns: its cells may hold anything. -/
structure Allocator (β : Type u) where
  block : Nat → List β
  length : ∀ n, (block n).length = n

def Allocator.filled (x : β) : Allocator β := ⟨fun n => List.replicate n x, fun _ => List.length_replicate⟩

theorem read_eq (block : List β) (off n : Nat) (h : off + n ≤ block.length) :
    read block off n = some ((block.drop off).take n) :=
  if_pos h

theorem write_eq (block : List β) (off : Nat) (cells : List β)
    (h : off + cells.length ≤ block.length) :
    ∃ block', write block off cells = some block' ∧ block'.length = block.length ∧
      block'.take (off + cells.length) = block.take off ++ cells := by
  refine ⟨_, if_pos h, ?_, ?_⟩
  · simp only [List.length_append, List.length_take, List.length_drop]
    omega
  · have hOff : (block.take off).length = off := List.length_take_of_le (by omega)
    rw [← List.append_assoc, List.take_left' (by rw [List.length_append, hOff])]

end CStabilizer.Library.Memory
