import CStabilizer.Library.StableSort

/-! # Search trees with equal keys

A binary tree of any shape whose in-order list is sorted by its keys. Positions in the
tree are positions in that list. -/

namespace CStabilizer.Library.SearchTree

open StableSort

universe u v

variable {α : Type u} {κ : Type v} [LinearOrder κ] (key : α → κ)

def inorder : BinaryTree α → List α
  | .nil => []
  | .node x left right => inorder left ++ x :: inorder right

@[simp] theorem length_inorder (tree : BinaryTree α) : (inorder tree).length = tree.numNodes := by
  induction tree with
  | nil => rfl
  | node x left right ihLeft ihRight =>
    rw [inorder, List.length_append, List.length_cons, ihLeft, ihRight, BinaryTree.numNodes,
      Nat.add_assoc]

/-- The way down to the first element of a greater key. It leads through a subtree that
begins at the position `first`; `candidate` is the node at which it last turned left. -/
def descend (t : κ) : BinaryTree α → (first candidate : Nat) → Nat
  | .nil, _, candidate => candidate
  | .node x left right, first, candidate =>
    if t < key x then descend t left first (first + left.numNodes)
    else descend t right (first + left.numNodes + 1) candidate

def upperBound (t : κ) (tree : BinaryTree α) : Nat := descend key t tree 0 tree.numNodes

/-- The candidate always stands right behind the subtree that is still to be searched. -/
theorem descend_eq (t : κ) {tree : BinaryTree α} (first : Nat) (h : Sorted key (inorder tree)) :
    descend key t tree first (first + tree.numNodes) =
      first + StableSort.upperBound key t (inorder tree) := by
  induction tree generalizing first with
  | nil => rfl
  | node x left right ihLeft ihRight =>
    obtain ⟨hLeft, hNode, hCross⟩ := List.pairwise_append.mp h
    obtain ⟨-, hRight⟩ := List.pairwise_cons.mp hNode
    rw [descend, inorder]
    split
    · rename_i hLt
      rw [ihLeft first hLeft, upperBound_append_of_lt key _ _ hLt]
    · rename_i hLe
      have hx : key x ≤ t := not_lt.mp hLe
      have hBefore : ∀ a ∈ inorder left, key a ≤ t := by
        intro a ha
        exact (hCross a ha x List.mem_cons_self).trans hx
      have hBehind : first + (BinaryTree.node x left right).numNodes =
          first + left.numNodes + 1 + right.numNodes := by
        rw [BinaryTree.numNodes]
        omega
      rw [hBehind, ihRight _ hRight, upperBound_append_of_le key _ hBefore,
        upperBound_cons_of_le key _ hx, length_inorder]
      omega

/-- The descent finds the position that a scan of the sorted list finds. -/
theorem upperBound_eq (t : κ) {tree : BinaryTree α} (h : Sorted key (inorder tree)) :
    upperBound key t tree = StableSort.upperBound key t (inorder tree) := by
  have hDescend := descend_eq key t 0 h
  rwa [Nat.zero_add, Nat.zero_add] at hDescend

end CStabilizer.Library.SearchTree
