import CStabilizer.Library.SearchTree
import CStabilizer.ProcessingThread.Step

/-! # Deletion up to the upper bound

The version of `DeletePossibleLabels` that stands commented out below the loop: it asks
the multimap, a search tree, for the first label beyond the stable timestamp and deletes
all labels before it. -/

namespace CStabilizer.ProcessingThread

open Library Library.Containers Library.StableSort

/-- The loop from `begin()` to `itup`, over the entries not yet visited. It fails when it
reaches the end of the storage without having met `itup`. -/
def upperBoundLoop (itup : Nat) :
    List Entry → (it : Nat) → (deletedList : List Int32) → (processed : Int) →
      Option (List Int32 × Int)
  | [], it, deletedList, processed => if it = itup then some (deletedList, processed) else none
  | (_, second) :: rest, it, deletedList, processed =>
    if it = itup then some (deletedList, processed)
    else upperBoundLoop itup rest (it + 1) (deletedList ++ [second]) (processed + 1)

def deleteToUpperBound (t : ProcessingThread) (itup : Nat) : Option ProcessingThread := do
  let (deletedList, processed) ← upperBoundLoop itup t.storage.entries 0 t.deletedList t.processed
  return { t with storage := t.storage.eraseFront itup, deletedList, processed }

theorem upperBoundLoop_eq {n : Nat} {l : List Entry} (hn : n ≤ l.length) (it : Nat)
    (deleted : List Int32) (processed : Int) :
    upperBoundLoop (it + n) l it deleted processed =
      some (deleted ++ (l.take n).map Prod.snd, processed + n) := by
  induction l generalizing n it deleted processed with
  | nil =>
    obtain rfl := Nat.le_zero.mp hn
    simp [upperBoundLoop]
  | cons e rest ih =>
    obtain ⟨first, second⟩ := e
    cases n with
    | zero => simp [upperBoundLoop]
    | succ n =>
      have hNext : it + (n + 1) = it + 1 + n := by omega
      rw [upperBoundLoop, if_neg (by omega), hNext, ih (Nat.le_of_succ_le_succ hn)]
      simp only [List.take_succ_cons, List.map_cons, List.append_assoc, List.singleton_append,
        Option.some.injEq, Prod.mk.injEq, true_and]
      omega

/-- Both versions leave the same thread, whatever tree holds the storage. -/
theorem deletePossibleLabels_eq_upperBound (t : ProcessingThread) (stableTimestamp : UInt64)
    {tree : BinaryTree Entry} (hTree : SearchTree.inorder tree = t.storage.entries) :
    t.deleteToUpperBound (SearchTree.upperBound Prod.fst stableTimestamp tree) =
      some (t.deletePossibleLabels stableTimestamp).1 := by
  have hSorted : Sorted Prod.fst (SearchTree.inorder tree) := hTree ▸ t.storage.ordered
  have hBound : SearchTree.upperBound Prod.fst stableTimestamp tree =
      upperBound Prod.fst stableTimestamp t.storage.entries := by
    rw [SearchTree.upperBound_eq Prod.fst stableTimestamp hSorted, hTree]
  have hLoop := upperBoundLoop_eq
    (upperBound_le_length Prod.fst stableTimestamp t.storage.entries) 0 t.deletedList t.processed
  rw [Nat.zero_add] at hLoop
  rw [deleteToUpperBound, hBound, hLoop]
  simp only [deletePossibleLabels, deleteLoop_eq, Nat.zero_add]
  rfl

/-- Two labels of the stable timestamp, one of them in the root of the tree. -/
theorem deletePossibleLabels_eq_upperBound_ties :
    let t := create.insertBatchLabels [⟨2, 20⟩, ⟨5, 50⟩, ⟨1, 10⟩, ⟨2, 21⟩]
    let tree : BinaryTree Entry :=
      .node (2, 20) (.node (1, 10) .nil .nil) (.node (5, 50) (.node (2, 21) .nil .nil) .nil)
    t.deleteToUpperBound (SearchTree.upperBound Prod.fst 2 tree) =
        some (t.deletePossibleLabels 2).1 ∧
      (t.deletePossibleLabels 2).1.deletedList = [10, 20, 21] :=
  ⟨deletePossibleLabels_eq_upperBound _ 2 rfl, by decide⟩

end CStabilizer.ProcessingThread
