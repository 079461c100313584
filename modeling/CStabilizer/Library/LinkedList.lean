import Mathlib

/-! # Singly linked lists in a heap

A heap maps the allocated addresses to nodes, and the null pointer is `none`.
Every access through a pointer is partial: it fails at null and at a node that
is not allocated. The tail of a queue means something only while its list is
not empty. -/

namespace CStabilizer.Library.LinkedList

universe u v

structure Node (Addr : Type u) (α : Type v) where
  data : α
  next : Option Addr

abbrev Heap (Addr : Type u) (α : Type v) := Addr → Option (Node Addr α)

structure Queue (Addr : Type u) where
  head : Option Addr
  tail : Option Addr

def Queue.empty {Addr : Type u} : Queue Addr := ⟨none, none⟩

variable {Addr : Type u} {α : Type v}

def load (heap : Heap Addr α) (p : Option Addr) : Option (Node Addr α) := p.bind heap

/-- The list of a pointer, each node with its address. -/
def Chain (heap : Heap Addr α) : Option Addr → List (Addr × α) → Prop
  | p, [] => p = none
  | p, (a, x) :: rest => p = some a ∧ ∃ next, heap a = some ⟨x, next⟩ ∧ Chain heap next rest

structure Represents (heap : Heap Addr α) (q : Queue Addr) (l : List (Addr × α)) : Prop where
  chain : Chain heap q.head l
  last : ∀ e, l.getLast? = some e → q.tail = some e.1

theorem represents_empty (heap : Heap Addr α) : Represents heap Queue.empty [] :=
  ⟨rfl, fun _ h => by cases h⟩

theorem Chain.frame {heap heap' : Heap Addr α} {p : Option Addr} {l : List (Addr × α)}
    (h : Chain heap p l) (hSame : ∀ e ∈ l, heap' e.1 = heap e.1) : Chain heap' p l := by
  induction l generalizing p with
  | nil => exact h
  | cons e l ih =>
    obtain ⟨a, x⟩ := e
    obtain ⟨hp, next, hNode, hNext⟩ := h
    exact ⟨hp, next, (hSame (a, x) List.mem_cons_self).trans hNode,
      ih hNext fun e he => hSame e (List.mem_cons_of_mem _ he)⟩

theorem Represents.frame {heap heap' : Heap Addr α} {q : Queue Addr} {l : List (Addr × α)}
    (h : Represents heap q l) (hSame : ∀ e ∈ l, heap' e.1 = heap e.1) : Represents heap' q l :=
  ⟨h.chain.frame hSame, h.last⟩

theorem Represents.head_eq_none_iff {heap : Heap Addr α} {q : Queue Addr} {l : List (Addr × α)}
    (h : Represents heap q l) : q.head = none ↔ l = [] := by
  cases l with
  | nil => exact iff_of_true h.chain rfl
  | cons e l =>
    obtain ⟨a, x⟩ := e
    simp [h.chain.1]

theorem Chain.allocated {heap : Heap Addr α} {p : Option Addr} {l : List (Addr × α)}
    (h : Chain heap p l) {e : Addr × α} (he : e ∈ l) : (heap e.1).isSome := by
  induction l generalizing p with
  | nil => cases he
  | cons e' l ih =>
    obtain ⟨a, x⟩ := e'
    obtain ⟨_, next, hNode, hNext⟩ := h
    obtain rfl | he := List.mem_cons.mp he
    · rw [hNode]
      rfl
    · exact ih hNext he

theorem Chain.node_of_getLast? {heap : Heap Addr α} {p : Option Addr} {l : List (Addr × α)}
    (h : Chain heap p l) {e : Addr × α} (hLast : l.getLast? = some e) :
    heap e.1 = some ⟨e.2, none⟩ := by
  induction l generalizing p with
  | nil => cases hLast
  | cons e' l ih =>
    obtain ⟨a, x⟩ := e'
    obtain ⟨_, next, hNode, hNext⟩ := h
    cases l with
    | nil =>
      obtain rfl : (a, x) = e := by simpa using hLast
      rw [hNode, show next = none from hNext]
    | cons e'' l => exact ih hNext (by rwa [List.getLast?_cons_cons] at hLast)

def SameData (heap heap' : Heap Addr α) : Prop :=
  ∀ b, (heap' b).map Node.data = (heap b).map Node.data

theorem SameData.isSome {heap heap' : Heap Addr α} (h : SameData heap heap') (b : Addr) :
    (heap' b).isSome = (heap b).isSome := by
  rw [← Option.isSome_map (f := Node.data), h b, Option.isSome_map]

section Write

variable [DecidableEq Addr]

def setNext (heap : Heap Addr α) (p next : Option Addr) : Option (Heap Addr α) :=
  match p with
  | none => none
  | some a => (heap a).map fun node => Function.update heap a (some { node with next })

def free (heap : Heap Addr α) (a : Addr) : Option (Heap Addr α) :=
  (heap a).map fun _ => Function.update heap a none

/-- The nodes from `first` to `last` go behind a queue. -/
def link (heap : Heap Addr α) (q : Queue Addr) (first last : Option Addr) :
    Option (Heap Addr α × Queue Addr) :=
  match q.head with
  | some _ => (setNext heap q.tail first).map fun heap => (heap, ⟨q.head, last⟩)
  | none => some (heap, ⟨first, last⟩)

theorem SameData.update {heap : Heap Addr α} {a : Addr} {x : α} {next next' : Option Addr}
    (h : heap a = some ⟨x, next⟩) :
    SameData heap (Function.update heap a (some ⟨x, next'⟩)) := by
  intro b
  by_cases hb : b = a
  · rw [hb, Function.update_self, h]
    rfl
  · rw [Function.update_of_ne hb]

theorem Chain.splice {heap : Heap Addr α} {p q : Option Addr} {l r : List (Addr × α)}
    (hl : Chain heap p l) (hr : Chain heap q r) {e : Addr × α} (hLast : l.getLast? = some e)
    (hNodup : ((l ++ r).map Prod.fst).Nodup) :
    Chain (Function.update heap e.1 (some ⟨e.2, q⟩)) p (l ++ r) := by
  induction l generalizing p with
  | nil => cases hLast
  | cons e' l ih =>
    obtain ⟨a, x⟩ := e'
    obtain ⟨rfl, next, hNode, hNext⟩ := hl
    rw [List.cons_append, List.map_cons, List.nodup_cons] at hNodup
    cases l with
    | nil =>
      obtain rfl : (a, x) = e := by simpa using hLast
      refine ⟨rfl, q, Function.update_self .., hr.frame fun e he => ?_⟩
      have hMem : e.1 ∈ ([] ++ r).map Prod.fst := List.mem_map_of_mem he
      have hNe : e.1 ≠ a := fun hEq => hNodup.1 (hEq ▸ hMem)
      exact Function.update_of_ne hNe ..
    | cons e'' l =>
      rw [List.getLast?_cons_cons] at hLast
      have hMem : e.1 ∈ ((e'' :: l) ++ r).map Prod.fst :=
        List.mem_map_of_mem (List.mem_append_left _ (List.mem_of_getLast? hLast))
      have hNe : a ≠ e.1 := fun hEq => hNodup.1 (hEq ▸ hMem)
      exact ⟨rfl, next, (Function.update_of_ne hNe ..).trans hNode, ih hNext hLast hNodup.2⟩

/-- Linking a non-empty list behind a queue never fails, whatever an empty queue's tail is, and
writes no node outside the queue. -/
theorem link_represents {heap : Heap Addr α} {q : Queue Addr} {l r : List (Addr × α)}
    {first last : Option Addr} (hq : Represents heap q l) (hr : Represents heap ⟨first, last⟩ r)
    (hNonempty : r ≠ []) (hNodup : ((l ++ r).map Prod.fst).Nodup) :
    ∃ heap' q', link heap q first last = some (heap', q') ∧ Represents heap' q' (l ++ r) ∧
      (∀ b, b ∉ l.map Prod.fst → heap' b = heap b) ∧
      SameData heap heap' := by
  have hTail : ∀ e, (l ++ r).getLast? = some e → last = some e.1 := by
    intro e he
    rw [List.getLast?_append_of_ne_nil _ hNonempty] at he
    exact hr.last e he
  cases hHead : q.head with
  | none =>
    have hNil : l = [] := hq.head_eq_none_iff.mp hHead
    subst hNil
    exact ⟨heap, ⟨first, last⟩, by rw [link, hHead], ⟨hr.chain, hTail⟩, fun _ _ => rfl, fun _ => rfl⟩
  | some a =>
    have hNe : l ≠ [] := fun hNil => by simp [hq.head_eq_none_iff.mpr hNil] at hHead
    obtain ⟨e, he⟩ : ∃ e, l.getLast? = some e := ⟨_, List.getLast?_eq_some_getLast hNe⟩
    have hNode := hq.chain.node_of_getLast? he
    refine ⟨Function.update heap e.1 (some ⟨e.2, first⟩), ⟨q.head, last⟩, ?_, ⟨?_, hTail⟩, ?_,
      .update hNode⟩
    · simp [link, hHead, hq.last e he, setNext, hNode]
    · exact hq.chain.splice hr.chain he hNodup
    · intro b hb
      have hMem : e.1 ∈ l.map Prod.fst := List.mem_map_of_mem (List.mem_of_getLast? he)
      exact Function.update_of_ne (fun hEq => hb (by rw [hEq]; exact hMem)) ..

def splice (heap : Heap Addr α) (dst src : Queue Addr) :
    Option (Heap Addr α × Queue Addr × Queue Addr) :=
  match src.head with
  | some _ => do
    let (heap, dst) ← link heap dst src.head src.tail
    return (heap, dst, Queue.empty)
  | none => some (heap, dst, src)

theorem splice_represents {heap : Heap Addr α} {dst src : Queue Addr} {l r : List (Addr × α)}
    (hDst : Represents heap dst l) (hSrc : Represents heap src r)
    (hNodup : ((l ++ r).map Prod.fst).Nodup) :
    ∃ heap' dst' src', splice heap dst src = some (heap', dst', src') ∧
      Represents heap' dst' (l ++ r) ∧ Represents heap' src' [] ∧
      (∀ b, b ∉ l.map Prod.fst → heap' b = heap b) ∧
      SameData heap heap' := by
  cases hHead : src.head with
  | none =>
    obtain rfl := hSrc.head_eq_none_iff.mp hHead
    exact ⟨heap, dst, src, by rw [splice, hHead], by rwa [List.append_nil], hSrc,
      fun _ _ => rfl, fun _ => rfl⟩
  | some a =>
    have hNonempty : r ≠ [] := fun hNil => by simp [hSrc.head_eq_none_iff.mpr hNil] at hHead
    obtain ⟨heap', dst', hLink, hRep, hFrame, hData⟩ :=
      link_represents hDst hSrc hNonempty hNodup
    rw [hHead] at hLink
    refine ⟨heap', dst', Queue.empty, ?_, hRep, represents_empty _, hFrame, hData⟩
    simp [splice, hHead, hLink]

/-- The first node leaves a queue, and the tail stays what it is. -/
def unlink (heap : Heap Addr α) (q : Queue Addr) :
    Option (Option Addr × Heap Addr α × Queue Addr) :=
  match q.head with
  | some a => do
    let node ← load heap q.head
    let heap ← setNext heap (some a) none
    return (some a, heap, ⟨node.next, q.tail⟩)
  | none => some (none, heap, q)

theorem unlink_nil {heap : Heap Addr α} {q : Queue Addr} (hq : Represents heap q []) :
    unlink heap q = some (none, heap, q) := by
  rw [unlink, hq.head_eq_none_iff.mpr rfl]

theorem unlink_cons {heap : Heap Addr α} {q : Queue Addr} {a : Addr} {x : α}
    {l : List (Addr × α)} (hq : Represents heap q ((a, x) :: l))
    (hNodup : (((a, x) :: l).map Prod.fst).Nodup) :
    ∃ heap' q', unlink heap q = some (some a, heap', q') ∧ Represents heap' q' l ∧
      q'.tail = q.tail ∧ (∀ b, b ≠ a → heap' b = heap b) ∧ SameData heap heap' ∧
      (heap a).map Node.data = some x := by
  obtain ⟨hHead, next, hNode, hNext⟩ := hq.chain
  rw [List.map_cons, List.nodup_cons] at hNodup
  refine ⟨Function.update heap a (some ⟨x, none⟩), ⟨next, q.tail⟩, ?_,
    ⟨hNext.frame fun e he => ?_, fun e he => ?_⟩, rfl, fun b hb => Function.update_of_ne hb ..,
    .update hNode, ?_⟩
  · simp [unlink, hHead, load, setNext, hNode]
  · have hMem : e.1 ∈ l.map Prod.fst := List.mem_map_of_mem he
    have hNe : e.1 ≠ a := fun hEq => hNodup.1 (hEq ▸ hMem)
    exact Function.update_of_ne hNe ..
  · apply hq.last e
    cases l with
    | nil => cases he
    | cons e' l => rwa [List.getLast?_cons_cons]
  · rw [hNode]
    rfl

end Write

end CStabilizer.Library.LinkedList
