import Mathlib

/-! # The three stages of the event queue

The queue without its pointers: packets are added to the producer list, move to
the intermediate list as a whole, from there to the consumer list as a whole,
and leave the consumer list from the front. -/

namespace CStabilizer.ThreadUtil

universe u

structure Stages (β : Type u) where
  consumer : List β
  intermediate : List β
  producer : List β

namespace Stages

variable {β : Type u}

def empty : Stages β := ⟨[], [], []⟩

def contents (s : Stages β) : List β := s.consumer ++ s.intermediate ++ s.producer

def add (s : Stages β) (e : β) : Stages β := { s with producer := s.producer ++ [e] }

def pushToIntermediate (s : Stages β) : Stages β :=
  ⟨s.consumer, s.intermediate ++ s.producer, []⟩

def pollFromIntermediate (s : Stages β) : Stages β :=
  ⟨s.consumer ++ s.intermediate, [], s.producer⟩

def pollFromConsumer (s : Stages β) : Option β × Stages β :=
  match s.consumer with
  | [] => (none, s)
  | e :: consumer => (some e, { s with consumer })

@[simp] theorem contents_add (s : Stages β) (e : β) : (s.add e).contents = s.contents ++ [e] := by
  simp [add, contents]

@[simp] theorem contents_pushToIntermediate (s : Stages β) :
    s.pushToIntermediate.contents = s.contents := by
  simp [pushToIntermediate, contents]

@[simp] theorem contents_pollFromIntermediate (s : Stages β) :
    s.pollFromIntermediate.contents = s.contents := by
  simp [pollFromIntermediate, contents]

theorem pollFromConsumer_nil {s : Stages β} (h : s.consumer = []) :
    s.pollFromConsumer = (none, s) := by
  rw [pollFromConsumer, h]

theorem pollFromConsumer_cons {s : Stages β} {e : β} {l : List β}
    (h : s.consumer = e :: l) : s.pollFromConsumer = (some e, { s with consumer := l }) := by
  rw [pollFromConsumer, h]

theorem pollFromConsumer_contents (s : Stages β) :
    s.pollFromConsumer.1.toList ++ s.pollFromConsumer.2.contents = s.contents := by
  cases h : s.consumer with
  | nil => rw [pollFromConsumer_nil h, Option.toList_none, List.nil_append]
  | cons e l => simp [pollFromConsumer_cons h, contents, h]

theorem pollFromConsumer_producer (s : Stages β) :
    s.pollFromConsumer.2.producer = s.producer := by
  cases h : s.consumer with
  | nil => rw [pollFromConsumer_nil h]
  | cons e l => rw [pollFromConsumer_cons h]

end Stages

end CStabilizer.ThreadUtil
