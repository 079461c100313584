import CStabilizer.ProcessingThread.Run

/-! # The iterator behind the loop

`DeletePossibleLabels` decrements its iterator before the range in front of it is
erased. The decrement is defined only where the loop has passed some entry. -/

namespace CStabilizer.ProcessingThread

open Library.Containers Library.StableSort Library.Splits

/-- The position of the iterator when `it--` is applied to it; `begin()` is position 0, and so is
the `end()` of an empty storage. -/
def decremented (t : ProcessingThread) (stableTimestamp : UInt64) : Nat :=
  (deleteLoop stableTimestamp t.storage.entries 0 t.deletedList t.processed).1

/-- At every message of a run from `t`, the iterator that is decremented is not `begin()`. -/
def DecrementsDefined (t : ProcessingThread) (events : Events) : Prop :=
  Stepwise (fun before event =>
    let s := (t.processAll before).1
    (s.updated event.1).decremented (s.stableOf event.1) ≠ 0) events

/-- Some entry, stored before or brought by the message, is not newer than any recorded
heartbeat. -/
def Releases (t : ProcessingThread) (msg : ReceivedMessage) : Prop :=
  ∃ e ∈ t.storage.entries ++ msg.labels.map Label.entry,
    ∀ h ∈ (t.heartbeat.assign msg.partionId msg.heartbeat).values, e.1 ≤ h

def EachReleases (t : ProcessingThread) (events : Events) : Prop :=
  Stepwise (fun before event => Releases (t.processAll before).1 event.1) events

theorem decremented_eq_zero_iff (t : ProcessingThread) (stable : UInt64) :
    t.decremented stable = 0 ↔ ∀ e ∈ t.storage.entries, stable < e.1 := by
  rw [decremented, deleteLoop_eq, Nat.zero_add]
  have hOrdered := t.storage.ordered
  generalize t.storage.entries = entries at hOrdered
  cases entries with
  | nil => exact iff_of_true rfl nofun
  | cons first rest =>
    obtain hLt | hLe := lt_or_ge stable first.1
    · apply iff_of_true (upperBound_cons_of_lt Prod.fst rest hLt)
      -- the entries are in key order
      intro e he
      obtain rfl | he := List.mem_cons.mp he
      · exact hLt
      · exact hLt.trans_le ((List.pairwise_cons.mp hOrdered).1 e he)
    · rw [upperBound_cons_of_le Prod.fst rest hLe]
      exact iff_of_false (Nat.succ_ne_zero _) fun h =>
        absurd (h first List.mem_cons_self) (not_lt.mpr hLe)

theorem mem_updated {t : ProcessingThread} {msg : ReceivedMessage} {e : Entry} :
    e ∈ (t.updated msg).storage.entries ↔
      e ∈ t.storage.entries ++ msg.labels.map Label.entry := by
  rw [entries_updated]
  exact (insertAll_perm ..).mem_iff

theorem decremented_ne_zero_iff (t : ProcessingThread) (msg : ReceivedMessage) :
    (t.updated msg).decremented (t.stableOf msg) ≠ 0 ↔ Releases t msg := by
  have hLeast := (getStableTimestamp_updated (t.insertBatchLabels msg.labels) msg.partionId
    msg.heartbeat).2
  rw [Ne, decremented_eq_zero_iff]
  simp only [not_forall, not_lt, exists_prop]
  constructor
  · rintro ⟨e, he, hLe⟩
    exact ⟨e, mem_updated.mp he, fun h hh => hLe.trans (hLeast.2 hh)⟩
  · rintro ⟨e, he, hWithin⟩
    exact ⟨e, mem_updated.mpr he, hWithin _ hLeast.1⟩

theorem decrementsDefined_iff (t : ProcessingThread) (events : Events) :
    DecrementsDefined t events ↔ EachReleases t events := by
  induction events using List.reverseRecOn with
  | nil => exact iff_of_true stepwise_nil stepwise_nil
  | append_singleton events event ih =>
    rw [DecrementsDefined, EachReleases, stepwise_concat, stepwise_concat]
    exact and_congr ih (decremented_ne_zero_iff _ event.1)

/-- A heartbeat without labels in front of an empty storage, and a label that is newer than the
stable timestamp. -/
theorem not_decrementsDefined :
    ¬DecrementsDefined (start 1 1 1) [(⟨1, 5, []⟩, ⟨fun n => n, fun n => n, 0⟩)] ∧
    ¬DecrementsDefined (start 2 1 1) [(⟨1, 5, [⟨3, 7⟩]⟩, ⟨fun n => n, fun n => n, 0⟩)] :=
  ⟨fun h => h [] _ [] rfl (by decide), fun h => h [] _ [] rfl (by decide)⟩

end CStabilizer.ProcessingThread
