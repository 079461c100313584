import CStabilizer.Library.Accesses

/-! # Operations that look atomic

Threads perform operations on a shared memory. An operation may allocate or free
cells when it starts, then makes its accesses one by one between those of the other
threads, and holds its lock all the while if it has one. When every location has an
owner, a thread or a lock, and an operation stays within what its thread and its
lock own, each run is one of operations that happen at once when they start. -/

namespace CStabilizer.Library.Atomicity

open CStabilizer.Library.Accesses

universe u v

inductive Entry {Loc : Type u} (Val : Loc → Type v) where
  | plain
  | alloc (block : Memory Val)
  | free (cells : Set Loc)

section Entry

variable {Loc : Type u} {Val : Loc → Type v} {m m' m₁ : Memory Val}

namespace Entry

def cells : Entry Val → Set Loc
  | plain => ∅
  | alloc block => {l | (block l).isSome}
  | free cells => cells

/-- The allocator hands out free cells only, and takes back allocated ones only. -/
def Enters (entry : Entry Val) (m m' : Memory Val) : Prop :=
  (∀ l ∉ entry.cells, m' l = m l) ∧
  match entry with
  | plain => True
  | alloc block => ∀ l ∈ (alloc block).cells, m l = none ∧ m' l = block l
  | free cells => ∀ l ∈ cells, (m l).isSome ∧ m' l = none

/-- An entry has the same effect on any memory with the same cells allocated. -/
theorem Enters.transfer {entry : Entry Val} (h : entry.Enters m m')
    (hSome : ∀ l, (m₁ l).isSome = (m l).isSome) :
    ∃ m₁', entry.Enters m₁ m₁' ∧ ∀ l ∈ entry.cells, m₁' l = m' l := by
  classical
  obtain ⟨hFrame, hCells⟩ := h
  refine ⟨fun l => if l ∈ entry.cells then m' l else m₁ l, ⟨fun l hl => if_neg hl, ?_⟩,
    fun l hl => if_pos hl⟩
  cases entry with
  | plain => trivial
  | alloc block =>
    intro l hl
    obtain ⟨hNone, hNew⟩ := hCells l hl
    refine ⟨?_, (if_pos hl).trans hNew⟩
    rw [← Option.isNone_iff_eq_none, ← Option.not_isSome, hSome, hNone]
    rfl
  | free cells =>
    intro l hl
    obtain ⟨hOld, hNone⟩ := hCells l hl
    exact ⟨(hSome l).trans hOld, (if_pos hl).trans hNone⟩

end Entry

end Entry

structure Operations (Thread Op Lock : Type*) {Loc : Type*} (Val : Loc → Type*) (ρ : Type*) where
  entry : Op → Entry Val
  lock : Op → Option Lock
  code : Op → Code Val ρ
  /-- What a thread that has finished these operations with these results may do next. -/
  Allowed : Thread → List (Op × ρ) → Op → Prop

structure State (Thread Op Lock : Type*) {Loc : Type*} (Val : Loc → Type*) (ρ : Type*) where
  memory : Memory Val
  holder : Lock → Option Thread
  control : Thread → Option (Op × Code Val ρ)
  log : Thread → List (Op × ρ)

/-- No next access fails, and none races with that of another thread. -/
structure State.Safe {Thread Op Lock Loc : Type*} [DecidableEq Loc] {Val : Loc → Type*} {ρ : Type*}
    (s : State Thread Op Lock Val ρ) : Prop where
  progress : ∀ t op c, s.control t = some (op, c) →
    (∃ r, c = .done r) ∨ (c.next s.memory).isSome
  raceFree : ∀ t t' op op' c c' a a', t ≠ t' → s.control t = some (op, c) →
    s.control t' = some (op', c') → c.access = some a → c'.access = some a' → ¬a.Conflicts a'

structure Atomic (Thread Op : Type*) {Loc : Type*} (Val : Loc → Type*) (ρ : Type*) where
  memory : Memory Val
  history : List (Thread × Op × ρ)

variable {Thread Op Lock Loc : Type*} {Val : Loc → Type*} {ρ : Type*}
variable [DecidableEq Thread]

def State.init (m : Memory Val) : State Thread Op Lock Val ρ :=
  ⟨m, fun _ => none, fun _ => none, fun _ => []⟩

def logOf (history : List (Thread × Op × ρ)) (t : Thread) : List (Op × ρ) :=
  (history.filter (·.1 = t)).map (·.2)

theorem logOf_concat_self (history : List (Thread × Op × ρ)) (t : Thread) (op : Op) (r : ρ) :
    logOf (history ++ [(t, op, r)]) t = logOf history t ++ [(op, r)] := by
  simp [logOf]

theorem logOf_concat_of_ne (history : List (Thread × Op × ρ)) {t t' : Thread} (op : Op) (r : ρ)
    (h : t' ≠ t) : logOf (history ++ [(t, op, r)]) t' = logOf history t' := by
  simp [logOf, h.symm]

variable [DecidableEq Loc]

inductive Step [DecidableEq Lock] (ops : Operations Thread Op Lock Val ρ) :
    State Thread Op Lock Val ρ → State Thread Op Lock Val ρ → Prop
  | start {s : State Thread Op Lock Val ρ} (t : Thread) (op : Op) {m : Memory Val}
      (hControl : s.control t = none) (hAllowed : ops.Allowed t (s.log t) op)
      (hLock : ∀ k, ops.lock op = some k → s.holder k = none)
      (hEnters : (ops.entry op).Enters s.memory m) :
      Step ops s { s with
        memory := m
        holder := fun k => if ops.lock op = some k then some t else s.holder k
        control := Function.update s.control t (some (op, ops.code op)) }
  | access {s : State Thread Op Lock Val ρ} (t : Thread) {op : Op} {c c' : Code Val ρ}
      {m : Memory Val} (hControl : s.control t = some (op, c))
      (hNext : c.next s.memory = some (c', m)) :
      Step ops s { s with
        memory := m, control := Function.update s.control t (some (op, c')) }
  | finish {s : State Thread Op Lock Val ρ} (t : Thread) {op : Op} {r : ρ}
      (hControl : s.control t = some (op, .done r)) :
      Step ops s { s with
        holder := fun k => if ops.lock op = some k then none else s.holder k
        control := Function.update s.control t none
        log := Function.update s.log t (s.log t ++ [(op, r)]) }

/-- A step of one thread: the others are where they were. -/
def StepOf [DecidableEq Lock] (ops : Operations Thread Op Lock Val ρ) (t : Thread)
    (s s' : State Thread Op Lock Val ρ) : Prop :=
  Step ops s s' ∧ ∀ t', t' ≠ t → s'.control t' = s.control t' ∧ s'.log t' = s.log t'

/-- All of an operation at once. -/
inductive Atomic.Step (ops : Operations Thread Op Lock Val ρ) :
    Atomic Thread Op Val ρ → Atomic Thread Op Val ρ → Prop
  | perform {w : Atomic Thread Op Val ρ} {t : Thread} {op : Op} {m m' : Memory Val} {r : ρ}
      (hAllowed : ops.Allowed t (logOf w.history t) op)
      (hEnters : (ops.entry op).Enters w.memory m)
      (hRun : (ops.code op).run m = some (r, m')) :
      Atomic.Step ops w ⟨m', w.history ++ [(t, op, r)]⟩

/-- The locations of an operation's thread and of its lock. -/
def Owned (ops : Operations Thread Op Lock Val ρ) (region : Thread ⊕ Lock → Set Loc)
    (t : Thread) (op : Op) : Set Loc :=
  {l | l ∈ region (.inl t) ∨ ∃ k, ops.lock op = some k ∧ l ∈ region (.inr k)}

/-- Who owns what between two operations. An operation touches what its thread and its lock own
once it is over, frees what its thread owns, and leaves the others what they have. -/
structure Discipline (ops : Operations Thread Op Lock Val ρ) (m₀ : Memory Val) where
  Inv : Atomic Thread Op Val ρ → Prop
  region : Atomic Thread Op Val ρ → Thread ⊕ Lock → Set Loc
  init : Inv ⟨m₀, []⟩
  unique : ∀ {w o o' l}, Inv w → l ∈ region w o → l ∈ region w o' → o = o'
  perform : ∀ {w t op m}, Inv w → ops.Allowed t (logOf w.history t) op →
    (ops.entry op).Enters w.memory m →
    ∃ r m', (ops.code op).run m = some (r, m') ∧ Inv ⟨m', w.history ++ [(t, op, r)]⟩ ∧
      (ops.code op).footprint m ⊆ Owned ops (region ⟨m', w.history ++ [(t, op, r)]⟩) t op ∧
      (∀ cells, ops.entry op = .free cells → cells ⊆ region w (.inl t)) ∧
      ∀ o, o ≠ .inl t → (∀ k, o = .inr k → ops.lock op ≠ some k) →
        region w o ⊆ region ⟨m', w.history ++ [(t, op, r)]⟩ o

variable {ops : Operations Thread Op Lock Val ρ} {m₀ : Memory Val} {D : Discipline ops m₀}
variable {s s' : State Thread Op Lock Val ρ} {w : Atomic Thread Op Val ρ}

/-- An operation in progress, which the atomic run has performed: what it has not accessed yet
is there as the rest of its accesses will leave it. -/
def Pending (D : Discipline ops m₀) (m : Memory Val) (log : List (Op × ρ))
    (w : Atomic Thread Op Val ρ) (t : Thread) (op : Op) (c : Code Val ρ) : Prop :=
  ∃ r m', c.run m = some (r, m') ∧ logOf w.history t = log ++ [(op, r)] ∧
    (∀ l ∈ c.footprint m, w.memory l = m' l) ∧ c.footprint m ⊆ Owned ops (D.region w) t op

structure Follows (D : Discipline ops m₀) (s : State Thread Op Lock Val ρ)
    (w : Atomic Thread Op Val ρ) : Prop where
  inv : D.Inv w
  atRest : ∀ t, s.control t = none → logOf w.history t = s.log t
  busy : ∀ t op c, s.control t = some (op, c) → Pending D s.memory (s.log t) w t op c
  others : ∀ l, (∀ t op c, s.control t = some (op, c) → l ∉ c.footprint s.memory) →
    w.memory l = s.memory l
  holder : ∀ k t, s.holder k = some t ↔ ∃ op c, s.control t = some (op, c) ∧ ops.lock op = some k

theorem follows_init : Follows D (.init m₀) ⟨m₀, []⟩ where
  inv := D.init
  atRest _ _ := rfl
  busy _ _ _ h := by cases h
  others _ _ := rfl
  holder _ _ := by
    constructor
    · intro h
      cases h
    · rintro ⟨op, c, h, -⟩
      cases h

namespace Pending

variable {m m' : Memory Val} {log : List (Op × ρ)} {w' : Atomic Thread Op Val ρ} {t : Thread}
  {op : Op} {c : Code Val ρ}

theorem footprint_eq (h : Pending D m log w t op c) (hSame : ∀ l ∈ c.footprint m, m' l = m l) :
    c.footprint m' = c.footprint m := by
  obtain ⟨r, m₁, hRun, -⟩ := h
  obtain ⟨-, -, hFootprint, -⟩ := Code.run_agree hRun Set.Subset.rfl hSame
  exact hFootprint

theorem move (h : Pending D m log w t op c) (hSame : ∀ l ∈ c.footprint m, m' l = m l)
    (hAtomic : ∀ l ∈ c.footprint m, w'.memory l = w.memory l)
    (hLog : logOf w'.history t = logOf w.history t)
    (hOwned : c.footprint m ⊆ Owned ops (D.region w') t op) : Pending D m' log w' t op c := by
  obtain ⟨r, m₁, hRun, hHistory, hMemory, -⟩ := h
  obtain ⟨m₁', hRun', hFootprint, hAgree⟩ := Code.run_agree hRun Set.Subset.rfl hSame
  refine ⟨r, m₁', hRun', hLog.trans hHistory, ?_, by rwa [hFootprint]⟩
  intro l hl
  rw [hFootprint] at hl
  rw [hAgree l hl, ← hMemory l hl, hAtomic l hl]

end Pending

theorem eq_or_of_update {α : Type*} {f : Thread → α} {t t' : Thread} {x y : α}
    (h : Function.update f t x t' = y) : t' = t ∧ x = y ∨ t' ≠ t ∧ f t' = y := by
  obtain rfl | hNe := eq_or_ne t' t
  · exact .inl ⟨rfl, by rwa [Function.update_self] at h⟩
  · exact .inr ⟨hNe, by rwa [Function.update_of_ne hNe] at h⟩

theorem not_mem_owned (hInv : D.Inv w) {t t' : Thread} {op op' : Op} (hNe : t ≠ t')
    (hLock : ∀ k, ops.lock op = some k → ops.lock op' ≠ some k) {l : Loc}
    (hl : l ∈ Owned ops (D.region w) t op) : l ∉ Owned ops (D.region w) t' op' := by
  intro hl'
  obtain hThread | ⟨k, hOp, hRegion⟩ := hl
  · obtain hThread' | ⟨k', -, hRegion'⟩ := hl'
    · exact hNe (Sum.inl.inj (D.unique hInv hThread hThread'))
    · cases D.unique hInv hThread hRegion'
  · obtain hThread' | ⟨k', hOp', hRegion'⟩ := hl'
    · cases D.unique hInv hRegion hThread'
    · cases D.unique hInv hRegion hRegion'
      exact hLock k hOp hOp'

namespace Follows

theorem isSome_eq (h : Follows D s w) (l : Loc) : (w.memory l).isSome = (s.memory l).isSome := by
  by_cases hBusy : ∀ t op c, s.control t = some (op, c) → l ∉ c.footprint s.memory
  · rw [h.others l hBusy]
  · push Not at hBusy
    obtain ⟨t, op, c, hControl, hl⟩ := hBusy
    obtain ⟨r, m, hRun, -, hSame, -⟩ := h.busy t op c hControl
    rw [hSame l hl, Code.isSome_of_run hRun]

theorem owned (h : Follows D s w) {t : Thread} {op : Op} {c : Code Val ρ}
    (hControl : s.control t = some (op, c)) :
    c.footprint s.memory ⊆ Owned ops (D.region w) t op := by
  obtain ⟨r, m, -, -, -, hOwned⟩ := h.busy t op c hControl
  exact hOwned

theorem apart (h : Follows D s w) {t t' : Thread} {op op' : Op} {c c' : Code Val ρ}
    (hNe : t ≠ t') (hControl : s.control t = some (op, c)) (hControl' : s.control t' = some (op', c'))
    {l : Loc} (hl : l ∈ c.footprint s.memory) : l ∉ c'.footprint s.memory := by
  refine fun hl' => not_mem_owned h.inv hNe ?_ (h.owned hControl hl) (h.owned hControl' hl')
  intro k hLock hLock'
  have hHolder := (h.holder k t).mpr ⟨op, c, hControl, hLock⟩
  rw [(h.holder k t').mpr ⟨op', c', hControl', hLock'⟩] at hHolder
  exact hNe (Option.some.inj hHolder).symm

section Start

variable {t t' : Thread} {op op' : Op} {c' : Code Val ρ} {m : Memory Val}

/-- What is still to be accessed was allocated before another thread's operation starts and is
not freed by it. -/
theorem not_mem_cells (h : Follows D s w) (hNe : t' ≠ t)
    (hEnters : (ops.entry op).Enters s.memory m)
    (hFree : ∀ cells, ops.entry op = .free cells → cells ⊆ D.region w (.inl t))
    (hControl' : s.control t' = some (op', c')) {l : Loc} (hl : l ∈ c'.footprint s.memory) :
    l ∉ (ops.entry op).cells := by
  obtain ⟨-, hCells⟩ := hEnters
  intro hMem
  cases hEntry : ops.entry op with
  | plain =>
    rw [hEntry] at hMem
    exact hMem
  | alloc block =>
    obtain ⟨r', m', hRun', -⟩ := h.busy t' op' c' hControl'
    rw [hEntry] at hCells hMem
    have hSome := Code.allocated_of_run hRun' hl
    rw [(hCells l hMem).1] at hSome
    cases hSome
  | free cells =>
    rw [hEntry] at hMem
    have hRegion := hFree cells hEntry hMem
    obtain hThread' | ⟨k, -, hRegion'⟩ := h.owned hControl' hl
    · exact hNe (Sum.inl.inj (D.unique h.inv hThread' hRegion))
    · cases D.unique h.inv hRegion hRegion'

/-- Nobody loses what it is about to access to an operation that starts. -/
theorem owned_keep (h : Follows D s w) {w' : Atomic Thread Op Val ρ} (hNe : t' ≠ t)
    (hLock : ∀ k, ops.lock op = some k → s.holder k = none)
    (hKeep : ∀ o, o ≠ .inl t → (∀ k, o = .inr k → ops.lock op ≠ some k) →
      D.region w o ⊆ D.region w' o)
    (hControl' : s.control t' = some (op', c')) :
    c'.footprint s.memory ⊆ Owned ops (D.region w') t' op' := by
  intro l hl
  obtain hThread | ⟨k, hOp', hRegion⟩ := h.owned hControl' hl
  · exact .inl (hKeep (.inl t') (fun hEq => hNe (Sum.inl.inj hEq)) (fun _ hEq => by cases hEq) hThread)
  · refine .inr ⟨k, hOp', hKeep (.inr k) (fun hEq => by cases hEq) ?_ hRegion⟩
    rintro k' hEq hOp
    cases hEq
    cases (hLock k hOp).symm.trans ((h.holder k t').mpr ⟨op', c', hControl', hOp'⟩)

end Start

theorem access (h : Follows D s w) {t : Thread} {op : Op} {c c' : Code Val ρ} {m : Memory Val}
    (hControl : s.control t = some (op, c)) (hNext : c.next s.memory = some (c', m)) :
    Follows D { s with memory := m, control := Function.update s.control t (some (op, c')) } w := by
  obtain ⟨l₀, hRun₀, hFootprint, hFrame⟩ := Code.next_spec hNext
  have hSame : ∀ t' op' c'', t' ≠ t → s.control t' = some (op', c'') →
      ∀ l ∈ c''.footprint s.memory, m l = s.memory l := by
    intro t' op' c'' hNe hControl' l hl
    apply hFrame l
    rintro rfl
    apply h.apart hNe hControl' hControl hl
    rw [hFootprint]
    exact Set.mem_insert ..
  obtain ⟨r, m', hRun, hLog, hMemory, hOwned⟩ := h.busy t op c hControl
  rw [hRun₀] at hRun
  rw [hFootprint] at hMemory hOwned
  refine ⟨h.inv, ?_, ?_, ?_, ?_⟩
  · intro t' hControl'
    obtain ⟨rfl, hEq⟩ | ⟨-, hControl'⟩ := eq_or_of_update hControl'
    · cases hEq
    · exact h.atRest t' hControl'
  · intro t' op' c'' hControl'
    obtain ⟨rfl, hEq⟩ | ⟨hNe, hControl'⟩ := eq_or_of_update hControl'
    · cases hEq
      exact ⟨r, m', hRun, hLog, fun l hl => hMemory l (Set.mem_insert_of_mem _ hl),
        fun l hl => hOwned (Set.mem_insert_of_mem _ hl)⟩
    · exact (h.busy t' op' c'' hControl').move (hSame t' op' c'' hNe hControl') (fun _ _ => rfl) rfl
        (h.owned hControl')
  · intro l hl
    dsimp only at hl ⊢
    have hRest : l ∉ c'.footprint m := hl t op c' (Function.update_self ..)
    by_cases hEq : l = l₀
    · -- The access itself is the last one to this location.
      subst hEq
      rw [hMemory l (Set.mem_insert ..), Code.run_frame hRun hRest]
    · rw [hFrame l hEq]
      apply h.others l
      intro t' op' c'' hControl'
      obtain rfl | hNe := eq_or_ne t' t
      · cases hControl.symm.trans hControl'
        rw [hFootprint, Set.mem_insert_iff, not_or]
        exact ⟨hEq, hRest⟩
      · rw [← (h.busy t' op' c'' hControl').footprint_eq (hSame t' op' c'' hNe hControl')]
        refine hl t' op' c'' ?_
        rwa [Function.update_of_ne hNe]
  · intro k t'
    dsimp only
    rw [h.holder]
    obtain rfl | hNe := eq_or_ne t' t
    · rw [Function.update_self, hControl]
      constructor
      · rintro ⟨op', c'', hEq, hOp⟩
        cases hEq
        exact ⟨op, c', rfl, hOp⟩
      · rintro ⟨op', c'', hEq, hOp⟩
        cases hEq
        exact ⟨op, c, rfl, hOp⟩
    · rw [Function.update_of_ne hNe]

section Steps

variable [DecidableEq Lock]

theorem holder_start (h : Follows D s w) {t : Thread} {op : Op} (c : Code Val ρ)
    (hControl : s.control t = none) (hLock : ∀ k, ops.lock op = some k → s.holder k = none)
    (k : Lock) (t' : Thread) :
    (if ops.lock op = some k then some t else s.holder k) = some t' ↔
      ∃ op' c', Function.update s.control t (some (op, c)) t' = some (op', c') ∧
        ops.lock op' = some k := by
  obtain rfl | hNe := eq_or_ne t' t
  · rw [Function.update_self]
    by_cases hOp : ops.lock op = some k
    · rw [if_pos hOp]
      exact iff_of_true rfl ⟨op, c, rfl, hOp⟩
    · rw [if_neg hOp, h.holder, hControl]
      apply iff_of_false
      · rintro ⟨op', c', hEq, -⟩
        cases hEq
      · rintro ⟨op', c', hEq, hOp'⟩
        cases hEq
        exact hOp hOp'
  · rw [Function.update_of_ne hNe, ← h.holder]
    by_cases hOp : ops.lock op = some k
    · rw [if_pos hOp, hLock k hOp]
      exact iff_of_false (fun hEq => hNe (Option.some.inj hEq).symm) nofun
    · rw [if_neg hOp]

theorem start (h : Follows D s w) {t : Thread} {op : Op} {m : Memory Val}
    (hControl : s.control t = none) (hAllowed : ops.Allowed t (s.log t) op)
    (hLock : ∀ k, ops.lock op = some k → s.holder k = none)
    (hEnters : (ops.entry op).Enters s.memory m) :
    ∃ w', Atomic.Step ops w w' ∧ Follows D { s with
      memory := m
      holder := fun k => if ops.lock op = some k then some t else s.holder k
      control := Function.update s.control t (some (op, ops.code op)) } w' := by
  obtain ⟨mw, hEnters', hNew⟩ := hEnters.transfer h.isSome_eq
  rw [← h.atRest t hControl] at hAllowed
  obtain ⟨r, m', hRun, hInv, hOwned, hFree, hKeep⟩ := D.perform h.inv hAllowed hEnters'
  have hNe : ∀ t' op' c', s.control t' = some (op', c') → t' ≠ t := by
    rintro t' op' c' hControl' rfl
    cases hControl.symm.trans hControl'
  have hCells : ∀ t' op' c', s.control t' = some (op', c') → ∀ l ∈ c'.footprint s.memory,
      l ∉ (ops.entry op).cells :=
    fun t' op' c' hControl' l => h.not_mem_cells (hNe t' op' c' hControl') hEnters hFree hControl'
  have hOwned' : ∀ t' op' c', s.control t' = some (op', c') →
      c'.footprint s.memory ⊆ Owned ops (D.region ⟨m', w.history ++ [(t, op, r)]⟩) t' op' :=
    fun t' op' c' hControl' => h.owned_keep (hNe t' op' c' hControl') hLock hKeep hControl'
  have hApart : ∀ t' op' c', s.control t' = some (op', c') → ∀ l ∈ c'.footprint s.memory,
      l ∉ (ops.code op).footprint mw := by
    intro t' op' c' hControl' l hl hMem
    refine not_mem_owned hInv (hNe t' op' c' hControl').symm ?_ (hOwned hMem)
      (hOwned' t' op' c' hControl' hl)
    intro k hOp hOp'
    cases (hLock k hOp).symm.trans ((h.holder k t').mpr ⟨op', c', hControl', hOp'⟩)
  have hFrame : ∀ t' op' c', s.control t' = some (op', c') → ∀ l ∈ c'.footprint s.memory,
      m l = s.memory l :=
    fun t' op' c' hControl' l hl => hEnters.1 l (hCells t' op' c' hControl' l hl)
  -- What nobody else accesses is the same in both memories.
  have hSame : ∀ l, (∀ t' op' c', s.control t' = some (op', c') → l ∉ c'.footprint s.memory) →
      m l = mw l := by
    intro l hl
    by_cases hMem : l ∈ (ops.entry op).cells
    · exact (hNew l hMem).symm
    · rw [hEnters.1 l hMem, hEnters'.1 l hMem, h.others l hl]
  obtain ⟨m₁, hRun₁, hFootprint, hAgree⟩ := Code.run_agree hRun Set.Subset.rfl fun l hl =>
    hSame l fun t' op' c' hControl' hMem => hApart t' op' c' hControl' l hMem hl
  refine ⟨⟨m', w.history ++ [(t, op, r)]⟩, .perform hAllowed hEnters' hRun, hInv, ?_, ?_, ?_,
    h.holder_start _ hControl hLock⟩
  · intro t' hControl'
    obtain ⟨rfl, hEq⟩ | ⟨hNe', hControl'⟩ := eq_or_of_update hControl'
    · cases hEq
    · rw [logOf_concat_of_ne _ _ _ hNe']
      exact h.atRest t' hControl'
  · intro t' op' c' hControl'
    obtain ⟨rfl, hEq⟩ | ⟨hNe', hControl'⟩ := eq_or_of_update hControl'
    · cases hEq
      refine ⟨r, m₁, hRun₁, ?_, ?_, by rwa [hFootprint]⟩
      · rw [logOf_concat_self, h.atRest t' hControl]
      · intro l hl
        rw [hFootprint] at hl
        exact (hAgree l hl).symm
    · refine (h.busy t' op' c' hControl').move (hFrame t' op' c' hControl') ?_
        (logOf_concat_of_ne _ _ _ hNe') (hOwned' t' op' c' hControl')
      intro l hl
      dsimp only
      rw [Code.run_frame hRun (hApart t' op' c' hControl' l hl),
        hEnters'.1 l (hCells t' op' c' hControl' l hl)]
  · intro l hl
    dsimp only at hl ⊢
    have hOp : l ∉ (ops.code op).footprint mw := by
      rw [← hFootprint]
      exact hl t op _ (Function.update_self ..)
    rw [Code.run_frame hRun hOp]
    refine (hSame l ?_).symm
    intro t' op' c' hControl'
    rw [← (h.busy t' op' c' hControl').footprint_eq (hFrame t' op' c' hControl')]
    refine hl t' op' c' ?_
    rwa [Function.update_of_ne (hNe t' op' c' hControl')]

theorem finish (h : Follows D s w) {t : Thread} {op : Op} {r : ρ}
    (hControl : s.control t = some (op, .done r)) :
    Follows D { s with
      holder := fun k => if ops.lock op = some k then none else s.holder k
      control := Function.update s.control t none
      log := Function.update s.log t (s.log t ++ [(op, r)]) } w := by
  obtain ⟨r', m', hRun, hLog, -, -⟩ := h.busy t op _ hControl
  cases hRun
  refine ⟨h.inv, ?_, ?_, ?_, ?_⟩
  · intro t' hControl'
    dsimp only
    obtain ⟨rfl, -⟩ | ⟨hNe, hControl'⟩ := eq_or_of_update hControl'
    · rw [Function.update_self, hLog]
    · rw [Function.update_of_ne hNe]
      exact h.atRest t' hControl'
  · intro t' op' c' hControl'
    dsimp only
    obtain ⟨rfl, hEq⟩ | ⟨hNe, hControl'⟩ := eq_or_of_update hControl'
    · cases hEq
    · rw [Function.update_of_ne hNe]
      exact h.busy t' op' c' hControl'
  · intro l hl
    apply h.others l
    intro t' op' c' hControl'
    obtain rfl | hNe := eq_or_ne t' t
    · cases hControl.symm.trans hControl'
      exact Set.notMem_empty l
    · refine hl t' op' c' ?_
      dsimp only
      rwa [Function.update_of_ne hNe]
  · intro k t'
    dsimp only
    obtain rfl | hNe := eq_or_ne t' t
    · rw [Function.update_self]
      apply iff_of_false
      · intro hHolder
        split at hHolder
        · cases hHolder
        · rename_i hOp
          obtain ⟨op', c', hControl', hOp'⟩ := (h.holder k t').mp hHolder
          cases hControl.symm.trans hControl'
          exact hOp hOp'
      · rintro ⟨op', c', hEq, -⟩
        cases hEq
    · rw [Function.update_of_ne hNe, ← h.holder]
      by_cases hOp : ops.lock op = some k
      · rw [if_pos hOp, (h.holder k t).mpr ⟨op, _, hControl, hOp⟩]
        exact iff_of_false nofun fun hEq => hNe (Option.some.inj hEq).symm
      · rw [if_neg hOp]

/-- An operation takes place in the atomic run when it starts. -/
theorem step (h : Follows D s w) (hStep : Step ops s s') :
    ∃ w', Relation.ReflTransGen (Atomic.Step ops) w w' ∧ Follows D s' w' := by
  cases hStep with
  | start t op hControl hAllowed hLock hEnters =>
    obtain ⟨w', hPerform, h'⟩ := h.start hControl hAllowed hLock hEnters
    exact ⟨w', .single hPerform, h'⟩
  | access t hControl hNext => exact ⟨w, .refl, h.access hControl hNext⟩
  | finish t hControl => exact ⟨w, .refl, h.finish hControl⟩

theorem steps (h : Follows D s w) (hSteps : Relation.ReflTransGen (Step ops) s s') :
    ∃ w', Relation.ReflTransGen (Atomic.Step ops) w w' ∧ Follows D s' w' := by
  induction hSteps with
  | refl => exact ⟨w, .refl, h⟩
  | tail _ hStep ih =>
    obtain ⟨w₁, hAtomic₁, h₁⟩ := ih
    obtain ⟨w₂, hAtomic₂, h₂⟩ := h₁.step hStep
    exact ⟨w₂, hAtomic₁.trans hAtomic₂, h₂⟩

end Steps

theorem progress (h : Follows D s w) {t : Thread} {op : Op} {c : Code Val ρ}
    (hControl : s.control t = some (op, c)) : (∃ r, c = .done r) ∨ (c.next s.memory).isSome := by
  obtain ⟨r, m, hRun, -⟩ := h.busy t op c hControl
  exact (Code.progress_of_run hRun).imp_left fun hDone => ⟨r, hDone⟩

theorem safe (h : Follows D s w) : s.Safe where
  progress _ _ _ hControl := h.progress hControl
  raceFree t t' op op' c c' a a' hNe hControl hControl' hAccess hAccess' := by
    rintro ⟨hEq, -⟩
    have hMem := Code.mem_footprint_of_access hAccess s.memory
    rw [hEq] at hMem
    exact h.apart hNe hControl hControl' hMem (Code.mem_footprint_of_access hAccess' s.memory)

section Completion

variable [DecidableEq Lock] {t : Thread} {op : Op} {c c' : Code Val ρ} {m : Memory Val} {r : ρ}

theorem stepOf_access (hControl : s.control t = some (op, c))
    (hNext : c.next s.memory = some (c', m)) :
    StepOf ops t s { s with
      memory := m, control := Function.update s.control t (some (op, c')) } :=
  ⟨.access t hControl hNext, fun _ hNe => ⟨Function.update_of_ne hNe .., rfl⟩⟩

theorem stepOf_finish (hControl : s.control t = some (op, .done r)) :
    StepOf ops t s { s with
      holder := fun k => if ops.lock op = some k then none else s.holder k
      control := Function.update s.control t none
      log := Function.update s.log t (s.log t ++ [(op, r)]) } :=
  ⟨.finish t hControl, fun _ hNe => ⟨Function.update_of_ne hNe .., Function.update_of_ne hNe ..⟩⟩

/-- A thread finishes what it has started without the others. -/
theorem completes (h : Follows D s w) (hControl : s.control t = some (op, c)) :
    ∃ s' r, Relation.ReflTransGen (StepOf ops t) s s' ∧
      s'.control = Function.update s.control t none ∧
      s'.log = Function.update s.log t (s.log t ++ [(op, r)]) := by
  induction c generalizing s with
  | done r => exact ⟨_, r, .single (stepOf_finish hControl), rfl, rfl⟩
  | fault =>
    obtain ⟨r, hDone⟩ | hNext := h.progress hControl
    · cases hDone
    · cases hNext
  | read l k ih =>
    obtain ⟨r, hDone⟩ | hNext := h.progress hControl
    · cases hDone
    · obtain ⟨v, hRead⟩ := Option.isSome_iff_exists.mp (Option.isSome_map.symm.trans hNext)
      have hNext : (Code.read l k).next s.memory = some (k v, s.memory) := by rw [Code.next, hRead]; rfl
      obtain ⟨s', r, hSteps, hAfter, hLog⟩ := ih v (h.access hControl hNext) (Function.update_self ..)
      exact ⟨s', r, .head (stepOf_access hControl hNext) hSteps,
        by rw [hAfter, Function.update_idem], hLog⟩
  | write l v k ih =>
    obtain ⟨r, hDone⟩ | hNext := h.progress hControl
    · cases hDone
    · obtain ⟨old, hOld⟩ := Option.isSome_iff_exists.mp (Option.isSome_map.symm.trans hNext)
      have hNext : (Code.write l v k).next s.memory =
          some (k, Function.update s.memory l (some v)) := by rw [Code.next, hOld]; rfl
      obtain ⟨s', r, hSteps, hAfter, hLog⟩ := ih (h.access hControl hNext) (Function.update_self ..)
      exact ⟨s', r, .head (stepOf_access hControl hNext) hSteps,
        by rw [hAfter, Function.update_idem], hLog⟩

end Completion

theorem memory_eq (h : Follows D s w) (hRest : ∀ t, s.control t = none) : w.memory = s.memory := by
  funext l
  apply h.others l
  intro t op c hControl
  cases (hRest t).symm.trans hControl

end Follows

theorem Atomic.history_of_steps {w' : Atomic Thread Op Val ρ}
    (h : Relation.ReflTransGen (Atomic.Step ops) w w') : w.history <+: w'.history := by
  induction h with
  | refl => exact List.prefix_rfl
  | tail _ hStep ih =>
    cases hStep with
    | perform => exact ih.trans (List.prefix_append ..)

end CStabilizer.Library.Atomicity
