import Mathlib.Data.Set.Insert
import Mathlib.Logic.Function.Basic
import Mathlib.Order.WellFounded
import Mathlib.Data.Fintype.Order

/-!
# Locks that are taken in order

Threads run straight lists of operations on locks.  When every list takes a
lock only above the locks that its thread holds, the threads cannot all wait
for each other.
-/

namespace ChipletSniper.Library.OrderedLocks

open Function

inductive Operation (Lock : Type*) where
  | acquire (lock : Lock)
  | release (lock : Lock)

variable {Lock Thread : Type*}

/-- The locks that are held behind a list of operations. -/
def remaining : List (Operation Lock) → Set Lock → Set Lock
  | [], locks => locks
  | .acquire lock :: rest, locks => remaining rest (insert lock locks)
  | .release lock :: rest, locks => remaining rest (locks \ {lock})

/-- A lock is taken only above the locks that are held, and only a lock that
is held is given back. -/
def Ordered [LT Lock] : List (Operation Lock) → Set Lock → Prop
  | [], _ => True
  | .acquire lock :: rest, locks =>
      (∀ other ∈ locks, other < lock) ∧ Ordered rest (insert lock locks)
  | .release lock :: rest, locks =>
      lock ∈ locks ∧ Ordered rest (locks \ {lock})

section Lists

theorem remaining_append (first second : List (Operation Lock))
    (locks : Set Lock) :
    remaining (first ++ second) locks =
      remaining second (remaining first locks) := by
  induction first generalizing locks with
  | nil => rfl
  | cons operation rest ih =>
      cases operation with
      | acquire lock => exact ih _
      | release lock => exact ih _

theorem remaining_acquire (taken : List Lock) (locks : Set Lock) :
    remaining (taken.map .acquire) locks = locks ∪ {lock | lock ∈ taken} := by
  induction taken generalizing locks with
  | nil =>
      ext lock
      simp [remaining]
  | cons first rest ih =>
      rw [List.map_cons, remaining, ih]
      ext lock
      simp only [Set.mem_union, Set.mem_insert_iff, Set.mem_ofPred_eq,
        List.mem_cons]
      tauto

theorem remaining_release (given : List Lock) (locks : Set Lock) :
    remaining (given.map .release) locks = locks \ {lock | lock ∈ given} := by
  induction given generalizing locks with
  | nil =>
      ext lock
      simp [remaining]
  | cons first rest ih =>
      rw [List.map_cons, remaining, ih]
      ext lock
      simp only [Set.mem_sdiff, Set.mem_singleton_iff, Set.mem_ofPred_eq,
        List.mem_cons]
      tauto

variable [LT Lock]

theorem ordered_append {first second : List (Operation Lock)}
    {locks : Set Lock} :
    Ordered (first ++ second) locks ↔
      Ordered first locks ∧ Ordered second (remaining first locks) := by
  induction first generalizing locks with
  | nil => simp [Ordered, remaining]
  | cons operation rest ih =>
      cases operation with
      | acquire lock =>
          rw [List.cons_append, Ordered, Ordered, remaining,
            ih, and_assoc]
      | release lock =>
          rw [List.cons_append, Ordered, Ordered, remaining,
            ih, and_assoc]

/-- An increasing list may be taken above the locks that are held. -/
theorem ordered_acquire {taken : List Lock} {locks : Set Lock}
    (increasing : taken.Pairwise (· < ·))
    (above : ∀ lock ∈ taken, ∀ other ∈ locks, other < lock) :
    Ordered (taken.map .acquire) locks := by
  induction taken generalizing locks with
  | nil => trivial
  | cons first rest ih =>
      have parts := List.pairwise_cons.mp increasing
      refine ⟨above first List.mem_cons_self, ih parts.2 ?_⟩
      intro lock inRest other isHeld
      cases isHeld with
      | inl same =>
          rw [same]
          exact parts.1 lock inRest
      | inr earlier => exact above lock (List.mem_cons_of_mem _ inRest) other earlier

theorem ordered_release {given : List Lock} {locks : Set Lock}
    (distinct : given.Nodup) (isHeld : ∀ lock ∈ given, lock ∈ locks) :
    Ordered (given.map .release) locks := by
  induction given generalizing locks with
  | nil => trivial
  | cons first rest ih =>
      have parts := List.nodup_cons.mp distinct
      refine ⟨isHeld first List.mem_cons_self, ih parts.2 ?_⟩
      intro lock inRest
      refine ⟨isHeld lock (List.mem_cons_of_mem _ inRest), ?_⟩
      intro same
      rw [Set.mem_singleton_iff] at same
      rw [same] at inRest
      exact parts.1 inRest

end Lists

/-! ## Threads -/

/-- The owner of each lock, and what each thread has still to do. -/
structure State (Lock Thread : Type*) where
  owner : Lock → Option Thread
  todo : Thread → List (Operation Lock)

namespace State

variable (state : State Lock Thread)

def owned (thread : Thread) : Set Lock :=
  {lock | state.owner lock = some thread}

theorem mem_owned {thread : Thread} {lock : Lock} :
    lock ∈ state.owned thread ↔ state.owner lock = some thread :=
  Iff.rfl

/-- What a thread holds when it has done what it has to do. -/
def target (thread : Thread) : Set Lock :=
  remaining (state.todo thread) (state.owned thread)

def Safe [LT Lock] : Prop :=
  ∀ thread, Ordered (state.todo thread) (state.owned thread)

variable [DecidableEq Lock] [DecidableEq Thread]

/-- The next operation of a thread, if it does not have to wait. -/
def advance (thread : Thread) : Option (State Lock Thread) :=
  match state.todo thread with
  | [] => none
  | .acquire lock :: rest =>
      if (state.owner lock).isNone then
        some {
          owner := update state.owner lock (some thread)
          todo := update state.todo thread rest }
      else none
  | .release lock :: rest =>
      some {
        owner := update state.owner lock none
        todo := update state.todo thread rest }

variable {state} {next : State Lock Thread} {thread : Thread}

/-- What one operation does. -/
theorem advance_cases [LT Lock] (safe : state.Safe)
    (advanced : state.advance thread = some next) :
    ∃ operation rest, state.todo thread = operation :: rest ∧
      next.todo = update state.todo thread rest ∧
      next.owned thread = remaining [operation] (state.owned thread) ∧
      ∀ other, other ≠ thread → next.owned other = state.owned other := by
  have mine := safe thread
  rw [advance] at advanced
  split at advanced
  · cases advanced
  next lock rest todo =>
    split at advanced
    next free =>
      cases advanced
      rw [Option.isNone_iff_eq_none] at free
      refine ⟨.acquire lock, rest, todo, rfl, ?_, ?_⟩
      · ext held
        by_cases same : held = lock
        · subst same
          simp [owned, remaining]
        · simp [owned, remaining, same]
      · intro other different
        ext held
        by_cases same : held = lock
        · subst same
          simp [owned, free, Ne.symm different]
        · simp [owned, same]
    · cases advanced
  next lock rest todo =>
    cases advanced
    rw [todo, Ordered, mem_owned] at mine
    refine ⟨.release lock, rest, todo, rfl, ?_, ?_⟩
    · ext held
      by_cases same : held = lock
      · subst same
        simp [owned, remaining]
      · simp [owned, remaining, same]
    · intro other different
      ext held
      by_cases same : held = lock
      · subst same
        simp [owned, mine.1, Ne.symm different]
      · simp [owned, same]

theorem Safe.advance [LT Lock] (safe : state.Safe)
    (advanced : state.advance thread = some next) : next.Safe := by
  obtain ⟨operation, rest, todo, nextTodo, mine, others⟩ :=
    advance_cases safe advanced
  intro other
  rw [nextTodo]
  by_cases same : other = thread
  · subst same
    rw [update_self, mine]
    have ordered := safe other
    rw [todo] at ordered
    have parts : Ordered ([operation] ++ rest) _ := ordered
    exact (ordered_append.mp parts).2
  · rw [update_of_ne same, others other same]
    exact safe other

/-- What a thread is about to hold does not change underway. -/
theorem target_advance [LT Lock] (safe : state.Safe)
    (advanced : state.advance thread = some next) (other : Thread) :
    next.target other = state.target other := by
  obtain ⟨operation, rest, todo, nextTodo, mine, others⟩ :=
    advance_cases safe advanced
  rw [target, target, nextTodo]
  by_cases same : other = thread
  · subst same
    rw [update_self, mine, todo]
    exact (remaining_append [operation] rest _).symm
  · rw [update_of_ne same, others other same]

/-- Behind every lock that a thread waits for there is a thread that can go
on, or one that is done and holds a lock.  The induction is on the lock: its
owner waits only for locks above it. -/
theorem exists_free_of_acquire [LinearOrder Lock] [Finite Lock]
    (safe : state.Safe) {lock : Lock} :
    ∀ {thread : Thread} {rest : List (Operation Lock)},
      state.todo thread = .acquire lock :: rest →
      ∃ other, (state.advance other).isSome ∨
        (state.todo other = [] ∧ (state.owned other).Nonempty) := by
  induction lock using (wellFounded_gt (α := Lock)).induction with
  | _ lock ih =>
      intro thread rest todo
      cases owner : state.owner lock with
      | none =>
          refine ⟨thread, Or.inl ?_⟩
          rw [State.advance, todo]
          simp [owner]
      | some holder =>
          have holds : lock ∈ state.owned holder := owner
          have ordered := safe holder
          cases holderTodo : state.todo holder with
          | nil => exact ⟨holder, Or.inr ⟨holderTodo, lock, holds⟩⟩
          | cons operation others =>
              cases operation with
              | acquire wanted =>
                  rw [holderTodo, Ordered] at ordered
                  exact ih wanted (ordered.1 lock holds)
                    holderTodo
              | release given =>
                  refine ⟨holder, Or.inl ?_⟩
                  rw [State.advance, holderTodo]
                  rfl

/-- Not all threads that have something to do wait. -/
theorem exists_free [LinearOrder Lock] [Finite Lock] (safe : state.Safe)
    (busy : state.todo thread ≠ []) :
    ∃ other, (state.advance other).isSome ∨
      (state.todo other = [] ∧ (state.owned other).Nonempty) := by
  cases todo : state.todo thread with
  | nil => exact absurd todo busy
  | cons operation rest =>
      cases operation with
      | acquire lock => exact exists_free_of_acquire safe todo
      | release lock =>
          refine ⟨thread, Or.inl ?_⟩
          rw [State.advance, todo]
          rfl

end State

end ChipletSniper.Library.OrderedLocks
