import ChipletSniper.Library.OrderedLocks
import ChipletSniper.Library.Runs
import Mathlib.Algebra.BigOperators.Group.Finset.Basic
import Mathlib.Algebra.Order.BigOperators.Group.Finset
import Mathlib.Data.Fintype.BigOperators
import Mathlib.Data.List.FinRange

/-!
# The lock of a cache set

`_SetLock` has one mutex for each core that shares the cache.  Shared access
takes the mutex of the own core, exclusive access takes all of them, from the
first to the last.  Every call is a list of operations on mutexes, and the
operations of different threads come in any order.  A core may run several
threads.
-/

namespace ChipletSniper.Misc.SetLock

open Function Library OrderedLocks

variable {n : Nat} {Thread : Type}

def acquireExclusive (n : Nat) : List (Operation (Fin n)) :=
  (List.finRange n).map .acquire

def releaseExclusive (n : Nat) : List (Operation (Fin n)) :=
  (List.finRange n).map .release

def acquireShared (core : Fin n) : List (Operation (Fin n)) := [.acquire core]

def releaseShared (core : Fin n) : List (Operation (Fin n)) := [.release core]

def upgrade (core : Fin n) : List (Operation (Fin n)) :=
  releaseShared core ++ acquireExclusive n

def downgrade (core : Fin n) : List (Operation (Fin n)) :=
  ((List.finRange n).filter (· ≠ core)).map .release

/-! ## Calls -/

/-- What a thread may do with the set when its calls have returned. -/
inductive Access where
  | outside
  | shared
  | exclusive
  deriving DecidableEq, Repr

inductive Call where
  | acquireExclusive
  | releaseExclusive
  | acquireShared
  | releaseShared
  | upgrade
  | downgrade
  deriving DecidableEq, Repr

namespace Call

def operations (core : Fin n) : Call → List (Operation (Fin n))
  | .acquireExclusive => SetLock.acquireExclusive n
  | .releaseExclusive => SetLock.releaseExclusive n
  | .acquireShared => SetLock.acquireShared core
  | .releaseShared => SetLock.releaseShared core
  | .upgrade => SetLock.upgrade core
  | .downgrade => SetLock.downgrade core

/-- The access with which the call is made. -/
def source : Call → Access
  | .acquireExclusive => .outside
  | .releaseExclusive => .exclusive
  | .acquireShared => .outside
  | .releaseShared => .shared
  | .upgrade => .shared
  | .downgrade => .exclusive

/-- The access with which the call returns. -/
def target : Call → Access
  | .acquireExclusive => .exclusive
  | .releaseExclusive => .outside
  | .acquireShared => .shared
  | .releaseShared => .outside
  | .upgrade => .exclusive
  | .downgrade => .shared

end Call

/-- The mutexes of a set, and the access with which the last call of each
thread returns. -/
structure System (n : Nat) (Thread : Type) where
  mutexes : OrderedLocks.State (Fin n) Thread
  access : Thread → Access

def System.start : System n Thread where
  mutexes := { owner := fun _ => none, todo := fun _ => [] }
  access := fun _ => .outside

/-- A thread makes a call when the one before has returned, or carries out one
operation of its call. -/
inductive Action (Thread : Type) where
  | call (thread : Thread) (call : Call)
  | advance (thread : Thread)

def step [DecidableEq Thread] (core : Thread → Fin n)
    (system : System n Thread) : Action Thread → Option (System n Thread)
  | .call thread call =>
      if (system.mutexes.todo thread).isEmpty ∧
          system.access thread = call.source then
        some {
          mutexes := { system.mutexes with
            todo := update system.mutexes.todo thread
              (call.operations (core thread)) }
          access := update system.access thread call.target }
      else none
  | .advance thread =>
      (system.mutexes.advance thread).map fun mutexes =>
        { system with mutexes := mutexes }

def Next [DecidableEq Thread] (core : Thread → Fin n)
    (system next : System n Thread) : Prop :=
  ∃ action, step core system action = some next

/-- The states of the runs from `System.start`. -/
inductive Reached [DecidableEq Thread] (core : Thread → Fin n) :
    System n Thread → Prop
  | start : Reached core System.start
  | step {system next : System n Thread} (action : Action Thread) :
      Reached core system → SetLock.step core system action = some next →
        Reached core next

/-! ## What is held -/

/-- The mutexes that belong to an access. -/
def Access.mutexes (core : Fin n) : Access → Set (Fin n)
  | .outside => ∅
  | .shared => {core}
  | .exclusive => Set.univ

namespace Call

variable (core : Fin n)

theorem ordered_acquireExclusive :
    Ordered (SetLock.acquireExclusive n) ∅ := by
  apply ordered_acquire (List.pairwise_lt_finRange n)
  intro lock _ other isHeld
  exact absurd isHeld (Set.notMem_empty other)

theorem remaining_acquireExclusive :
    remaining (SetLock.acquireExclusive n) ∅ = Set.univ := by
  rw [SetLock.acquireExclusive, remaining_acquire]
  ext lock
  simp

/-- The operations of a call fit what is held before it. -/
theorem ordered_operations (call : Call) :
    Ordered (call.operations core) (call.source.mutexes core) := by
  cases call with
  | acquireExclusive => exact ordered_acquireExclusive
  | releaseExclusive =>
      apply ordered_release (List.nodup_finRange n)
      intro lock _
      exact Set.mem_univ lock
  | acquireShared =>
      refine ⟨?_, trivial⟩
      intro other isHeld
      exact absurd isHeld (Set.notMem_empty other)
  | releaseShared => exact ⟨rfl, trivial⟩
  | upgrade =>
      apply ordered_append.mpr
      refine ⟨⟨rfl, trivial⟩, ?_⟩
      have given : remaining (SetLock.releaseShared core) {core} = ∅ :=
        Set.sdiff_self
      rw [source, Access.mutexes, given]
      exact ordered_acquireExclusive
  | downgrade =>
      apply ordered_release ((List.nodup_finRange n).filter _)
      intro lock _
      exact Set.mem_univ lock

/-- Behind a call its thread holds what belongs to the new access. -/
theorem remaining_operations (call : Call) :
    remaining (call.operations core) (call.source.mutexes core) =
      call.target.mutexes core := by
  cases call with
  | acquireExclusive => exact remaining_acquireExclusive
  | releaseExclusive =>
      rw [operations, SetLock.releaseExclusive, remaining_release]
      ext lock
      simp [target, Access.mutexes]
  | acquireShared =>
      exact LawfulSingleton.insert_empty_eq core
  | releaseShared => exact Set.sdiff_self
  | upgrade =>
      have given : remaining (SetLock.releaseShared core) {core} = ∅ :=
        Set.sdiff_self
      rw [operations, SetLock.upgrade, remaining_append, source,
        Access.mutexes, given]
      exact remaining_acquireExclusive
  | downgrade =>
      rw [operations, SetLock.downgrade, remaining_release]
      ext lock
      simp [source, target, Access.mutexes]

end Call

/-! ## Runs -/

section Runs

variable {core : Thread → Fin n} {system next : System n Thread}

/-- Every thread holds, or is on its way to hold, what belongs to its access.
-/
structure Inv (core : Thread → Fin n) (system : System n Thread) : Prop where
  safe : system.mutexes.Safe
  target : ∀ thread, system.mutexes.target thread =
    (system.access thread).mutexes (core thread)

theorem Inv.start : Inv core (System.start : System n Thread) where
  safe := fun _ => trivial
  target := by
    intro thread
    ext lock
    simp [System.start, State.target, State.owned, remaining, Access.mutexes]

/-- A thread whose calls have returned holds what belongs to its access. -/
theorem Inv.owned (inv : Inv core system) {thread : Thread}
    (returned : system.mutexes.todo thread = []) :
    system.mutexes.owned thread =
      (system.access thread).mutexes (core thread) := by
  rw [← inv.target thread, State.target, returned, remaining]

/-- With nothing underway and all threads outside, every mutex is free. -/
theorem Inv.free (inv : Inv core system)
    (outside : ∀ thread, system.access thread = .outside ∧
      system.mutexes.todo thread = []) (lock : Fin n) :
    system.mutexes.owner lock = none := by
  cases owner : system.mutexes.owner lock with
  | none => rfl
  | some thread =>
      have owned := inv.owned (outside thread).2
      rw [(outside thread).1] at owned
      have isOwned : lock ∈ system.mutexes.owned thread := owner
      rw [owned] at isOwned
      exact absurd isOwned (Set.notMem_empty lock)

variable [DecidableEq Thread]

theorem Inv.call (inv : Inv core system) {thread : Thread} {call : Call}
    (stepped : step core system (.call thread call) = some next) :
    Inv core next := by
  rw [step] at stepped
  split at stepped
  next allowed =>
    cases stepped
    have returned := List.isEmpty_iff.mp allowed.1
    have mine := inv.owned returned
    rw [allowed.2] at mine
    constructor
    · intro other
      by_cases same : other = thread
      · subst same
        simp only [update_self]
        change Ordered _ (system.mutexes.owned other)
        rw [mine]
        exact call.ordered_operations (core other)
      · simp only [update_of_ne same]
        exact inv.safe other
    · intro other
      by_cases same : other = thread
      · subst same
        rw [State.target]
        simp only [update_self]
        change remaining _ (system.mutexes.owned other) = _
        rw [mine]
        exact call.remaining_operations (core other)
      · rw [State.target]
        simp only [update_of_ne same]
        exact inv.target other
  · cases stepped

theorem Inv.advance (inv : Inv core system) {thread : Thread}
    (stepped : step core system (.advance thread) = some next) :
    Inv core next := by
  rw [step, Option.map_eq_some_iff] at stepped
  obtain ⟨mutexes, advanced, rfl⟩ := stepped
  constructor
  · exact inv.safe.advance advanced
  · intro other
    exact (State.target_advance inv.safe advanced other).trans
      (inv.target other)

theorem Reached.inv (reached : Reached core system) : Inv core system := by
  induction reached with
  | start => exact Inv.start
  | step action _ stepped ih =>
      cases action with
      | call thread call => exact ih.call stepped
      | advance thread => exact ih.advance stepped

theorem Reached.run (reached : Reached core system)
    {actions : List (Action Thread)} {last : System n Thread}
    (ran : actions.foldlM (SetLock.step core) system = some last) :
    Reached core last := by
  have path : Relation.ReflTransGen (Next core) system last :=
    reflTransGen_of_foldlM (fun _ action _ stepped => ⟨action, stepped⟩) ran
  apply invariant_of_reflTransGen (Reached core) _ reached path
  intro state next reached stepped
  obtain ⟨action, stepped⟩ := stepped
  exact reached.step action stepped

/-- Two threads whose calls have returned are not in the set together, unless
both have shared access and run on different cores. -/
theorem exclusive_alone (reached : Reached core system) {thread other : Thread}
    (different : thread ≠ other)
    (returned : system.mutexes.todo thread = [])
    (otherReturned : system.mutexes.todo other = []) :
    (system.access thread = .exclusive → system.access other = .outside) ∧
    (system.access thread = .shared → system.access other = .shared →
      core thread ≠ core other) := by
  have mine := reached.inv.owned returned
  have others := reached.inv.owned otherReturned
  have apart : ∀ lock, lock ∈ system.mutexes.owned thread →
      lock ∉ system.mutexes.owned other := by
    intro lock isMine isOthers
    rw [State.mem_owned] at isMine isOthers
    rw [isMine] at isOthers
    exact different (Option.some.inj isOthers)
  rw [mine, others] at apart
  constructor
  · intro exclusive
    rw [exclusive] at apart
    have free := apart (core other) (Set.mem_univ _)
    cases access : system.access other with
    | outside => rfl
    | shared =>
        rw [access] at free
        exact absurd rfl free
    | exclusive =>
        rw [access] at free
        exact absurd (Set.mem_univ _) free
  · intro shared otherShared same
    rw [shared, otherShared, ← same] at apart
    exact apart (core thread) rfl rfl

end Runs

/-! ## Progress -/

section Progress

variable {core : Thread → Fin n} {system : System n Thread}

/-- The operations of a thread until it is outside with no call underway. -/
def Access.toRelease (n : Nat) : Access → Nat
  | .outside => 0
  | .shared => 2
  | .exclusive => n + 1

def toRelease (system : System n Thread) (thread : Thread) : Nat :=
  (system.mutexes.todo thread).length + (system.access thread).toRelease n

theorem outside_of_toRelease {thread : Thread}
    (released : toRelease system thread = 0) :
    system.access thread = .outside ∧ system.mutexes.todo thread = [] := by
  rw [toRelease, Nat.add_eq_zero_iff, List.length_eq_zero_iff] at released
  refine ⟨?_, released.1⟩
  cases access : system.access thread with
  | outside => rfl
  | shared =>
      rw [access] at released
      cases released.2
  | exclusive =>
      rw [access] at released
      cases released.2

variable [DecidableEq Thread]

/-- Whatever else is underway, some thread can go on towards its release. -/
theorem exists_step (inv : Inv core system) {thread : Thread}
    (underway : toRelease system thread ≠ 0) :
    ∃ action next other, step core system action = some next ∧
      toRelease next other < toRelease system other ∧
      ∀ third, third ≠ other →
        toRelease next third = toRelease system third := by
  have release : ∀ other, system.mutexes.todo other = [] →
      system.access other ≠ .outside →
      ∃ action next other, step core system action = some next ∧
        toRelease next other < toRelease system other ∧
        ∀ third, third ≠ other →
          toRelease next third = toRelease system third := by
    intro other returned inside
    cases access : system.access other with
    | outside => exact absurd access inside
    | shared =>
        refine ⟨.call other .releaseShared, _, other,
          if_pos ⟨List.isEmpty_iff.mpr returned, access⟩, ?_, ?_⟩
        · simp [toRelease, returned, access, Call.operations, releaseShared,
            Call.target, Access.toRelease]
        · intro third isThird
          simp [toRelease, isThird]
    | exclusive =>
        refine ⟨.call other .releaseExclusive, _, other,
          if_pos ⟨List.isEmpty_iff.mpr returned, access⟩, ?_, ?_⟩
        · simp [toRelease, returned, access, Call.operations,
            releaseExclusive, Call.target, Access.toRelease]
        · intro third isThird
          simp [toRelease, isThird]
  by_cases busy : system.mutexes.todo thread = []
  · apply release thread busy
    intro outside
    apply underway
    rw [toRelease, busy, outside]
    rfl
  · obtain ⟨other, goesOn | holds⟩ := State.exists_free inv.safe busy
    · obtain ⟨mutexes, advanced⟩ := Option.isSome_iff_exists.mp goesOn
      obtain ⟨operation, rest, todo, nextTodo, -, -⟩ :=
        State.advance_cases inv.safe advanced
      refine ⟨.advance other, { system with mutexes := mutexes }, other,
        ?_, ?_, ?_⟩
      · rw [step, advanced]
        rfl
      · rw [toRelease, toRelease, todo, nextTodo, update_self,
          List.length_cons]
        exact Nat.add_lt_add_right (Nat.lt_succ_self _) _
      · intro third isThird
        rw [toRelease, toRelease, nextTodo, update_of_ne isThird]
    · apply release other holds.1
      intro outside
      have empty := inv.owned holds.1
      rw [outside] at empty
      rw [empty] at holds
      exact Set.not_nonempty_empty holds.2

/-- No state is a deadlock: from every state of every run all threads can come
back to the outside, with every mutex free. -/
theorem locks_released [Fintype Thread] (reached : Reached core system) :
    ∃ last, Relation.ReflTransGen (Next core) system last ∧
      (∀ thread, last.access thread = .outside ∧
        last.mutexes.todo thread = []) ∧
      ∀ lock, last.mutexes.owner lock = none := by
  have goesOn : ∀ {system : System n Thread}, Reached core system →
      ¬ (∀ thread, toRelease system thread = 0) →
      ∃ next, Next core system next ∧ Reached core next ∧
        ∑ thread, toRelease next thread <
          ∑ thread, toRelease system thread := by
    intro system reached busy
    obtain ⟨thread, underway⟩ := not_forall.mp busy
    obtain ⟨action, next, other, stepped, less, same⟩ :=
      exists_step reached.inv underway
    refine ⟨next, ⟨action, stepped⟩, reached.step action stepped, ?_⟩
    apply Finset.sum_lt_sum
    · intro third _
      by_cases isOther : third = other
      · rw [isOther]
        exact Nat.le_of_lt less
      · exact Nat.le_of_eq (same third isOther)
    · exact ⟨other, Finset.mem_univ other, less⟩
  obtain ⟨last, path, inv, released⟩ := exists_path_of_decreasing
    (fun system => ∑ thread, toRelease system thread) (Reached core)
    (fun system => ∀ thread, toRelease system thread = 0) goesOn reached
  have outside := fun thread => outside_of_toRelease (released thread)
  exact ⟨last, path, outside, inv.inv.free outside⟩

end Progress

/-! ## Two threads -/

def threadZero : Fin 2 := ⟨0, Nat.two_pos⟩

def threadOne : Fin 2 := ⟨1, Nat.one_lt_two⟩

/-- Thread 0 takes both mutexes, and waits for thread 1 in between. -/
def taking : List (Action (Fin 2)) :=
  [.call threadOne .acquireShared, .advance threadOne,
    .call threadZero .acquireExclusive, .advance threadZero,
    .call threadOne .releaseShared, .advance threadOne, .advance threadZero]

theorem exclusive_alone_taking :
    ∃ system : System 2 (Fin 2),
      taking.foldlM (step id) System.start = some system ∧
      system.access 0 = .exclusive ∧ system.access 1 = .outside := by
  have run : ((taking.foldlM (step id) System.start).map
      fun system : System 2 (Fin 2) => (system.access 0,
        (system.mutexes.todo 0).isEmpty, (system.mutexes.todo 1).isEmpty)) =
          some (.exclusive, true, true) := by
    decide
  obtain ⟨system, ran, results⟩ := Option.map_eq_some_iff.mp run
  have reached : Reached id system := Reached.run Reached.start ran
  simp only [Prod.mk.injEq, List.isEmpty_iff] at results
  obtain ⟨exclusive, returned, otherReturned⟩ := results
  exact ⟨system, ran, exclusive,
    (exclusive_alone reached (by decide) returned otherReturned).1 exclusive⟩

/-- Both threads upgrade, and thread 0 waits for the mutex of thread 1. -/
def upgrading : List (Action (Fin 2)) :=
  [.call threadZero .acquireShared, .advance threadZero,
    .call threadOne .acquireShared, .advance threadOne,
    .call threadZero .upgrade, .advance threadZero, .advance threadZero,
    .call threadOne .upgrade]

theorem locks_released_taking :
    ∃ system : System 2 (Fin 2),
      upgrading.foldlM (step id) System.start = some system ∧
      (step id system (.advance 0)).isNone = true ∧
      ∃ last, Relation.ReflTransGen (Next id) system last ∧
        (∀ thread, last.access thread = .outside ∧
          last.mutexes.todo thread = []) ∧
        ∀ lock, last.mutexes.owner lock = none := by
  have run : ((upgrading.foldlM (step id) System.start).map
      fun system : System 2 (Fin 2) =>
        (step id system (.advance 0)).isNone) = some true := by
    decide
  obtain ⟨system, ran, waits⟩ := Option.map_eq_some_iff.mp run
  have reached : Reached id system := Reached.run Reached.start ran
  exact ⟨system, ran, waits, locks_released reached⟩

end ChipletSniper.Misc.SetLock
