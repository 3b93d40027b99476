import ChipletSniper.Library.Runs
import ChipletSniper.Misc.CircularQueue

/-!
# The blocking circular queue

Producers wait while the queue is full and consumers while it is empty. A push
into the empty queue wakes one consumer, and a pop from the full queue one
producer; no other push or pop does. A step is a section under the lock, with
the signal that it sends.
-/

namespace ChipletSniper.Misc

open Library (Along exists_foldlM_ok prefixes_iff_along)

/-- The threads that wait, and those that have been woken and not run since. -/
structure ConditionVariable (Waiter : Type) where
  waiting : List Waiter
  woken : List Waiter

namespace ConditionVariable

variable {Waiter : Type} (cond : ConditionVariable Waiter)

def wait (waiter : Waiter) : ConditionVariable Waiter :=
  { cond with waiting := cond.waiting ++ [waiter] }

/-- One of the waiting threads is woken; `pick` says which one. -/
def signal (pick : Nat) : ConditionVariable Waiter :=
  match cond.waiting[pick % cond.waiting.length]? with
  | none => cond
  | some waiter =>
      { waiting := cond.waiting.eraseIdx (pick % cond.waiting.length)
        woken := cond.woken ++ [waiter] }

/-- One of the woken threads takes the lock. -/
def run (pick : Nat) : Option (Waiter × ConditionVariable Waiter) :=
  (cond.woken[pick % cond.woken.length]?).map fun waiter =>
    (waiter,
      { cond with
        woken := cond.woken.eraseIdx (pick % cond.woken.length) })

/-- No thread waits with nobody woken. -/
def Supplied : Prop :=
  cond.waiting ≠ [] → cond.woken ≠ []

variable {cond}

theorem supplied_signal (pick : Nat) : (cond.signal pick).Supplied := by
  intro waits
  unfold signal at waits ⊢
  split at waits
  next absent =>
      have outside := List.getElem?_eq_none_iff.mp absent
      have empty : cond.waiting = [] := by
        by_contra filled
        exact absurd outside (not_le.mpr
          (Nat.mod_lt _ (List.length_pos_of_ne_nil filled)))
      exact absurd empty waits
  next =>
      exact List.append_ne_nil_of_right_ne_nil _ (List.cons_ne_nil _ _)

theorem run_eq_none_iff {pick : Nat} :
    cond.run pick = none ↔ cond.woken = [] := by
  unfold run
  rw [Option.map_eq_none_iff, List.getElem?_eq_none_iff]
  constructor
  · intro outside
    by_contra filled
    exact absurd outside (not_le.mpr
      (Nat.mod_lt _ (List.length_pos_of_ne_nil filled)))
  · intro empty
    rw [empty]
    exact Nat.zero_le _

/-- The last woken thread leaves nobody woken. -/
theorem run_eq_some {pick : Nat} {waiter : Waiter}
    {rest : ConditionVariable Waiter}
    (ran : cond.run pick = some (waiter, rest)) :
    rest.waiting = cond.waiting ∧
      (rest.woken = [] ↔ cond.woken.length = 1) := by
  unfold run at ran
  obtain ⟨_, found, same⟩ := Option.map_eq_some_iff.mp ran
  cases same
  have inside := List.getElem?_eq_some_iff.mp found |>.1
  refine ⟨rfl, ?_⟩
  rw [← List.length_eq_zero_iff, List.length_eraseIdx, if_pos inside]
  omega

end ConditionVariable

/-- The queue with its waiting threads, and the items that have entered and
left it. A waiting producer holds its item. -/
structure MTCircularQueue (T : Type) where
  queue : CircularQueue T
  full : ConditionVariable (Nat × T)
  empty : ConditionVariable Nat
  entered : List T
  left : List T

/-- A thread calls `push_wait` or `pop_wait`, or a woken thread runs on. -/
inductive QueueAction (T : Type) where
  | pushWait (thread : Nat) (t : T) (pick : Nat)
  | popWait (thread : Nat) (pick : Nat)
  | runProducer (which pick : Nat)
  | runConsumer (which pick : Nat)

namespace MTCircularQueue

variable {T : Type} (state : MTCircularQueue T)

def initial (size : Nat) (memory : Nat → T) : MTCircularQueue T :=
  ⟨.new size memory, ⟨[], []⟩, ⟨[], []⟩, [], []⟩

/-- The thread is inside of a call. -/
def busy (thread : Nat) : Bool :=
  (state.full.waiting ++ state.full.woken).any (·.1 == thread) ||
    (state.empty.waiting ++ state.empty.woken).any (· == thread)

def pushLocked (t : T) (pick : Nat) :
    Except QueueFailure (MTCircularQueue T) :=
  (state.queue.push t).map fun queue =>
    { state with
      queue := queue
      empty :=
        if state.queue.empty then state.empty.signal pick else state.empty
      entered := state.entered ++ [t] }

def popLocked (pick : Nat) : Except QueueFailure (MTCircularQueue T) :=
  state.queue.pop.map fun (t, queue) =>
    { state with
      queue := queue
      full := if state.queue.full then state.full.signal pick else state.full
      left := state.left ++ [t] }

/-- `full_wait_locked` up to the next wait, and `push_locked`. -/
def pushSection (thread : Nat) (t : T) (pick : Nat) :
    Except QueueFailure (MTCircularQueue T) :=
  if state.queue.full then
    .ok { state with full := state.full.wait (thread, t) }
  else
    state.pushLocked t pick

/-- `empty_wait_locked` up to the next wait, and `pop_locked`. -/
def popSection (thread : Nat) (pick : Nat) :
    Except QueueFailure (MTCircularQueue T) :=
  if state.queue.empty then
    .ok { state with empty := state.empty.wait thread }
  else
    state.popLocked pick

/-- A step that no thread can take changes nothing. -/
def step : QueueAction T → Except QueueFailure (MTCircularQueue T)
  | .pushWait thread t pick =>
      if state.busy thread then .ok state
      else state.pushSection thread t pick
  | .popWait thread pick =>
      if state.busy thread then .ok state
      else state.popSection thread pick
  | .runProducer which pick =>
      match state.full.run which with
      | none => .ok state
      | some ((thread, t), full) =>
          { state with full := full }.pushSection thread t pick
  | .runConsumer which pick =>
      match state.empty.run which with
      | none => .ok state
      | some (thread, empty) =>
          { state with empty := empty }.popSection thread pick

/-- Nobody waits for what is there, unless somebody has been woken for it. -/
structure Lawful : Prop where
  consumers : state.queue.empty = false → state.empty.Supplied
  producers : state.queue.full = false → state.full.Supplied

/-- The only woken thread that runs leaves nothing to those that wait. -/
def Meets : QueueAction T → Prop
  | .pushWait _ _ _ => True
  | .popWait _ _ => True
  | .runProducer _ _ =>
      state.full.woken.length = 1 → state.full.waiting ≠ [] →
        state.queue.mSize ≤ state.queue.size + 2
  | .runConsumer _ _ =>
      state.empty.woken.length = 1 → state.empty.waiting ≠ [] →
        state.queue.size ≤ 1

/-- The items leave in the order in which they have entered. -/
structure InOrder : Prop where
  ring : state.queue.InRing
  entered : state.entered = state.left ++ state.queue.contents

variable {state}

theorem InOrder.of_initial (size : Nat) (memory : Nat → T) :
    (initial size memory).InOrder where
  ring := .of_new size memory
  entered := (CircularQueue.contents_new size memory).symm

theorem Lawful.of_initial (size : Nat) (memory : Nat → T) :
    (initial size memory).Lawful where
  consumers := fun _ waits => absurd rfl waits
  producers := fun _ waits => absurd rfl waits

/-! ## The two sections -/

/-- A push keeps consumers supplied. The producers behind it are so unless
it is the last one woken and leaves room. -/
theorem InOrder.pushSection (inOrder : state.InOrder) (thread : Nat) (t : T)
    (pick : Nat) :
    ∃ next, state.pushSection thread t pick = .ok next ∧ next.InOrder ∧
      ((state.queue.empty = false → state.empty.Supplied) →
        (next.queue.empty = false → next.empty.Supplied)) ∧
      ((next.queue.full = false → next.full.Supplied) ↔
        (state.queue.size + 2 < state.queue.mSize →
          state.full.Supplied)) := by
  obtain ⟨ring, entered⟩ := inOrder
  unfold MTCircularQueue.pushSection
  rcases room : state.queue.full with _ | _
  · obtain ⟨queue, pushed, inRing, same, grown, contents⟩ :=
      ring.push_eq room t
    rw [if_neg Bool.false_ne_true, pushLocked, pushed]
    refine ⟨_, rfl, ⟨inRing, ?_⟩, fun supplied _ => ?_, ?_⟩
    · dsimp only
      rw [contents, entered, List.append_assoc]
    · dsimp only
      split
      next => exact ConditionVariable.supplied_signal pick
      next filled => exact supplied (Bool.not_eq_true _ ▸ filled)
    · have below := inRing.size_lt
      have stillRoom : queue.full = false ↔
          state.queue.size + 2 < state.queue.mSize := by
        rw [← Bool.not_eq_true, inRing.full_iff, same, grown]
        rw [same, grown] at below
        omega
      dsimp only
      rw [stillRoom]
  · have whole := ring.full_iff.mp room
    rw [if_pos rfl]
    refine ⟨_, rfl, ⟨ring, entered⟩, id, ?_⟩
    constructor
    · intro _ below
      omega
    · intro _ notFull
      exact absurd (notFull.symm.trans room) Bool.false_ne_true

/-- A pop keeps producers supplied. The consumers behind it are so unless it is
the last one woken and leaves an item. -/
theorem InOrder.popSection (inOrder : state.InOrder) (thread pick : Nat) :
    ∃ next, state.popSection thread pick = .ok next ∧ next.InOrder ∧
      ((state.queue.full = false → state.full.Supplied) →
        (next.queue.full = false → next.full.Supplied)) ∧
      ((next.queue.empty = false → next.empty.Supplied) ↔
        (1 < state.queue.size → state.empty.Supplied)) := by
  obtain ⟨ring, entered⟩ := inOrder
  unfold MTCircularQueue.popSection
  rcases filled : state.queue.empty with _ | _
  · obtain ⟨t, queue, popped, inRing, same, less, contents⟩ :=
      ring.pop_eq filled
    rw [if_neg Bool.false_ne_true, popLocked, popped]
    refine ⟨_, rfl, ⟨inRing, ?_⟩, fun supplied _ => ?_, ?_⟩
    · dsimp only
      rw [entered, contents, List.append_assoc]
      rfl
    · dsimp only
      split
      next => exact ConditionVariable.supplied_signal pick
      next room => exact supplied (Bool.not_eq_true _ ▸ room)
    · have stillItems : queue.empty = false ↔ 1 < state.queue.size := by
        rw [← Bool.not_eq_true, inRing.empty_iff]
        omega
      dsimp only
      rw [stillItems]
  · have nothing := ring.empty_iff.mp filled
    rw [if_pos rfl]
    refine ⟨_, rfl, ⟨ring, entered⟩, id, ?_⟩
    constructor
    · intro _ below
      omega
    · intro _ notEmpty
      exact absurd (notEmpty.symm.trans filled) Bool.false_ne_true

/-! ## Runs -/

/-- A step never fails, and what it does to a state without sleepers. -/
theorem step_exact (inOrder : state.InOrder) (action : QueueAction T) :
    ∃ next, state.step action = .ok next ∧ next.InOrder ∧
      (state.Lawful → (next.Lawful ↔ state.Meets action)) := by
  cases action with
  | pushWait thread t pick =>
      rw [step]
      split
      · exact ⟨state, rfl, inOrder,
          fun lawful => ⟨fun _ => trivial, fun _ => lawful⟩⟩
      · obtain ⟨next, stepped, kept, consumers, producers⟩ :=
          inOrder.pushSection thread t pick
        refine ⟨next, stepped, kept, fun lawful => ⟨fun _ => trivial,
          fun _ => ⟨consumers lawful.consumers, producers.mpr fun room => ?_⟩⟩⟩
        refine lawful.producers ?_
        rw [← Bool.not_eq_true, inOrder.ring.full_iff]
        omega
  | popWait thread pick =>
      rw [step]
      split
      · exact ⟨state, rfl, inOrder,
          fun lawful => ⟨fun _ => trivial, fun _ => lawful⟩⟩
      · obtain ⟨next, stepped, kept, producers, consumers⟩ :=
          inOrder.popSection thread pick
        refine ⟨next, stepped, kept, fun lawful => ⟨fun _ => trivial,
          fun _ => ⟨consumers.mpr fun items => ?_, producers lawful.producers⟩⟩⟩
        refine lawful.consumers ?_
        rw [← Bool.not_eq_true, inOrder.ring.empty_iff]
        omega
  | runProducer which pick =>
      rw [step]
      split
      next nobody =>
          have empty := ConditionVariable.run_eq_none_iff.mp nobody
          refine ⟨state, rfl, inOrder,
            fun lawful => ⟨fun _ single => ?_, fun _ => lawful⟩⟩
          rw [empty] at single
          cases single
      next thread t full ran =>
          obtain ⟨waiting, last⟩ := ConditionVariable.run_eq_some ran
          have running : InOrder { state with full := full } :=
            ⟨inOrder.ring, inOrder.entered⟩
          obtain ⟨next, stepped, kept, consumers, producers⟩ :=
            running.pushSection thread t pick
          refine ⟨next, stepped, kept, fun lawful =>
            ⟨fun lawfulNext single waits => ?_,
              fun meets => ⟨consumers lawful.consumers,
                producers.mpr fun room waits alone => ?_⟩⟩⟩
          · by_contra room
            exact producers.mp lawfulNext.producers (not_le.mp room)
              (waiting ▸ waits) (last.mpr single)
          · exact absurd (meets (last.mp alone) (waiting ▸ waits))
              (not_le.mpr room)
  | runConsumer which pick =>
      rw [step]
      split
      next nobody =>
          have empty := ConditionVariable.run_eq_none_iff.mp nobody
          refine ⟨state, rfl, inOrder,
            fun lawful => ⟨fun _ single => ?_, fun _ => lawful⟩⟩
          rw [empty] at single
          cases single
      next thread empty ran =>
          obtain ⟨waiting, last⟩ := ConditionVariable.run_eq_some ran
          have running : InOrder { state with empty := empty } :=
            ⟨inOrder.ring, inOrder.entered⟩
          obtain ⟨next, stepped, kept, producers, consumers⟩ :=
            running.popSection thread pick
          refine ⟨next, stepped, kept, fun lawful =>
            ⟨fun lawfulNext single waits => ?_,
              fun meets => ⟨consumers.mpr fun items waits alone => ?_,
                producers lawful.producers⟩⟩⟩
          · by_contra items
            exact consumers.mp lawfulNext.consumers (not_le.mp items)
              (waiting ▸ waits) (last.mpr single)
          · exact absurd (meets (last.mp alone) (waiting ▸ waits))
              (not_le.mpr items)

/-- Every run returns its items in order, and it loses no wake-up exactly if
no thread that runs as the only one woken leaves others behind in need. -/
theorem wake_ups_kept_iff (size : Nat) (memory : Nat → T)
    (actions : List (QueueAction T)) :
    (∃ state, actions.foldlM step (initial size memory) = .ok state ∧
      state.entered = state.left ++ state.queue.contents) ∧
    ((∀ reached, reached <+: actions → ∀ state,
        reached.foldlM step (initial size memory) = .ok state →
          state.Lawful) ↔
      Along step Meets actions (initial size memory)) := by
  refine ⟨?_, prefixes_iff_along InOrder (fun inOrder lawful => ?_)
    (.of_initial size memory) (.of_initial size memory)⟩
  · obtain ⟨state, run, inOrder⟩ := exists_foldlM_ok InOrder
      (fun inOrder action => by
        obtain ⟨next, stepped, kept, _⟩ := step_exact inOrder action
        exact ⟨next, stepped, kept⟩) actions (.of_initial size memory)
    exact ⟨state, run, inOrder.entered⟩
  · obtain ⟨next, stepped, kept, exactly⟩ := step_exact inOrder _
    exact ⟨next, stepped, kept, exactly lawful⟩

/-- Two consumers wait, two items are pushed, and the first consumer takes
one. -/
theorem second_consumer_sleeps :
    ¬ ∀ reached,
      reached <+: [QueueAction.popWait 1 0, .popWait 2 0, .pushWait 3 10 0,
        .pushWait 3 20 0, .runConsumer 0 0] →
      ∀ state : MTCircularQueue Nat,
        reached.foldlM step (initial 2 id) = .ok state → state.Lawful := by
  intro always
  have lawful := always _ (List.prefix_refl _) _ rfl
  exact lawful.consumers rfl (by decide) (by decide)

end MTCircularQueue

end ChipletSniper.Misc
