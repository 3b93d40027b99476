import ChipletSniper.Library.RingBuffer

/-!
# The circular queue

A queue of at most `size - 1` items in a ring of `size` slots.
-/

namespace ChipletSniper.Misc

open Library (length_ringContents mod_turn ringContents ringContents_pop
  ringContents_push)

/-- The assertions of the queue. -/
inductive QueueFailure where
  | full
  | empty
  deriving DecidableEq, Repr

/-- `CircularQueue`. Slots outside of the queue hold whatever was there. -/
structure CircularQueue (T : Type) where
  mSize : Nat
  first : Nat
  last : Nat
  queue : Nat → T

namespace CircularQueue

variable {T : Type} (queue : CircularQueue T)

/-- A queue in uninitialised memory. -/
def new (size : Nat) (memory : Nat → T) : CircularQueue T :=
  ⟨size + 1, 0, 0, memory⟩

def full : Bool :=
  (queue.first + 1) % queue.mSize == queue.last

def empty : Bool :=
  queue.first == queue.last

def size : Nat :=
  (queue.first + queue.mSize - queue.last) % queue.mSize

def push (t : T) : Except QueueFailure (CircularQueue T) :=
  if queue.full then
    .error .full
  else
    .ok { queue with
      queue := Function.update queue.queue queue.first t
      first := (queue.first + 1) % queue.mSize }

def pop : Except QueueFailure (T × CircularQueue T) :=
  if queue.empty then
    .error .empty
  else
    .ok (queue.queue queue.last,
      { queue with last := (queue.last + 1) % queue.mSize })

/-- The items, in the order in which `operator[]` finds them. -/
def contents : List T :=
  ringContents queue.queue queue.mSize queue.last queue.size

/-- The two ends lie in the ring. -/
structure InRing : Prop where
  first_lt : queue.first < queue.mSize
  last_lt : queue.last < queue.mSize

variable {queue}

theorem InRing.of_new (size : Nat) (memory : Nat → T) :
    (new size memory).InRing :=
  ⟨Nat.succ_pos size, Nat.succ_pos size⟩

theorem contents_new (size : Nat) (memory : Nat → T) :
    (new size memory).contents = [] := by
  have none : (new size memory).size = 0 := by
    dsimp only [new, CircularQueue.size]
    rw [Nat.zero_add, Nat.sub_zero, Nat.mod_self]
  unfold contents
  rw [none]
  rfl

namespace InRing

theorem size_eq (ring : queue.InRing) :
    queue.size =
      if queue.last ≤ queue.first then queue.first - queue.last
      else queue.first + queue.mSize - queue.last := by
  have firstInside := ring.first_lt
  have lastInside := ring.last_lt
  unfold size
  rw [mod_turn (by omega)]
  split <;> split <;> omega

theorem empty_iff (ring : queue.InRing) :
    queue.empty = true ↔ queue.size = 0 := by
  have firstInside := ring.first_lt
  have lastInside := ring.last_lt
  unfold empty
  rw [ring.size_eq, beq_iff_eq]
  split <;> omega

theorem full_iff (ring : queue.InRing) :
    queue.full = true ↔ queue.size + 1 = queue.mSize := by
  have firstInside := ring.first_lt
  have lastInside := ring.last_lt
  unfold full
  rw [ring.size_eq, beq_iff_eq, mod_turn (by omega)]
  split <;> split <;> omega

theorem size_lt (ring : queue.InRing) : queue.size < queue.mSize :=
  Nat.mod_lt _ (Nat.lt_of_le_of_lt (Nat.zero_le _) ring.first_lt)

theorem first_eq (ring : queue.InRing) :
    queue.first = (queue.last + queue.size) % queue.mSize := by
  have firstInside := ring.first_lt
  have lastInside := ring.last_lt
  rw [ring.size_eq]
  split
  next => rw [mod_turn (by omega)]; split <;> omega
  next => rw [mod_turn (by omega)]; split <;> omega

/-- A queue that is not full takes an item behind the others. -/
theorem push_eq (ring : queue.InRing) (room : queue.full = false) (t : T) :
    ∃ next, queue.push t = .ok next ∧ next.InRing ∧
      next.mSize = queue.mSize ∧ next.size = queue.size + 1 ∧
      next.contents = queue.contents ++ [t] := by
  have firstInside := ring.first_lt
  have lastInside := ring.last_lt
  have positive : 0 < queue.mSize := by omega
  have notFull : ¬ queue.size + 1 = queue.mSize := fun same =>
    Bool.false_ne_true (room.symm.trans (ring.full_iff.mpr same))
  have below := ring.size_lt
  refine ⟨_, if_neg (room ▸ Bool.false_ne_true),
    ⟨Nat.mod_lt _ positive, lastInside⟩, rfl, ?_⟩
  have kept : InRing { queue with
      queue := Function.update queue.queue queue.first t
      first := (queue.first + 1) % queue.mSize } :=
    ⟨Nat.mod_lt _ positive, lastInside⟩
  have grown : size { queue with
      queue := Function.update queue.queue queue.first t
      first := (queue.first + 1) % queue.mSize } = queue.size + 1 := by
    rw [kept.size_eq]
    rw [ring.size_eq] at notFull ⊢
    dsimp only
    rw [mod_turn (by omega)]
    split at notFull <;> split <;> split <;> omega
  refine ⟨grown, ?_⟩
  unfold contents
  rw [grown]
  dsimp only
  rw [ring.first_eq]
  exact ringContents_push queue.queue queue.last below t

/-- A queue that is not empty gives its first item. -/
theorem pop_eq (ring : queue.InRing) (filled : queue.empty = false) :
    ∃ t next, queue.pop = .ok (t, next) ∧ next.InRing ∧
      next.mSize = queue.mSize ∧ next.size + 1 = queue.size ∧
      queue.contents = t :: next.contents := by
  have firstInside := ring.first_lt
  have lastInside := ring.last_lt
  have positive : 0 < queue.mSize := by omega
  have notEmpty : ¬ queue.size = 0 := fun same =>
    Bool.false_ne_true (filled.symm.trans (ring.empty_iff.mpr same))
  have kept : InRing { queue with
      last := (queue.last + 1) % queue.mSize } :=
    ⟨firstInside, Nat.mod_lt _ positive⟩
  have less : size { queue with
      last := (queue.last + 1) % queue.mSize } + 1 = queue.size := by
    rw [kept.size_eq]
    rw [ring.size_eq] at notEmpty ⊢
    dsimp only
    rw [mod_turn (by omega)]
    split at notEmpty <;> split <;> split <;> omega
  refine ⟨queue.queue queue.last, _, if_neg (filled ▸ Bool.false_ne_true),
    kept, rfl, less, ?_⟩
  unfold contents
  rw [← less, ringContents_pop, Nat.mod_eq_of_lt lastInside]

end InRing

end CircularQueue

end ChipletSniper.Misc
