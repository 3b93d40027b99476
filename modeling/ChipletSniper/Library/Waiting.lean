import Mathlib.Data.List.Nodup
import Mathlib.Logic.Function.Basic

/-!
# Queues of stalled threads

A family of queues in which every stalled thread waits in exactly one place.
-/

namespace ChipletSniper.Library

open Function

section

variable {Place Thread : Type*}

/-- The stalled threads are those of the queues, and none of them is queued
twice. -/
structure Parked (queue : Place → List Thread) (Stalled : Thread → Prop) :
    Prop where
  nodup : ∀ place, (queue place).Nodup
  same_place : ∀ {thread first second},
    thread ∈ queue first → thread ∈ queue second → first = second
  stalled_iff : ∀ {thread}, Stalled thread ↔ ∃ place, thread ∈ queue place

namespace Parked

variable {queue : Place → List Thread} {Stalled : Thread → Prop}

/-- Nobody waits. -/
theorem of_empty (empty : ∀ place, queue place = [])
    (awake : ∀ thread, ¬ Stalled thread) : Parked queue Stalled where
  nodup := fun place => empty place ▸ List.nodup_nil
  same_place := by
    intro thread first second member
    rw [empty first] at member
    cases member
  stalled_iff := by
    intro thread
    constructor
    · exact fun stalled => absurd stalled (awake thread)
    · rintro ⟨place, member⟩
      rw [empty place] at member
      cases member

theorem stalled (parked : Parked queue Stalled) {thread : Thread}
    {place : Place} (member : thread ∈ queue place) :
    Stalled thread :=
  parked.stalled_iff.mpr ⟨place, member⟩

theorem not_mem (parked : Parked queue Stalled) {thread : Thread}
    (awake : ¬ Stalled thread) (place : Place) :
    thread ∉ queue place :=
  fun member => awake (parked.stalled member)

theorem of_eq (parked : Parked queue Stalled) {other : Place → List Thread}
    {Still : Thread → Prop} (queues : ∀ place, other place = queue place)
    (same : ∀ thread, Still thread ↔ Stalled thread) :
    Parked other Still := by
  obtain rfl : other = queue := funext queues
  obtain rfl : Still = Stalled := funext fun thread => propext (same thread)
  exact parked

/-- Exactly one place holds a stalled thread. -/
theorem existsUnique (parked : Parked queue Stalled) {thread : Thread}
    (still : Stalled thread) :
    ∃! place, thread ∈ queue place := by
  obtain ⟨place, member⟩ := parked.stalled_iff.mp still
  exact ⟨place, member, fun other also => parked.same_place also member⟩

variable [DecidableEq Place]

/-- A thread that is awake stalls at the end of a queue. -/
theorem push (parked : Parked queue Stalled) {thread : Thread}
    (awake : ¬ Stalled thread) (place : Place) :
    Parked (update queue place (queue place ++ [thread]))
      (fun other => other = thread ∨ Stalled other) := by
  have absent := parked.not_mem awake
  have here : ∀ {other spot},
      other ∈ update queue place (queue place ++ [thread]) spot ↔
        (spot = place ∧ other = thread) ∨ other ∈ queue spot := by
    intro other spot
    by_cases same : spot = place
    · subst same
      simp [or_comm]
    · simp [same]
  refine ⟨?_, ?_, ?_⟩
  · intro spot
    by_cases same : spot = place
    · subst same
      rw [update_self]
      exact (parked.nodup spot).append (List.nodup_singleton thread) <| by
        simpa using absent spot
    · rw [update_of_ne same]
      exact parked.nodup spot
  · intro other first second inFirst inSecond
    rcases here.mp inFirst with ⟨atPlace, rfl⟩ | inside
    · rcases here.mp inSecond with ⟨also, _⟩ | inside
      · exact atPlace.trans also.symm
      · exact absurd inside (absent second)
    · rcases here.mp inSecond with ⟨_, rfl⟩ | also
      · exact absurd inside (absent first)
      · exact parked.same_place inside also
  · intro other
    rw [parked.stalled_iff]
    simp only [here, exists_or, exists_and_right, exists_eq, true_and]

/-- A thread leaves its queue, from whatever position, and is awake. -/
theorem remove (parked : Parked queue Stalled) {thread : Thread}
    {place : Place} {before after : List Thread}
    (split : queue place = before ++ thread :: after) :
    Parked (update queue place (before ++ after))
      (fun other => other ≠ thread ∧ Stalled other) := by
  have member : thread ∈ queue place := by simp [split]
  have nodup := parked.nodup place
  rw [split, List.nodup_middle, List.nodup_cons] at nodup
  have inside : ∀ {other}, other ∈ before ++ after ↔
      other ≠ thread ∧ other ∈ queue place := by
    intro other
    constructor
    · intro kept
      refine ⟨fun same => nodup.1 (same ▸ kept), ?_⟩
      rw [split]
      simp only [List.mem_append, List.mem_cons] at kept ⊢
      exact kept.imp_right .inr
    · rintro ⟨different, kept⟩
      rw [split] at kept
      simp only [List.mem_append, List.mem_cons] at kept ⊢
      exact kept.imp_right fun rest => rest.resolve_left different
  have here : ∀ {other spot},
      other ∈ update queue place (before ++ after) spot ↔
        other ≠ thread ∧ other ∈ queue spot := by
    intro other spot
    by_cases same : spot = place
    · subst same
      rw [update_self, inside]
    · rw [update_of_ne same]
      refine ⟨fun kept => ⟨?_, kept⟩, And.right⟩
      rintro rfl
      exact same (parked.same_place kept member)
  refine ⟨?_, ?_, ?_⟩
  · intro spot
    by_cases same : spot = place
    · subst same
      rw [update_self]
      exact nodup.2
    · rw [update_of_ne same]
      exact parked.nodup spot
  · intro other first second inFirst inSecond
    exact parked.same_place (here.mp inFirst).2 (here.mp inSecond).2
  · intro other
    rw [parked.stalled_iff]
    simp only [here, exists_and_left]

/-- A stalled thread goes from one queue to the end of another. -/
theorem move (parked : Parked queue Stalled) {thread : Thread}
    {place target : Place} {before after : List Thread}
    (split : queue place = before ++ thread :: after)
    (apart : target ≠ place) :
    Parked
      (update (update queue place (before ++ after)) target
        (queue target ++ [thread])) Stalled := by
  have member : thread ∈ queue place := by simp [split]
  have away : ¬ (thread ≠ thread ∧ Stalled thread) := fun still => still.1 rfl
  have pushed := (parked.remove split).push away target
  rw [update_of_ne apart] at pushed
  refine pushed.of_eq (fun _ => rfl) fun other => ?_
  constructor
  · intro still
    by_cases same : other = thread
    · exact .inl same
    · exact .inr ⟨same, still⟩
  · rintro (rfl | ⟨_, still⟩)
    · exact parked.stalled member
    · exact still

/-- All the threads of a queue leave it. -/
theorem clear (parked : Parked queue Stalled) (place : Place) :
    Parked (update queue place [])
      (fun other => other ∉ queue place ∧ Stalled other) := by
  have here : ∀ {other spot},
      other ∈ update queue place [] spot ↔
        other ∉ queue place ∧ other ∈ queue spot := by
    intro other spot
    by_cases same : spot = place
    · subst same
      simp
    · rw [update_of_ne same]
      exact ⟨fun kept => ⟨fun also => same (parked.same_place kept also), kept⟩,
        And.right⟩
  refine ⟨?_, ?_, ?_⟩
  · intro spot
    by_cases same : spot = place
    · subst same
      simp
    · rw [update_of_ne same]
      exact parked.nodup spot
  · intro other first second inFirst inSecond
    exact parked.same_place (here.mp inFirst).2 (here.mp inSecond).2
  · intro other
    rw [parked.stalled_iff]
    simp only [here, exists_and_left]

end Parked

end

end ChipletSniper.Library
