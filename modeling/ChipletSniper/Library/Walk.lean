import Mathlib.Logic.Relation
import Mathlib.Order.Basic

/-!
# Walks of a partial step function

A walk follows `step` from a source until `step` is undefined.  To show that a
walk meets its target one gives a quantity that every step lowers; to show
that it never does one gives a set that no step leaves.
-/

namespace ChipletSniper.Library

universe u

section Walk

variable {State : Type u} (step : State → Option State)

/-- The state after `count` steps. -/
def after : Nat → State → Option State
  | 0, state => some state
  | count + 1, state => (step state).bind (after count)

/-- The walk from `source` meets `target`. -/
def Visits (source target : State) : Prop :=
  ∃ count, after step count source = some target

variable {step}

theorem Visits.refl (state : State) : Visits step state state :=
  ⟨0, rfl⟩

theorem Visits.head {source middle target : State}
    (first : step source = some middle)
    (rest : Visits step middle target) :
    Visits step source target := by
  obtain ⟨count, reached⟩ := rest
  exact ⟨count + 1, by simp [after, first, reached]⟩

/-- A walk that meets its target still does so if it stops there. -/
theorem Visits.stopping [DecidableEq State] {source target : State}
    (visits : Visits step source target) :
    Visits (fun state => if state = target then none else step state) source
      target := by
  obtain ⟨count, reached⟩ := visits
  induction count generalizing source with
  | zero =>
      cases reached
      exact Visits.refl _
  | succ count ih =>
      by_cases there : source = target
      · rw [there]
        exact Visits.refl _
      · cases taken : step source with
        | none => simp [after, taken] at reached
        | some next =>
            simp only [after, taken, Option.bind_some] at reached
            exact Visits.head (by simp [there, taken])
              (ih reached)

theorem after_add (first second : Nat) (source : State) :
    after step (first + second) source =
      (after step first source).bind (after step second) := by
  induction first generalizing source with
  | zero => simp [after]
  | succ first ih =>
      rw [Nat.add_right_comm]
      simp only [after]
      cases step source with
      | none => rfl
      | some middle => simpa using ih middle

theorem Visits.trans {source middle target : State}
    (first : Visits step source middle)
    (second : Visits step middle target) :
    Visits step source target := by
  obtain ⟨count, reached⟩ := first
  obtain ⟨count', reached'⟩ := second
  exact ⟨count + count', by simp [after_add, reached, reached']⟩

/-- A walk stops in one place only. -/
theorem after_unique {source last last' : State} {count count' : Nat}
    (stops : step last = none) (stops' : step last' = none)
    (reached : after step count source = some last)
    (reached' : after step count' source = some last') : last = last' := by
  induction count generalizing source count' with
  | zero =>
      cases reached
      cases count' with
      | zero => exact Option.some.inj reached'
      | succ count' => simp [after, stops] at reached'
  | succ count ih =>
      obtain ⟨next, taken, rest⟩ := Option.bind_eq_some_iff.mp reached
      cases count' with
      | zero =>
          cases reached'
          rw [stops'] at taken
          cases taken
      | succ count' =>
          simp only [after, taken, Option.bind_some] at reached'
          exact ih rest reached'

/-- A walk whose steps lower a rank as long as no goal is met meets one. -/
theorem exists_after_of_rank (Good Goal : State → Prop) (rank : State → Nat)
    (progress : ∀ state, Good state → ¬ Goal state →
      ∃ next, step state = some next ∧ Good next ∧ rank next < rank state) :
    ∀ source, Good source →
      ∃ count state, after step count source = some state ∧ Good state ∧
        Goal state := by
  intro source
  induction bound : rank source using Nat.strongRecOn generalizing
    source with
  | ind height ih =>
      intro good
      by_cases arrived : Goal source
      · exact ⟨0, source, rfl, good, arrived⟩
      · obtain ⟨next, taken, nextGood, lower⟩ := progress source good arrived
        obtain ⟨count, state, reached, stateGood, goal⟩ :=
          ih (rank next) (bound ▸ lower) next rfl nextGood
        exact ⟨count + 1, state, by simp [after, taken, reached], stateGood,
          goal⟩

/-- A walk whose steps lower a rank as long as the target is not met meets
it. -/
theorem visits_of_rank {target : State}
    (Good : State → Prop) (rank : State → Nat)
    (progress : ∀ state, Good state → state ≠ target →
      ∃ next, step state = some next ∧ Good next ∧ rank next < rank state) :
    ∀ source, Good source → Visits step source target := by
  intro source good
  obtain ⟨count, state, reached, _, rfl⟩ :=
    exists_after_of_rank Good (· = target) rank progress source good
  exact ⟨count, reached⟩

/-- A walk that ends at the target, and whose steps lower a rank by one until
then, takes as many steps as the rank of the source. -/
theorem after_iff_of_exact {target : State}
    (Good : State → Prop) (rank : State → Nat)
    (stops : step target = none) (arrived : rank target = 0)
    (progress : ∀ state, Good state → state ≠ target →
      ∃ next, step state = some next ∧ Good next ∧
        rank next + 1 = rank state) :
    ∀ source, Good source → ∀ count,
      after step count source = some target ↔ count = rank source := by
  intro source good count
  induction count generalizing source with
  | zero =>
      simp only [after, Option.some.injEq]
      constructor
      · rintro rfl
        exact arrived.symm
      · intro none
        by_contra apart
        obtain ⟨_, _, _, lower⟩ := progress source good apart
        omega
  | succ count ih =>
      by_cases there : source = target
      · subst there
        simp [after, stops, arrived]
      · obtain ⟨next, taken, nextGood, lower⟩ := progress source good there
        simp only [after, taken, Option.bind_some]
        rw [ih next nextGood]
        omega

/-- The states in which the first `count` steps are taken. -/
def trail (step : State → Option State) : Nat → State → List State
  | 0, _ => []
  | count + 1, state =>
      match step state with
      | none => []
      | some next => state :: trail step count next

/-- What is collected along a walk to the target is what every step takes off
the total. -/
theorem flatMap_trail {Item : Type*} {target : State}
    (Good : State → Prop) (items total : State → List Item)
    (stops : step target = none) (arrived : total target = [])
    (progress : ∀ state next, Good state → state ≠ target →
      step state = some next →
        Good next ∧ total state = items state ++ total next) :
    ∀ count source, Good source → after step count source = some target →
      (trail step count source).flatMap items = total source := by
  intro count
  induction count with
  | zero =>
      intro source _ reached
      cases reached
      exact arrived.symm
  | succ count ih =>
      intro source good reached
      cases taken : step source with
      | none => simp [after, taken] at reached
      | some next =>
          simp only [after, taken, Option.bind_some] at reached
          have apart : source ≠ target := by
            rintro rfl
            rw [stops] at taken
            cases taken
          obtain ⟨nextGood, whole⟩ := progress source next good apart taken
          simp only [trail, taken, List.flatMap_cons]
          rw [ih next nextGood reached, whole]

/-- The steps of one kind on a walk to the target, if each of them lowers a
rank by one and no other step changes it. -/
theorem countP_trail {target : State} (Good : State → Prop)
    (kind : State → Bool) (rank : State → Nat)
    (stops : step target = none) (arrived : rank target = 0)
    (progress : ∀ state next, Good state → state ≠ target →
      step state = some next →
        Good next ∧ rank state = (if kind state then 1 else 0) + rank next) :
    ∀ count source, Good source → after step count source = some target →
      (trail step count source).countP kind = rank source := by
  intro count
  induction count with
  | zero =>
      intro source _ reached
      cases reached
      exact arrived.symm
  | succ count ih =>
      intro source good reached
      cases taken : step source with
      | none => simp [after, taken] at reached
      | some next =>
          simp only [after, taken, Option.bind_some] at reached
          have apart : source ≠ target := by
            rintro rfl
            rw [stops] at taken
            cases taken
          obtain ⟨nextGood, whole⟩ := progress source next good apart taken
          simp only [trail, taken, List.countP_cons]
          rw [ih next nextGood reached, whole]
          exact Nat.add_comm _ _

/-- A property that no step leaves holds along the walk. -/
theorem after_of_closed (Inside : State → Prop)
    (closed : ∀ state next,
      Inside state → step state = some next → Inside next) :
    ∀ count source state,
      Inside source → after step count source = some state →
        Inside state := by
  intro count
  induction count with
  | zero =>
      intro source state inside reached
      cases reached
      exact inside
  | succ count ih =>
      intro source state inside reached
      cases taken : step source with
      | none => simp [after, taken] at reached
      | some next =>
          simp only [after, taken, Option.bind_some] at reached
          exact ih next state
            (closed source next inside taken) reached

/-- A walk inside a set that no step leaves misses every target outside. -/
theorem not_visits_of_closed {source target : State}
    (Inside : State → Prop)
    (closed : ∀ state next,
      Inside state → step state = some next → Inside next)
    (inside : Inside source) (outside : ¬ Inside target) :
    ¬ Visits step source target := by
  rintro ⟨count, reached⟩
  exact outside (after_of_closed Inside closed count source target inside
    reached)

/-- A walk meets safe states only exactly if its source is clear: clear states
are safe and followed by clear ones, and a safe state that is not clear is
followed by one that is not clear either, and closer to trouble. -/
theorem forall_after_iff {Safe : State → Prop} (Good Clear : State → Prop)
    (rank : State → Nat)
    (kept : ∀ state, Good state → Clear state →
      Safe state ∧ ∀ next, step state = some next → Good next ∧ Clear next)
    (trouble : ∀ state, Good state → ¬ Clear state → Safe state →
      ∃ next, step state = some next ∧ Good next ∧ ¬ Clear next ∧
        rank next < rank state)
    {source : State} (good : Good source) :
    (∀ count state, after step count source = some state → Safe state) ↔
      Clear source := by
  constructor
  · intro safe
    by_contra unclear
    obtain ⟨count, state, reached, _, unsafeState⟩ :=
      exists_after_of_rank (fun state => Good state ∧ ¬ Clear state)
        (fun state => ¬ Safe state) rank
        (by
          rintro state ⟨good, unclear⟩ stillSafe
          obtain ⟨next, taken, nextGood, nextUnclear, lower⟩ :=
            trouble state good unclear (not_not.mp stillSafe)
          exact ⟨next, taken, ⟨nextGood, nextUnclear⟩, lower⟩)
        source ⟨good, unclear⟩
    exact unsafeState (safe count state reached)
  · intro clear count state reached
    obtain ⟨stateGood, stateClear⟩ :=
      after_of_closed (fun state => Good state ∧ Clear state)
        (fun state next inside taken =>
          (kept state inside.1 inside.2).2 next taken)
        count source state ⟨good, clear⟩ reached
    exact (kept state stateGood stateClear).1

end Walk

/-- A relation that raises a rank has no cycle. -/
theorem acyclic_of_rank {State : Type u} {Rank : Type*} [Preorder Rank]
    {related : State → State → Prop} (rank : State → Rank)
    (raises : ∀ first second, related first second →
      rank first < rank second) :
    ∀ state, ¬ Relation.TransGen related state state := by
  intro state cycle
  have increasing : ∀ {first second : State},
      Relation.TransGen related first second → rank first < rank second := by
    intro first second path
    induction path with
    | single edge => exact raises _ _ edge
    | tail _ edge shorter => exact lt_trans shorter (raises _ _ edge)
  exact lt_irrefl _ (increasing cycle)

end ChipletSniper.Library
