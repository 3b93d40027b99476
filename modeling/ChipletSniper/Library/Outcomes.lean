import Mathlib.Logic.Basic

/-!
# Outcomes of computations that may fail

A computation ends with a value that meets a postcondition, or with an error
that is allowed.
-/

namespace ChipletSniper.Library

universe u

variable {Error Item : Type*} {Value Result : Type u}

/-- The value meets the postcondition, or the error is allowed. -/
def Outcome (allowed : Error → Prop) (post : Value → Prop) :
    Except Error Value → Prop
  | .ok value => post value
  | .error error => allowed error

namespace Outcome

variable {allowed : Error → Prop} {post : Value → Prop}
variable {result : Except Error Value}

theorem of_ok (outcome : Outcome allowed post result) {value : Value}
    (run : result = .ok value) : post value := by
  rw [run] at outcome
  exact outcome

/-- What is known of the value separately. -/
theorem strengthen {other : Value → Prop}
    (outcome : Outcome allowed post result)
    (known : ∀ value, result = .ok value → post value → other value) :
    Outcome allowed other result := by
  cases result with
  | ok value => exact known value rfl outcome
  | error failure => exact outcome

theorem mono {other : Value → Prop} (weaker : ∀ value, post value → other value)
    (outcome : Outcome allowed post result) : Outcome allowed other result :=
  outcome.strengthen fun value _ kept => weaker value kept

/-- One computation after another. -/
theorem bind {next : Value → Except Error Result} {final : Result → Prop}
    (outcome : Outcome allowed post result)
    (later : ∀ value, post value → Outcome allowed final (next value)) :
    Outcome allowed final (result >>= next) := by
  cases result with
  | ok value => exact later value outcome
  | error failure => exact outcome

theorem map {change : Value → Result} {final : Result → Prop}
    (outcome : Outcome allowed post result)
    (later : ∀ value, post value → final (change value)) :
    Outcome allowed final (result.map change) := by
  cases result with
  | ok value => exact later value outcome
  | error failure => exact outcome

/-- A loop whose steps keep an invariant, each for the item that is next. -/
theorem foldlM {step : Value → Item → Except Error Value} {items : List Item}
    (keeps : ∀ item ∈ items, ∀ value, post value →
      Outcome allowed post (step value item))
    {first : Value} (start : post first) :
    Outcome allowed post (items.foldlM step first) := by
  induction items generalizing first with
  | nil => exact start
  | cons item rest ih =>
      rw [List.foldlM_cons]
      apply Outcome.bind (keeps item List.mem_cons_self first start)
      intro value kept
      apply ih _ kept
      exact fun other member => keeps other (List.mem_cons_of_mem _ member)

end Outcome

end ChipletSniper.Library
