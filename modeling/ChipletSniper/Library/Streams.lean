import ChipletSniper.Library.Bytes
import Mathlib.Logic.Relation

/-!
# Two processes joined by two byte streams

A process sends bytes, and receives a number of bytes when that many have
arrived; a loop starts its body again with a new state until the body returns.
Each of the two processes only appends to one stream and only consumes the
other, so the order in which they take their steps does not matter.
-/

namespace ChipletSniper.Library

open Relation

universe u v

/-- A process up to its result. -/
inductive Process (Result : Type u) where
  | done (result : Result)
  | send (bytes : List Byte) (next : Process Result)
  | receive (count : Nat) (next : List Byte → Process Result)
  /-- The process is aborted. -/
  | abort

namespace Process

variable {Result Other : Type*}

def bind : Process Result → (Result → Process Other) → Process Other
  | done result, next => next result
  | send bytes rest, next => send bytes (rest.bind next)
  | receive count rest, next => receive count fun bytes => (rest bytes).bind next
  | abort, _ => abort

def map (change : Result → Other) (process : Process Result) : Process Other :=
  process.bind fun result => done (change result)

@[simp] theorem bind_send (bytes : List Byte) (rest : Process Result)
    (next : Result → Process Other) :
    (send bytes rest).bind next = send bytes (rest.bind next) := rfl

@[simp] theorem bind_receive (count : Nat) (rest : List Byte → Process Result)
    (next : Result → Process Other) :
    (receive count rest).bind next =
      receive count fun bytes => (rest bytes).bind next := rfl

@[simp] theorem bind_done_right (process : Process Result) :
    process.bind done = process := by
  induction process with
  | done result => rfl
  | send bytes rest ih =>
      rw [bind_send, ih]
  | receive count rest ih =>
      rw [bind_receive]
      exact congrArg _ (funext ih)
  | abort => rfl

/-- The process with all its input at hand: the result, the input that is left
and the bytes sent. -/
def run : Process Result → List Byte → Option (Result × List Byte × List Byte)
  | done result, input => some (result, input, [])
  | send bytes rest, input =>
      (rest.run input).map fun (result, left, sent) =>
        (result, left, bytes ++ sent)
  | receive count rest, input =>
      if count ≤ input.length then
        (rest (input.take count)).run (input.drop count)
      else
        none
  | abort, _ => none

@[simp] theorem run_done (result : Result) (input : List Byte) :
    (done result).run input = some (result, input, []) := rfl

/-- A process that receives exactly the bytes that come first. -/
theorem run_receive_append {count : Nat} {chunk rest : List Byte}
    {next : List Byte → Process Result} (length : chunk.length = count) :
    (receive count next).run (chunk ++ rest) = (next chunk).run rest := by
  subst length
  simp [run]

/-- A process that receives all the bytes that there are. -/
theorem run_receive_all {count : Nat} {chunk : List Byte}
    {next : List Byte → Process Result} (length : chunk.length = count) :
    (receive count next).run chunk = (next chunk).run [] := by
  subst length
  simp [run]

theorem run_send {bytes input left sent : List Byte} {rest : Process Result}
    {result : Result} (ran : rest.run input = some (result, left, sent)) :
    (send bytes rest).run input = some (result, left, bytes ++ sent) := by
  simp [run, ran]

theorem run_bind {process : Process Result} {next : Result → Process Other}
    {input middle first left second : List Byte} {result : Result}
    {last : Other} (ran : process.run input = some (result, middle, first))
    (later : (next result).run middle = some (last, left, second)) :
    (process.bind next).run input = some (last, left, first ++ second) := by
  induction process generalizing input first with
  | done value =>
      cases ran
      exact later
  | send bytes rest ih =>
      obtain ⟨⟨value, remaining, sent⟩, inner, same⟩ :=
        Option.map_eq_some_iff.mp ran
      cases same
      rw [List.append_assoc]
      exact run_send (ih inner)
  | receive count rest ih =>
      simp only [run] at ran
      split at ran
      next enough =>
        simp only [bind_receive, run, enough, if_true]
        exact ih _ ran
      · cases ran
  | abort => cases ran

theorem run_map {process : Process Result} {input left sent : List Byte}
    {result : Result} (change : Result → Other)
    (ran : process.run input = some (result, left, sent)) :
    (process.map change).run input = some (change result, left, sent) := by
  have mapped : (process.bind fun result => done (change result)).run input =
      some (change result, left, sent ++ []) :=
    run_bind ran (run_done (change result) left)
  rwa [List.append_nil] at mapped

end Process

/-- A step of one side: what it becomes, the input that is left and what it
sends. -/
def Process.advance {State Result : Type*} (body : State → Process (State ⊕ Result)) :
    Process (State ⊕ Result) → List Byte →
      Option (Process (State ⊕ Result) × List Byte × List Byte)
  | .done (.inl state), input => some (body state, input, [])
  | .done (.inr _), _ => none
  | .send bytes next, input => some (next, input, bytes)
  | .receive count next, input =>
      if count ≤ input.length then
        some (next (input.take count), input.drop count, [])
      else
        none
  | .abort, _ => none

/-- More input does not change a step. -/
theorem Process.advance_append {State Result : Type*}
    {body : State → Process (State ⊕ Result)}
    {process next : Process (State ⊕ Result)} {input left sent : List Byte}
    (stepped : Process.advance body process input = some (next, left, sent))
    (more : List Byte) :
    Process.advance body process (input ++ more) = some (next, left ++ more, sent) := by
  cases process with
  | done result =>
      cases result with
      | inl state =>
          cases stepped
          rfl
      | inr result => cases stepped
  | send bytes rest =>
      cases stepped
      rfl
  | receive count rest =>
      simp only [Process.advance] at stepped ⊢
      split at stepped
      next enough =>
        cases stepped
        have longer : count ≤ (input ++ more).length := by
          rw [List.length_append]
          exact Nat.le_add_right_of_le enough
        rw [if_pos longer, List.take_append_of_le_length enough,
          List.drop_append_of_le_length enough]
      · cases stepped
  | abort => cases stepped

/-- Two loops and the streams between them. -/
structure Duplex (Left LeftResult Right RightResult : Type*) where
  left : Process (Left ⊕ LeftResult)
  right : Process (Right ⊕ RightResult)
  toLeft : List Byte
  toRight : List Byte

namespace Duplex

variable {Left LeftResult Right RightResult : Type*}
  (leftBody : Left → Process (Left ⊕ LeftResult))
  (rightBody : Right → Process (Right ⊕ RightResult))

def stepLeft (duplex : Duplex Left LeftResult Right RightResult) :
    Option (Duplex Left LeftResult Right RightResult) :=
  (Process.advance leftBody duplex.left duplex.toLeft).map fun (next, rest, sent) =>
    { duplex with
      left := next
      toLeft := rest
      toRight := duplex.toRight ++ sent }

def stepRight (duplex : Duplex Left LeftResult Right RightResult) :
    Option (Duplex Left LeftResult Right RightResult) :=
  (Process.advance rightBody duplex.right duplex.toRight).map fun (next, rest, sent) =>
    { duplex with
      right := next
      toRight := rest
      toLeft := duplex.toLeft ++ sent }

/-- Either side takes a step. -/
def Step (before after : Duplex Left LeftResult Right RightResult) : Prop :=
  before.stepLeft leftBody = some after ∨
    before.stepRight rightBody = some after

/-- A run of so many steps. -/
inductive Steps : Nat → Duplex Left LeftResult Right RightResult →
    Duplex Left LeftResult Right RightResult → Prop
  | refl (state : Duplex Left LeftResult Right RightResult) :
      Steps 0 state state
  | head {count : Nat}
      {before middle after : Duplex Left LeftResult Right RightResult} :
      Step leftBody rightBody before middle → Steps count middle after →
        Steps (count + 1) before after

variable {leftBody rightBody}
variable {duplex first second last :
  Duplex Left LeftResult Right RightResult}

/-- Steps of different sides commute. -/
theorem commute (left : duplex.stepLeft leftBody = some first)
    (right : duplex.stepRight rightBody = some second) :
    ∃ joined, first.stepRight rightBody = some joined ∧
      second.stepLeft leftBody = some joined := by
  obtain ⟨⟨next, rest, sent⟩, moved, rfl⟩ := Option.map_eq_some_iff.mp left
  obtain ⟨⟨other, remaining, answered⟩, also, rfl⟩ :=
    Option.map_eq_some_iff.mp right
  refine ⟨⟨next, other, rest ++ answered, remaining ++ sent⟩, ?_, ?_⟩
  · simp [stepRight, Process.advance_append also sent]
  · simp [stepLeft, Process.advance_append moved answered]

/-- Two different steps from a state meet again after one more step each. -/
theorem Step.diamond (one : Step leftBody rightBody duplex first)
    (other : Step leftBody rightBody duplex second) :
    first = second ∨ ∃ joined, Step leftBody rightBody first joined ∧
      Step leftBody rightBody second joined := by
  rcases one with left | right
  · rcases other with also | right
    · rw [left] at also
      exact .inl (Option.some.inj also)
    · obtain ⟨joined, here, there⟩ := commute left right
      exact .inr ⟨joined, .inr here, .inl there⟩
  · rcases other with left | also
    · obtain ⟨joined, here, there⟩ := commute left right
      exact .inr ⟨joined, .inl there, .inr here⟩
    · rw [right] at also
      exact .inl (Option.some.inj also)

theorem Steps.trans {count more : Nat}
    (one : Steps leftBody rightBody count first second)
    (other : Steps leftBody rightBody more second last) :
    Steps leftBody rightBody (count + more) first last := by
  induction one with
  | refl duplex => rwa [Nat.zero_add]
  | head step _ ih =>
      rw [Nat.succ_add]
      exact .head step (ih other)

/-- No side can take a step. -/
def Halted (leftBody : Left → Process (Left ⊕ LeftResult))
    (rightBody : Right → Process (Right ⊕ RightResult))
    (duplex : Duplex Left LeftResult Right RightResult) : Prop :=
  ∀ next, ¬ Step leftBody rightBody duplex next

/-- After any first step a halted state is as far away as before, less one
step. -/
theorem Steps.after_step {count : Nat}
    (run : Steps leftBody rightBody count duplex last)
    (halted : Halted leftBody rightBody last)
    (step : Step leftBody rightBody duplex first) :
    ∃ fewer, count = fewer + 1 ∧
      Steps leftBody rightBody fewer first last := by
  induction run generalizing first with
  | refl duplex => exact absurd step (halted first)
  | head taken rest ih =>
      rcases taken.diamond step with rfl | ⟨joined, here, there⟩
      · exact ⟨_, rfl, rest⟩
      · obtain ⟨fewer, rfl, onwards⟩ := ih halted here
        exact ⟨fewer + 1, rfl, .head there onwards⟩

/-- If one run ends, every run is a beginning of one that ends in the same
state after as many steps. -/
theorem Steps.ends {count : Nat}
    (run : Steps leftBody rightBody count duplex last)
    (halted : Halted leftBody rightBody last) {taken : Nat}
    (other : Steps leftBody rightBody taken duplex first) :
    ∃ left, count = taken + left ∧
      Steps leftBody rightBody left first last := by
  induction other generalizing count with
  | refl duplex => exact ⟨count, (Nat.zero_add count).symm, run⟩
  | head step _ ih =>
      obtain ⟨fewer, rfl, onwards⟩ := run.after_step halted step
      obtain ⟨left, rfl, final⟩ := ih onwards
      exact ⟨left, by omega, final⟩

/-- Some run leads from the one state to the other. -/
def Reaches (leftBody : Left → Process (Left ⊕ LeftResult))
    (rightBody : Right → Process (Right ⊕ RightResult))
    (before after : Duplex Left LeftResult Right RightResult) : Prop :=
  ∃ count, Steps leftBody rightBody count before after

theorem Reaches.refl (duplex : Duplex Left LeftResult Right RightResult) :
    Reaches leftBody rightBody duplex duplex :=
  ⟨0, .refl duplex⟩

theorem Reaches.trans (one : Reaches leftBody rightBody first second)
    (other : Reaches leftBody rightBody second last) :
    Reaches leftBody rightBody first last :=
  ⟨_, one.choose_spec.trans other.choose_spec⟩

theorem Reaches.head (step : Step leftBody rightBody first second)
    (rest : Reaches leftBody rightBody second last) :
    Reaches leftBody rightBody first last :=
  ⟨_, .head step rest.choose_spec⟩

/-- The right side receives what comes first. -/
theorem Reaches.receive_right {process : Process (Left ⊕ LeftResult)}
    {next : List Byte → Process (Right ⊕ RightResult)} {count : Nat}
    {chunk rest toLeft : List Byte} (length : chunk.length = count)
    (later : Reaches leftBody rightBody ⟨process, next chunk, toLeft, rest⟩
      last) :
    Reaches leftBody rightBody
      ⟨process, .receive count next, toLeft, chunk ++ rest⟩ last := by
  subst length
  refine .head (.inr ?_) later
  simp [stepRight, Process.advance]

/-- The right side receives all that there is. -/
theorem Reaches.receive_right_all {process : Process (Left ⊕ LeftResult)}
    {next : List Byte → Process (Right ⊕ RightResult)} {count : Nat}
    {chunk toLeft : List Byte} (length : chunk.length = count)
    (later : Reaches leftBody rightBody ⟨process, next chunk, toLeft, []⟩
      last) :
    Reaches leftBody rightBody
      ⟨process, .receive count next, toLeft, chunk⟩ last := by
  have received : Reaches leftBody rightBody
      ⟨process, .receive count next, toLeft, chunk ++ []⟩ last :=
    .receive_right length later
  rwa [List.append_nil] at received

section Sides

variable {Value : Type*} {process : Process Value} {value : Value}
  {input rest sent : List Byte}

/-- The left side does what it does with all its input at hand. -/
theorem reaches_left (ran : process.run input = some (value, rest, sent))
    (next : Value → Process (Left ⊕ LeftResult))
    (other : Process (Right ⊕ RightResult)) (toRight : List Byte) :
    Reaches leftBody rightBody ⟨process.bind next, other, input, toRight⟩
      ⟨next value, other, rest, toRight ++ sent⟩ := by
  induction process generalizing input sent toRight with
  | done result =>
      cases ran
      rw [List.append_nil]
      exact .refl _
  | send bytes later ih =>
      obtain ⟨⟨_, _, more⟩, inner, same⟩ := Option.map_eq_some_iff.mp ran
      cases same
      rw [← List.append_assoc]
      exact .head (.inl rfl) (ih inner _)
  | receive count later ih =>
      simp only [Process.run] at ran
      split at ran
      next enough =>
        refine .head (.inl ?_) (ih _ ran toRight)
        simp [stepLeft, Process.advance, enough]
      · cases ran
  | abort => cases ran

/-- The left side runs its body to the end. -/
theorem reaches_left_done {process : Process (Left ⊕ LeftResult)}
    {value : Left ⊕ LeftResult}
    (ran : process.run input = some (value, rest, sent))
    (other : Process (Right ⊕ RightResult)) (toRight : List Byte) :
    Reaches leftBody rightBody ⟨process, other, input, toRight⟩
      ⟨.done value, other, rest, toRight ++ sent⟩ := by
  have reached : Reaches leftBody rightBody
      ⟨process.bind .done, other, input, toRight⟩
      ⟨.done value, other, rest, toRight ++ sent⟩ :=
    reaches_left ran .done other toRight
  rwa [Process.bind_done_right] at reached

theorem reaches_right (ran : process.run input = some (value, rest, sent))
    (next : Value → Process (Right ⊕ RightResult))
    (other : Process (Left ⊕ LeftResult)) (toLeft : List Byte) :
    Reaches leftBody rightBody ⟨other, process.bind next, toLeft, input⟩
      ⟨other, next value, toLeft ++ sent, rest⟩ := by
  induction process generalizing input sent toLeft with
  | done result =>
      cases ran
      rw [List.append_nil]
      exact .refl _
  | send bytes later ih =>
      obtain ⟨⟨_, _, more⟩, inner, same⟩ := Option.map_eq_some_iff.mp ran
      cases same
      rw [← List.append_assoc]
      exact .head (.inr rfl) (ih inner _)
  | receive count later ih =>
      simp only [Process.run] at ran
      split at ran
      next enough =>
        refine .head (.inr ?_) (ih _ ran toLeft)
        simp [stepRight, Process.advance, enough]
      · cases ran
  | abort => cases ran

end Sides

end Duplex

end ChipletSniper.Library
