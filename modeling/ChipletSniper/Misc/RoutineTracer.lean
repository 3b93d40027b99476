import ChipletSniper.Library.Runs
import Mathlib.Order.Basic
import Mathlib.Algebra.GroupWithZero.Nat

/-!
# The function profile of a thread

The tracer keeps the call stack of a thread, and charges the growth of a
statistic to the routine on top of it: between two events that begin and end a
routine it remembers one start value.
-/

namespace ChipletSniper.Misc

open Library (Throughout)

/-- `RoutineTracerFunctionStats::Routine`: its calls, and its value of the
statistic. -/
structure Routine where
  eip : UInt64
  calls : Nat
  value : Nat
  deriving DecidableEq, Repr

/-- `RtnThread` with the routines of its master and the statistic of the
thread. The stack has its top in front. `accrued` is the history of the growth
inside the region of interest, with the routine on top. -/
structure RtnThread where
  stack : List UInt64
  lastEsp : UInt64
  valuesStart : Nat
  routines : List Routine
  inROI : Bool
  statistic : Nat
  accrued : List (UInt64 × Nat)
  deriving DecidableEq, Repr

def updateRoutine (eip : UInt64) (calls value : Nat) :
    List Routine → List Routine
  | [] => [⟨eip, calls, value⟩]
  | routine :: rest =>
      if routine.eip = eip then
        { routine with
          calls := routine.calls + calls
          value := routine.value + value } :: rest
      else
        routine :: updateRoutine eip calls value rest

namespace RtnThread

/-- A new thread, with whatever is in the memory of `m_last_esp`. -/
def initial (lastEsp : UInt64) (statistic : Nat) : RtnThread :=
  ⟨[], lastEsp, 0, [], false, statistic, []⟩

variable (thread : RtnThread)

/-! ## The callbacks -/

def functionBegin (_eip : UInt64) : RtnThread :=
  { thread with valuesStart := thread.statistic }

def functionEnd (eip : UInt64) (isFunctionStart : Bool) : RtnThread :=
  { thread with
    routines := updateRoutine eip (if isFunctionStart then 1 else 0)
      (thread.statistic - thread.valuesStart) thread.routines }

def functionEnter (eip : UInt64) : RtnThread :=
  thread.functionBegin eip

def functionExit (eip : UInt64) : RtnThread :=
  thread.functionEnd eip true

def functionChildEnter (eip _child : UInt64) : RtnThread :=
  thread.functionEnd eip false

def functionChildExit (eip _child : UInt64) : RtnThread :=
  thread.functionBegin eip

/-! ## The call stack -/

/-- A callback for the top of the stack, inside the region of interest. -/
def onTop (callback : RtnThread → UInt64 → RtnThread) : RtnThread :=
  match thread.stack with
  | [] => thread
  | top :: _ => if thread.inROI then callback thread top else thread

def routineEnterUnlocked (eip esp : UInt64) : RtnThread :=
  let left := thread.onTop fun thread top => thread.functionChildEnter top eip
  let entered :=
    { left with
      stack := eip :: left.stack
      lastEsp := esp }
  if entered.inROI then entered.functionEnter eip else entered

/-- One routine is taken off the stack. -/
def pop : RtnThread :=
  { thread with stack := thread.stack.tail }

/-- The loop of `unwindTo`, over the stack. -/
def unwindLoop (eip : UInt64) : List UInt64 → RtnThread → RtnThread
  | [], thread => thread
  | top :: rest, thread =>
      if top = eip then
        thread
      else
        unwindLoop eip rest
          ((thread.onTop functionExit).pop.onTop fun thread top =>
            thread.functionChildExit top eip)

def unwindTo (eip : UInt64) : Bool × RtnThread :=
  if eip ∈ thread.stack then (true, unwindLoop eip thread.stack thread)
  else (false, thread)

def routineExit (eip esp : UInt64) : RtnThread :=
  if thread.stack = [] then
    thread
  else
    let (found, unwound) :=
      if thread.stack.head? ≠ some eip then thread.unwindTo eip
      else (true, thread)
    let left :=
      if found then
        (if unwound.inROI then unwound.functionExit eip else unwound).pop
      else
        unwound
    { left with lastEsp := esp }.onTop fun thread top =>
      thread.functionChildExit top eip

def routineAssert (eip esp : UInt64) : RtnThread :=
  if thread.stack = [] then
    thread.routineEnterUnlocked eip esp
  else if thread.stack.head? = some eip then
    thread
  else if esp ≤ thread.lastEsp then
    thread.routineEnterUnlocked eip esp
  else
    let (found, unwound) := thread.unwindTo eip
    if found then { unwound with lastEsp := esp }
    else unwound.routineEnterUnlocked eip esp

/-- The loop of `hookRoiBegin`, from the bottom of the stack on. -/
def roiBeginLoop (parent : UInt64) : List UInt64 → RtnThread → RtnThread
  | [], thread => thread
  | eip :: rest, thread =>
      let left :=
        if parent ≠ 0 then thread.functionChildEnter parent eip else thread
      roiBeginLoop eip rest (left.functionEnter eip)

/-- The loop of `hookRoiEnd`. Its callbacks do not look at the stack, which it
restores in the end. -/
def roiEndLoop (child : UInt64) : List UInt64 → RtnThread → RtnThread
  | [], thread => thread
  | eip :: rest, thread =>
      let back :=
        if child ≠ 0 then thread.functionChildExit eip child else thread
      roiEndLoop eip rest (back.functionExit eip)

def hookRoiBegin : RtnThread :=
  roiBeginLoop 0 thread.stack.reverse thread

def hookRoiEnd : RtnThread :=
  roiEndLoop 0 thread.stack thread

end RtnThread

/-- What a thread does, and the growth of its statistic. -/
inductive TraceEvent where
  | grow (amount : Nat)
  | routineEnter (eip esp : UInt64)
  | routineExit (eip esp : UInt64)
  | routineAssert (eip esp : UInt64)
  | roiBegin
  | roiEnd
  deriving DecidableEq, Repr

/-- The routine that an event names. -/
def TraceEvent.eip? : TraceEvent → Option UInt64
  | .routineEnter eip _ => some eip
  | .routineExit eip _ => some eip
  | .routineAssert eip _ => some eip
  | .grow _ => none
  | .roiBegin => none
  | .roiEnd => none

namespace RtnThread

variable (thread : RtnThread)

/-- The statistic grows, and the history says for whom. -/
def grow (amount : Nat) : RtnThread :=
  { thread with
    statistic := thread.statistic + amount
    accrued :=
      match thread.stack with
      | [] => thread.accrued
      | top :: _ =>
          if thread.inROI then thread.accrued ++ [(top, amount)]
          else thread.accrued }

/-- The hooks run only where the region of interest begins or ends. -/
def step : TraceEvent → RtnThread
  | .grow amount => thread.grow amount
  | .routineEnter eip esp => thread.routineEnterUnlocked eip esp
  | .routineExit eip esp => thread.routineExit eip esp
  | .routineAssert eip esp => thread.routineAssert eip esp
  | .roiBegin =>
      if thread.inROI then thread
      else { thread with inROI := true }.hookRoiBegin
  | .roiEnd =>
      if thread.inROI then { thread.hookRoiEnd with inROI := false }
      else thread

end RtnThread

/-! ## Amounts -/

/-- The sum of the amounts of some routines. -/
def amountOf (which : UInt64 → Bool) (amounts : List (UInt64 × Nat)) : Nat :=
  ((amounts.filter fun amount => which amount.1).map Prod.snd).sum

theorem amountOf_cons (which : UInt64 → Bool) (eip : UInt64) (amount : Nat)
    (rest : List (UInt64 × Nat)) :
    amountOf which ((eip, amount) :: rest) =
      (if which eip then amount else 0) + amountOf which rest := by
  unfold amountOf
  rw [List.filter_cons]
  split
  · rw [List.map_cons, List.sum_cons]
  · rw [Nat.zero_add]

theorem amountOf_concat (which : UInt64 → Bool) (eip : UInt64) (amount : Nat)
    (earlier : List (UInt64 × Nat)) :
    amountOf which (earlier ++ [(eip, amount)]) =
      amountOf which earlier + if which eip then amount else 0 := by
  induction earlier with
  | nil =>
      rw [List.nil_append, amountOf_cons]
      exact Nat.add_comm _ _
  | cons first rest ih =>
      obtain ⟨other, number⟩ := first
      rw [List.cons_append, amountOf_cons, amountOf_cons,
        ih, Nat.add_assoc]

/-- The values that `updateRoutine` has added for some routines. -/
def chargedTo (which : UInt64 → Bool) (routines : List Routine) : Nat :=
  amountOf which (routines.map fun routine => (routine.eip, routine.value))

theorem chargedTo_updateRoutine (which : UInt64 → Bool) (eip : UInt64)
    (calls value : Nat) (routines : List Routine) :
    chargedTo which (updateRoutine eip calls value routines) =
      chargedTo which routines + if which eip then value else 0 := by
  unfold chargedTo
  induction routines with
  | nil =>
      rw [updateRoutine, List.map_singleton, amountOf_cons]
      exact Nat.add_comm _ _
  | cons routine rest ih =>
      rw [updateRoutine]
      split
      next same =>
          rw [List.map_cons, List.map_cons, amountOf_cons, amountOf_cons]
          dsimp only
          rw [same]
          split <;> omega
      next =>
          rw [List.map_cons, List.map_cons, amountOf_cons, amountOf_cons,
            ih, Nat.add_assoc]

namespace RtnThread

/-- What has grown for some routines since the last start, if one of them is on
top inside the region of interest. -/
def pending (thread : RtnThread) (which : UInt64 → Bool) : Nat :=
  match thread.stack with
  | [] => 0
  | top :: _ =>
      if thread.inROI && which top then
        thread.statistic - thread.valuesStart
      else
        0

/-- What is charged to some routines, now or when it ends. -/
def net (thread : RtnThread) (which : UInt64 → Bool) : Nat :=
  chargedTo which thread.routines + thread.pending which

variable {thread : RtnThread} {which : UInt64 → Bool}

theorem pending_outside (outside : thread.inROI = false) :
    thread.pending which = 0 := by
  unfold pending
  split
  · rfl
  · rw [outside, Bool.false_and, if_neg Bool.false_ne_true]

theorem pending_settled (settled : thread.valuesStart = thread.statistic) :
    thread.pending which = 0 := by
  unfold pending
  split
  · rfl
  · rw [settled, Nat.sub_self, ite_self]

theorem pending_cons {top : UInt64} {rest : List UInt64}
    (stack : thread.stack = top :: rest) (inside : thread.inROI = true) :
    thread.pending which =
      if which top then thread.statistic - thread.valuesStart else 0 := by
  unfold pending
  rw [stack]
  dsimp only
  rw [inside, Bool.true_and]

/-- A sequence of callbacks that charges what has been pending, and starts
again where a routine is on top. -/
structure Settles (before after : RtnThread) : Prop where
  inROI : after.inROI = before.inROI
  statistic : after.statistic = before.statistic
  accrued : after.accrued = before.accrued
  started : before.valuesStart ≤ before.statistic →
    after.valuesStart ≤ after.statistic
  net : ∀ which, after.net which = before.net which

theorem Settles.refl (thread : RtnThread) : Settles thread thread :=
  ⟨rfl, rfl, rfl, id, fun _ => rfl⟩

theorem Settles.trans {first second third : RtnThread}
    (early : Settles first second) (late : Settles second third) :
    Settles first third :=
  ⟨late.inROI.trans early.inROI, late.statistic.trans early.statistic,
    late.accrued.trans early.accrued, late.started ∘ early.started,
    fun which => (late.net which).trans (early.net which)⟩

/-- Outside of the region of interest, nothing is charged. -/
theorem settles_outside {stack : List UInt64} {lastEsp : UInt64}
    (outside : thread.inROI = false) :
    Settles thread
      { thread with
        stack := stack
        lastEsp := lastEsp } := by
  refine ⟨rfl, rfl, rfl, id, fun which =>
    congrArg (chargedTo which thread.routines + ·) ?_⟩
  exact Eq.trans (pending_outside outside) (pending_outside outside).symm

/-- The routines after a callback has ended the one on top. -/
def chargeTop (thread : RtnThread) (calls : Nat) : List Routine :=
  match thread.stack with
  | [] => thread.routines
  | top :: _ =>
      updateRoutine top calls (thread.statistic - thread.valuesStart)
        thread.routines

theorem chargedTo_chargeTop (inside : thread.inROI = true) (calls : Nat) :
    chargedTo which (thread.chargeTop calls) = thread.net which := by
  unfold chargeTop net
  rcases stack : thread.stack with _ | ⟨top, rest⟩
  · unfold pending
    rw [stack]
    rfl
  · rw [pending_cons stack inside]
    exact chargedTo_updateRoutine _ _ _ _ _

/-- Inside of the region of interest, the routine on top is charged. -/
theorem settles_inside {stack : List UInt64} {lastEsp : UInt64}
    {start : Nat} (calls : Nat) (inside : thread.inROI = true)
    (settled : start = thread.statistic ∨
      stack = [] ∧ start = thread.valuesStart) :
    Settles thread
      { thread with
        stack := stack
        lastEsp := lastEsp
        routines := thread.chargeTop calls
        valuesStart := start } := by
  refine ⟨rfl, rfl, rfl, fun started => ?_, fun which => ?_⟩
  · rcases settled with now | ⟨_, same⟩
    · exact Nat.le_of_eq now
    · exact same ▸ started
  · refine Eq.trans (congrArg₂ (· + ·) (chargedTo_chargeTop inside calls)
      ?_) (Nat.add_zero _)
    rcases settled with now | ⟨empty, _⟩
    · exact pending_settled now
    · unfold pending
      rw [empty]

theorem enter_outside (outside : thread.inROI = false) (eip esp : UInt64) :
    thread.routineEnterUnlocked eip esp =
      { thread with
        stack := eip :: thread.stack
        lastEsp := esp } := by
  obtain ⟨stack, _, _, _, _, _, _⟩ := thread
  cases outside
  cases stack <;> rfl

theorem enter_inside (inside : thread.inROI = true) (eip esp : UInt64) :
    thread.routineEnterUnlocked eip esp =
      { thread with
        stack := eip :: thread.stack
        lastEsp := esp
        routines := thread.chargeTop 0
        valuesStart := thread.statistic } := by
  obtain ⟨stack, _, _, _, _, _, _⟩ := thread
  cases inside
  cases stack <;> rfl

theorem settles_enter (eip esp : UInt64) :
    Settles thread (thread.routineEnterUnlocked eip esp) ∧
      (thread.routineEnterUnlocked eip esp).stack = eip :: thread.stack := by
  rcases inside : thread.inROI with _ | _
  · rw [enter_outside inside]
    exact ⟨settles_outside inside, rfl⟩
  · rw [enter_inside inside]
    exact ⟨settles_inside 0 inside (Or.inl rfl), rfl⟩

/-- The routine on top ends and leaves the stack, and the one below goes on. -/
def leave (thread : RtnThread) (esp child : UInt64) : RtnThread :=
  { (thread.onTop functionExit).pop with lastEsp := esp }.onTop
    fun thread top => thread.functionChildExit top child

theorem leave_outside (outside : thread.inROI = false) (esp child : UInt64) :
    thread.leave esp child =
      { thread with
        stack := thread.stack.tail
        lastEsp := esp } := by
  obtain ⟨stack, _, _, _, _, _, _⟩ := thread
  cases outside
  rcases stack with _ | ⟨top, _ | ⟨below, rest⟩⟩ <;> rfl

theorem leave_inside (inside : thread.inROI = true) (esp child : UInt64) :
    thread.leave esp child =
      { thread with
        stack := thread.stack.tail
        lastEsp := esp
        routines := thread.chargeTop 1
        valuesStart :=
          if thread.stack.tail = [] then thread.valuesStart
          else thread.statistic } := by
  obtain ⟨stack, _, _, _, _, _, _⟩ := thread
  cases inside
  rcases stack with _ | ⟨top, _ | ⟨below, rest⟩⟩ <;> rfl

theorem settles_leave (esp child : UInt64) :
    Settles thread (thread.leave esp child) ∧
      (thread.leave esp child).stack = thread.stack.tail := by
  rcases inside : thread.inROI with _ | _
  · rw [leave_outside inside]
    exact ⟨settles_outside inside, rfl⟩
  · rw [leave_inside inside]
    refine ⟨settles_inside 1 inside ?_, rfl⟩
    split
    next empty => exact Or.inr ⟨empty, rfl⟩
    next => exact Or.inl rfl

/-- The loop ends routines until the one it looks for is on top. -/
theorem settles_unwindLoop (eip : UInt64) :
    ∀ {stack : List UInt64} {thread : RtnThread}, thread.stack = stack →
      eip ∈ stack →
      Settles thread (unwindLoop eip stack thread) ∧
        (∃ rest, (unwindLoop eip stack thread).stack = eip :: rest) ∧
        (unwindLoop eip stack thread).stack ⊆ stack := by
  intro stack
  induction stack with
  | nil => exact fun _ member => absurd member List.not_mem_nil
  | cons top rest ih =>
      intro thread same member
      rw [unwindLoop]
      split
      next here =>
          exact ⟨.refl thread, ⟨rest, here ▸ same⟩,
            fun _ inner => same ▸ inner⟩
      next other =>
          have below : eip ∈ rest :=
            (List.mem_cons.mp member).resolve_left (Ne.symm other)
          have left := @settles_leave thread
            (thread.onTop functionExit).lastEsp eip
          have tail : (thread.leave (thread.onTop functionExit).lastEsp
              eip).stack = rest := left.2.trans (same ▸ rfl)
          obtain ⟨settles, found, part⟩ := ih tail below
          exact ⟨left.1.trans settles, found,
            fun _ inner => List.mem_cons_of_mem top (part inner)⟩

/-- The exit of the routine on top. -/
theorem leave_eq {eip : UInt64} {rest : List UInt64}
    (top : thread.stack = eip :: rest) (esp : UInt64) :
    { (if thread.inROI then thread.functionExit eip else thread).pop with
        lastEsp := esp }.onTop
      (fun thread top => thread.functionChildExit top eip) =
        thread.leave esp eip := by
  have same : thread.onTop functionExit =
      if thread.inROI then thread.functionExit eip else thread := by
    unfold onTop
    rw [top]
  unfold leave
  rw [same]

/-- An exit of a routine on the stack. -/
theorem settles_exit {eip : UInt64} (esp : UInt64)
    (member : eip ∈ thread.stack) :
    Settles thread (thread.routineExit eip esp) ∧
      (thread.routineExit eip esp).stack ⊆ thread.stack := by
  unfold routineExit
  rw [if_neg (List.ne_nil_of_mem member)]
  by_cases here : thread.stack.head? = some eip
  · obtain ⟨rest, top⟩ := List.head?_eq_some_iff.mp here
    rw [if_neg fun differs => differs here]
    dsimp only
    rw [if_pos rfl, leave_eq top]
    have left := @settles_leave thread esp eip
    exact ⟨left.1, fun _ inner => List.mem_of_mem_tail (left.2 ▸ inner)⟩
  · obtain ⟨settles, ⟨rest, top⟩, part⟩ :=
      settles_unwindLoop eip (rfl : thread.stack = _) member
    rw [if_pos here]
    unfold unwindTo
    rw [if_pos member]
    dsimp only
    rw [if_pos rfl, leave_eq top]
    have left := @settles_leave (unwindLoop eip thread.stack thread) esp eip
    exact ⟨settles.trans left.1,
      fun _ inner => part (List.mem_of_mem_tail (left.2 ▸ inner))⟩

/-- An exit of another routine starts again without a charge. -/
theorem exit_missing {eip : UInt64} (esp : UInt64)
    (missing : eip ∉ thread.stack) :
    thread.routineExit eip esp =
      if thread.stack = [] then thread
      else { thread with
        lastEsp := esp
        valuesStart :=
          if thread.inROI then thread.statistic else thread.valuesStart } := by
  unfold routineExit
  split
  next => rfl
  next filled =>
      have here : thread.stack.head? ≠ some eip := fun top =>
        missing (List.mem_of_mem_head? top)
      rw [if_pos here]
      unfold unwindTo
      rw [if_neg missing]
      obtain ⟨stack, _, _, _, inROI, _, _⟩ := thread
      rcases stack with _ | ⟨top, rest⟩
      · exact absurd rfl filled
      · cases inROI <;> rfl

theorem settles_lastEsp (esp : UInt64) :
    Settles thread { thread with lastEsp := esp } :=
  ⟨rfl, rfl, rfl, id, fun _ => rfl⟩

theorem settles_assert (eip esp : UInt64) :
    Settles thread (thread.routineAssert eip esp) ∧
      (thread.routineAssert eip esp).stack ⊆ eip :: thread.stack := by
  have enter := @settles_enter thread eip esp
  have entered : Settles thread (thread.routineEnterUnlocked eip esp) ∧
      (thread.routineEnterUnlocked eip esp).stack ⊆ eip :: thread.stack :=
    ⟨enter.1, enter.2 ▸ List.Subset.refl _⟩
  unfold routineAssert
  split
  next => exact entered
  next =>
    split
    next => exact ⟨.refl thread, List.subset_cons_self _ _⟩
    next =>
      split
      next => exact entered
      next =>
        unfold unwindTo
        by_cases member : eip ∈ thread.stack
        · obtain ⟨settles, _, part⟩ :=
            settles_unwindLoop eip (rfl : thread.stack = _) member
          rw [if_pos member]
          exact ⟨settles.trans (settles_lastEsp esp),
            List.Subset.trans part (List.subset_cons_self _ _)⟩
        · rw [if_neg member]
          exact entered

/-! ## The region of interest -/

/-- A sequence of callbacks that charges nothing. -/
structure Frees (before after : RtnThread) : Prop where
  stack : after.stack = before.stack
  inROI : after.inROI = before.inROI
  statistic : after.statistic = before.statistic
  accrued : after.accrued = before.accrued
  charged : ∀ which,
    chargedTo which after.routines = chargedTo which before.routines

theorem chargedTo_functionEnd (settled : thread.valuesStart = thread.statistic)
    (eip : UInt64) (isFunctionStart : Bool) :
    chargedTo which (thread.functionEnd eip isFunctionStart).routines =
      chargedTo which thread.routines := by
  refine (chargedTo_updateRoutine _ _ _ _ _).trans ?_
  rw [settled, Nat.sub_self, ite_self]
  rfl

theorem frees_roiBeginLoop {eips : List UInt64} :
    ∀ {parent : UInt64} {thread : RtnThread},
      (parent ≠ 0 → thread.valuesStart = thread.statistic) →
      Frees thread (roiBeginLoop parent eips thread) ∧
        (roiBeginLoop parent eips thread).valuesStart =
          if eips = [] then thread.valuesStart else thread.statistic := by
  induction eips with
  | nil => exact fun _ => ⟨⟨rfl, rfl, rfl, rfl, fun _ => rfl⟩, rfl⟩
  | cons eip rest ih =>
      intro parent thread settled
      rw [roiBeginLoop]
      obtain ⟨frees, start⟩ := @ih eip
        ((if parent ≠ 0 then thread.functionChildEnter parent eip
          else thread).functionEnter eip) fun _ => rfl
      have same : Frees thread
          ((if parent ≠ 0 then thread.functionChildEnter parent eip
            else thread).functionEnter eip) := by
        split
        next known =>
            exact ⟨rfl, rfl, rfl, rfl, fun which =>
              chargedTo_functionEnd (settled known) parent false⟩
        next => exact ⟨rfl, rfl, rfl, rfl, fun _ => rfl⟩
      refine ⟨⟨frees.stack.trans same.stack, frees.inROI.trans same.inROI,
        frees.statistic.trans same.statistic,
        frees.accrued.trans same.accrued,
        fun which => (frees.charged which).trans (same.charged which)⟩, ?_⟩
      rw [start, if_neg (List.cons_ne_nil eip rest)]
      split
      · exact same.statistic
      · exact same.statistic

theorem frees_roiEndLoop {eips : List UInt64} :
    ∀ {child : UInt64} {thread : RtnThread},
      child ≠ 0 → (∀ eip ∈ eips, eip ≠ 0) →
      thread.valuesStart ≤ thread.statistic →
      Frees thread (roiEndLoop child eips thread) ∧
        (roiEndLoop child eips thread).valuesStart ≤ thread.statistic := by
  induction eips with
  | nil =>
      exact fun _ _ started =>
        ⟨⟨rfl, rfl, rfl, rfl, fun _ => rfl⟩, started⟩
  | cons eip rest ih =>
      intro child thread known named started
      rw [roiEndLoop, if_pos known]
      obtain ⟨frees, start⟩ := @ih eip
        ((thread.functionChildExit eip child).functionExit eip)
        (named eip List.mem_cons_self)
        (fun other member => named other (List.mem_cons_of_mem eip member))
        (Nat.le_refl _)
      exact ⟨⟨frees.stack, frees.inROI, frees.statistic, frees.accrued,
        fun which => (frees.charged which).trans
          (chargedTo_functionEnd rfl eip true)⟩, start⟩

/-- An exit of a routine that is not on the stack charges nothing, and nothing
is pending after it. -/
theorem frees_exit_missing {eip : UInt64} (esp : UInt64)
    (missing : eip ∉ thread.stack)
    (started : thread.valuesStart ≤ thread.statistic) :
    Frees thread (thread.routineExit eip esp) ∧
      (thread.routineExit eip esp).valuesStart ≤ thread.statistic ∧
      ∀ which, (thread.routineExit eip esp).pending which = 0 := by
  rw [exit_missing esp missing]
  split
  next empty =>
      refine ⟨⟨rfl, rfl, rfl, rfl, fun _ => rfl⟩, started, fun which => ?_⟩
      unfold pending
      rw [empty]
  next =>
      refine ⟨⟨rfl, rfl, rfl, rfl, fun _ => rfl⟩, ?_, fun which => ?_⟩
      · dsimp only
        split
        · exact Nat.le_refl _
        · exact started
      · rcases inside : thread.inROI with _ | _
        · exact pending_outside rfl
        · exact pending_settled rfl

/-! ## Accounts -/

/-- What an event drops of the growth since the last start. -/
def dropped (thread : RtnThread) (which : UInt64 → Bool) :
    TraceEvent → Nat
  | .routineExit eip _ =>
      if eip ∈ thread.stack then 0 else thread.pending which
  | .grow _ => 0
  | .routineEnter _ _ => 0
  | .routineAssert _ _ => 0
  | .roiBegin => 0
  | .roiEnd => 0

/-- An exit of a routine that is not on the stack comes before the statistic
has grown. -/
def Meets (thread : RtnThread) : TraceEvent → Prop
  | .routineExit eip _ =>
      thread.inROI = true → thread.stack ≠ [] → eip ∉ thread.stack →
        thread.statistic = thread.valuesStart
  | .grow _ => True
  | .routineEnter _ _ => True
  | .routineAssert _ _ => True
  | .roiBegin => True
  | .roiEnd => True

theorem dropped_of_meets {event : TraceEvent} (meets : thread.Meets event) :
    thread.dropped which event = 0 := by
  cases event with
  | routineExit eip esp =>
      rw [dropped]
      split
      next => rfl
      next missing =>
          rcases inside : thread.inROI with _ | _
          · exact pending_outside inside
          · rcases stack : thread.stack with _ | ⟨top, rest⟩
            · unfold pending
              rw [stack]
            · exact pending_settled
                (meets inside (stack ▸ List.cons_ne_nil _ _) missing).symm
  | grow amount => rfl
  | routineEnter eip esp => rfl
  | routineAssert eip esp => rfl
  | roiBegin => rfl
  | roiEnd => rfl

theorem dropped_pos {event : TraceEvent}
    (started : thread.valuesStart ≤ thread.statistic)
    (breaks : ¬ thread.Meets event) :
    0 < thread.dropped (fun _ => true) event := by
  cases event with
  | routineExit eip esp =>
      by_contra nothing
      refine breaks fun inside filled missing => ?_
      rw [dropped, if_neg missing] at nothing
      obtain ⟨top, rest, stack⟩ := List.exists_cons_of_ne_nil filled
      rw [pending_cons stack inside, if_pos rfl] at nothing
      omega
  | grow amount => exact absurd trivial breaks
  | routineEnter eip esp => exact absurd trivial breaks
  | routineAssert eip esp => exact absurd trivial breaks
  | roiBegin => exact absurd trivial breaks
  | roiEnd => exact absurd trivial breaks

/-- What has grown is charged, pending or lost. -/
structure Accounts (thread : RtnThread) (lost : (UInt64 → Bool) → Nat) :
    Prop where
  started : thread.valuesStart ≤ thread.statistic
  named : ∀ eip ∈ thread.stack, eip ≠ 0
  balance : ∀ which,
    amountOf which thread.accrued = thread.net which + lost which

variable {lost : (UInt64 → Bool) → Nat}

theorem Accounts.of_initial (lastEsp : UInt64) (statistic : Nat) :
    (initial lastEsp statistic).Accounts fun _ => 0 :=
  ⟨Nat.zero_le _, fun _ member => absurd member List.not_mem_nil,
    fun _ => rfl⟩

theorem Accounts.settle {after : RtnThread} (accounts : thread.Accounts lost)
    (settles : Settles thread after)
    (named : ∀ eip ∈ after.stack, eip ≠ 0) : after.Accounts lost := by
  refine ⟨settles.started accounts.started, named, fun which => ?_⟩
  rw [settles.accrued, settles.net]
  exact accounts.balance which

theorem Accounts.grow (accounts : thread.Accounts lost) (amount : Nat) :
    (thread.grow amount).Accounts lost := by
  obtain ⟨started, named, balance⟩ := accounts
  refine ⟨Nat.le_add_right_of_le started, named, fun which => ?_⟩
  have before := balance which
  unfold net pending RtnThread.grow at *
  rcases stack : thread.stack with _ | ⟨top, rest⟩
  · rw [stack] at before
    exact before
  · rw [stack] at before
    dsimp only at before ⊢
    rcases inside : thread.inROI with _ | _
    · rw [inside] at before
      exact before
    · rw [inside] at before
      rw [if_pos rfl, amountOf_concat]
      rcases mine : which top with _ | _
      · rw [mine] at before
        exact before
      · rw [mine] at before
        simp only [Bool.and_self, if_true] at before ⊢
        omega

theorem Accounts.exit (accounts : thread.Accounts lost) (eip esp : UInt64) :
    (thread.routineExit eip esp).Accounts fun which =>
      lost which + thread.dropped which (.routineExit eip esp) := by
  by_cases member : eip ∈ thread.stack
  · have none : (fun which => lost which + thread.dropped which
        (.routineExit eip esp)) = lost := by
      funext which
      rw [dropped, if_pos member, Nat.add_zero]
    obtain ⟨settles, part⟩ := settles_exit esp member
    rw [none]
    exact accounts.settle settles fun other inner =>
      accounts.named other (part inner)
  · obtain ⟨started, named, balance⟩ := accounts
    obtain ⟨frees, start, cleared⟩ := frees_exit_missing esp member started
    refine ⟨frees.statistic ▸ start, frees.stack ▸ named, fun which => ?_⟩
    rw [frees.accrued, balance which, net, net, frees.charged, cleared,
      dropped, if_neg member]
    omega

/-- The beginning of the region of interest starts the routine on top. -/
theorem Accounts.roiBegin (accounts : thread.Accounts lost) :
    (thread.step .roiBegin).Accounts lost := by
  rw [step]
  split
  next => exact accounts
  next outside =>
      obtain ⟨started, named, balance⟩ := accounts
      obtain ⟨frees, start⟩ := @frees_roiBeginLoop thread.stack.reverse 0
        { thread with inROI := true } fun known => absurd rfl known
      refine ⟨?_, ?_, fun which => ?_⟩
      · rw [hookRoiBegin, start, frees.statistic]
        split
        · exact started
        · exact Nat.le_refl _
      · have same : { thread with inROI := true }.hookRoiBegin.stack =
            thread.stack := frees.stack
        rw [same]
        exact named
      · have cleared : (roiBeginLoop 0 thread.stack.reverse
            { thread with inROI := true }).pending which = 0 := by
          by_cases empty : thread.stack = []
          · unfold pending
            rw [frees.stack]
            dsimp only
            rw [empty]
          · refine pending_settled (start.trans ?_)
            rw [if_neg fun none => empty (List.reverse_eq_nil_iff.mp none),
              frees.statistic]
        have before := balance which
        rw [net, pending_outside (Bool.not_eq_true _ ▸ outside)] at before
        rw [hookRoiBegin, net, cleared, frees.charged, frees.accrued]
        exact before

/-- The end of the region of interest charges what is pending. -/
theorem Accounts.roiEnd (accounts : thread.Accounts lost) :
    (thread.step .roiEnd).Accounts lost := by
  rw [step]
  split
  next inside =>
      obtain ⟨started, named, balance⟩ := accounts
      rcases stack : thread.stack with _ | ⟨top, rest⟩
      · have same : thread.hookRoiEnd = thread := by
          rw [hookRoiEnd, stack, roiEndLoop]
        rw [same]
        refine ⟨started, named, fun which => ?_⟩
        have before := balance which
        unfold net pending at before ⊢
        rw [stack] at before ⊢
        exact before
      · rw [stack] at named
        obtain ⟨frees, start⟩ := @frees_roiEndLoop rest top
          (thread.functionExit top) (named top List.mem_cons_self)
          (fun eip member => named eip (List.mem_cons_of_mem top member))
          started
        have same : thread.hookRoiEnd =
            roiEndLoop top rest (thread.functionExit top) := by
          rw [hookRoiEnd, stack, roiEndLoop, if_neg fun known => known rfl]
        rw [same]
        refine ⟨?_, ?_, fun which => ?_⟩
        · exact frees.statistic ▸ start
        · have whole : (roiEndLoop top rest
              (thread.functionExit top)).stack = top :: rest :=
            frees.stack.trans stack
          dsimp only
          rw [whole]
          exact named
        · have charged : chargedTo which (roiEndLoop top rest
              (thread.functionExit top)).routines = thread.net which := by
            rw [frees.charged, net, pending_cons stack inside]
            exact chargedTo_updateRoutine _ _ _ _ _
          have settled : net { roiEndLoop top rest (thread.functionExit top) with
              inROI := false } which = thread.net which :=
            (congrArg₂ (· + ·) charged (pending_outside rfl)).trans
              (Nat.add_zero _)
          refine (congrArg (amountOf which) frees.accrued).trans
            ((balance which).trans ?_)
          exact congrArg (· + lost which) settled.symm
  next => exact accounts

/-- One event. -/
theorem Accounts.step (accounts : thread.Accounts lost) {event : TraceEvent}
    (known : event.eip? ≠ some 0) :
    (thread.step event).Accounts fun which =>
      lost which + thread.dropped which event := by
  cases event with
  | grow amount => exact accounts.grow amount
  | routineEnter eip esp =>
      obtain ⟨settles, stack⟩ := @settles_enter thread eip esp
      refine accounts.settle settles (stack ▸ fun other member => ?_)
      rcases List.mem_cons.mp member with rfl | below
      · exact fun zero => known (congrArg some zero)
      · exact accounts.named other below
  | routineExit eip esp => exact accounts.exit eip esp
  | routineAssert eip esp =>
      obtain ⟨settles, part⟩ := @settles_assert thread eip esp
      refine accounts.settle settles fun other member => ?_
      rcases List.mem_cons.mp (part member) with rfl | below
      · exact fun zero => known (congrArg some zero)
      · exact accounts.named other below
  | roiBegin => exact accounts.roiBegin
  | roiEnd => exact accounts.roiEnd

/-! ## Runs -/

/-- What is once lost stays lost. -/
theorem Accounts.run {events : List TraceEvent} :
    ∀ {thread : RtnThread} {lost : (UInt64 → Bool) → Nat},
      thread.Accounts lost → (∀ event ∈ events, event.eip? ≠ some 0) →
      ∃ final, (events.foldl RtnThread.step thread).Accounts final ∧
        lost (fun _ => true) ≤ final (fun _ => true) ∧
        (Throughout RtnThread.step Meets events thread → final = lost) ∧
        (¬ Throughout RtnThread.step Meets events thread →
          lost (fun _ => true) < final (fun _ => true)) := by
  induction events with
  | nil =>
      exact fun accounts _ => ⟨_, accounts, Nat.le_refl _, fun _ => rfl,
        fun breaks => absurd trivial breaks⟩
  | cons event rest ih =>
      intro thread lost accounts known
      obtain ⟨final, last, more, same, less⟩ := ih
        (accounts.step (known event List.mem_cons_self))
        (fun other later => known other (List.mem_cons_of_mem event later))
      refine ⟨final, last, Nat.le_trans (Nat.le_add_right _ _) more,
        fun along => (same along.2).trans (funext fun which => ?_),
        fun breaks => ?_⟩
      · rw [dropped_of_meets along.1, Nat.add_zero]
      · by_cases here : thread.Meets event
        · exact Nat.lt_of_le_of_lt (Nat.le_add_right _ _)
            (less fun later => breaks ⟨here, later⟩)
        · exact Nat.lt_of_lt_of_le
            (Nat.lt_add_of_pos_right (dropped_pos accounts.started here))
            more

/-- Outside of the region of interest, every routine is charged with what has
grown while it was on top, and all together with all of it. -/
def Complete (thread : RtnThread) : Prop :=
  (∀ eip, chargedTo (· == eip) thread.routines =
    amountOf (· == eip) thread.accrued) ∧
  (thread.routines.map Routine.value).sum =
    (thread.accrued.map Prod.snd).sum

theorem complete_iff {final : (UInt64 → Bool) → Nat}
    (accounts : thread.Accounts final) (outside : thread.inROI = false) :
    thread.Complete ↔
      (∀ eip, final (· == eip) = 0) ∧ final (fun _ => true) = 0 := by
  have balance := accounts.balance
  unfold net at balance
  have each := fun eip => balance (· == eip)
  have total := balance fun _ => true
  rw [pending_outside outside] at total
  have routines : chargedTo (fun _ => true) thread.routines =
      (thread.routines.map Routine.value).sum := by
    rw [chargedTo, amountOf, List.filter_eq_self.mpr fun _ _ => rfl,
      List.map_map]
    rfl
  have accrued : amountOf (fun _ => true) thread.accrued =
      (thread.accrued.map Prod.snd).sum := by
    rw [amountOf, List.filter_eq_self.mpr fun _ _ => rfl]
  rw [routines, accrued] at total
  constructor
  · rintro ⟨charged, sum⟩
    refine ⟨fun eip => ?_, by omega⟩
    have here := each eip
    rw [pending_outside outside, charged eip] at here
    omega
  · rintro ⟨none, sum⟩
    refine ⟨fun eip => ?_, by omega⟩
    have here := each eip
    rw [pending_outside outside, none eip] at here
    omega

/-- At the end of a region of interest the profile is complete exactly if no
exit of a routine that was not on the stack has dropped growth. -/
theorem profile_complete_iff (lastEsp : UInt64) (statistic : Nat)
    {events : List TraceEvent}
    (known : ∀ event ∈ events, event.eip? ≠ some 0)
    (ended : (events.foldl step (initial lastEsp statistic)).inROI = false) :
    (events.foldl step (initial lastEsp statistic)).Complete ↔
      Throughout step Meets events (initial lastEsp statistic) := by
  obtain ⟨final, accounts, _, same, less⟩ :=
    (Accounts.of_initial lastEsp statistic).run known
  rw [complete_iff accounts ended]
  constructor
  · rintro ⟨_, none⟩
    by_contra breaks
    exact absurd (less breaks) (none ▸ Nat.lt_irrefl 0)
  · intro along
    rw [same along]
    exact ⟨fun _ => rfl, rfl⟩

/-- A routine returns to its caller, which ends with the region of interest. -/
theorem profile_complete_iff_return :
    ([.routineEnter 1 100, .roiBegin, .grow 5, .routineEnter 2 90, .grow 7,
      .routineExit 2 100, .grow 3, .roiEnd].foldl step
        (initial 0 40)).Complete :=
  (profile_complete_iff 0 40 (by decide) (by decide)).mpr
    ⟨trivial, trivial, trivial, trivial, trivial,
      fun _ _ missing => absurd (by decide) missing, trivial, trivial,
      trivial⟩

/-- The growth before an exit that matches no entry is charged to nobody. -/
theorem mismatched_exit_drops :
    ¬ ([.routineEnter 1 100, .roiBegin, .grow 5, .routineExit 9 100,
      .roiEnd].foldl step (initial 0 40)).Complete := by
  intro complete
  exact absurd complete.2 (by decide)

end RtnThread

end ChipletSniper.Misc
