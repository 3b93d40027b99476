import ChipletSniper.Rob.PipelineInsertion

/-!
# Calls of the pipeline

A call of `simulate` adds its micro-operations and then runs cycles, stage by
stage, until the queue is too short to go on.  Whatever calls are made, the
pipeline keeps its order, the queue has room for what is added, and no
micro-operation is issued before the results of its producers are available.
-/

namespace ChipletSniper.Rob

open Library (Outcome)
open Relation (ReflTransGen)

variable {lastReg : Nat} {Outside : Type}

/-! ## The program -/

/-- Where the timer is in a call. -/
inductive Phase (lastReg : Nat) where
  /-- Between two calls. -/
  | idle
  /-- The call that began at a number still has to add these. -/
  | adding (first : Nat) (rest : List (DynamicMicroOp lastReg))
  | executing
  | issuing (nextDispatch : SubsecondTime)
  | committing (nextDispatch nextIssue : SubsecondTime)

structure Running (lastReg : Nat) (Outside : Type) where
  timer : RobTimer lastReg Outside
  phase : Phase lastReg
  /-- All that was added. The source does not keep it. -/
  history : List (DynamicMicroOp lastReg)

namespace Running

def start (core : Core lastReg Outside) (outside : Outside) :
    Running lastReg Outside :=
  ⟨RobTimer.start core outside, .idle, []⟩

variable (core : Core lastReg Outside)

/-- What a call does next: it adds a micro-operation, or runs one stage of
`execute`. -/
def advance (running : Running lastReg Outside) :
    Except Failure (Running lastReg Outside) :=
  let timer := running.timer
  match running.phase with
  | .idle => .ok running
  | .adding _ [] => .ok { running with phase := .executing }
  | .adding first (uop :: rest) =>
      if uop.squashed then .ok { running with phase := .adding first rest }
      else do
        let next ← timer.insert core uop
        return ⟨next, .adding first rest,
          running.history ++ [timer.numberedUop uop]⟩
  | .executing =>
      if timer.frontendStalledUntil ≤ timer.now ∧
          timer.size < timer.numInRob + 2 * core.dispatchWidth then
        .ok { running with phase := .idle }
      else do
        let (nextDispatch, next) ← timer.doDispatch core
        return { running with timer := next, phase := .issuing nextDispatch }
  | .issuing nextDispatch => do
      let (nextIssue, next) ← timer.doIssue core
      return { running with
        timer := next, phase := .committing nextDispatch nextIssue }
  | .committing nextDispatch nextIssue =>
      let (nextCommit, _, next) := timer.doCommit core
      let skip := next.skip core (min nextDispatch (min nextIssue nextCommit))
      .ok { running with
        timer := { next with now := next.now + skip }, phase := .executing }

/-- What a call passes, from the number on that the first of them gets. -/
def AdmitsAll (first : Nat) : Nat → List (DynamicMicroOp lastReg) → Prop
  | _, [] => True
  | number, uop :: rest =>
      if uop.squashed then AdmitsAll first number rest
      else Admitted first number uop ∧ AdmitsAll first (number + 1) rest

/-- A call that does not pass too much. -/
structure CallFits (number : Nat) (insts : List (DynamicMicroOp lastReg)) :
    Prop where
  length : insts.length + 2 * core.dispatchWidth ≤ 256
  admitted : AdmitsAll number number insts

/-- A call begins, or goes on. -/
inductive Step : Running lastReg Outside → Running lastReg Outside → Prop
  | call {running : Running lastReg Outside}
      (insts : List (DynamicMicroOp lastReg)) (idle : running.phase = .idle)
      (fits : CallFits core running.timer.nextSequenceNumber insts) :
      Step running { running with
        phase := .adding running.timer.nextSequenceNumber insts }
  | advance {running next : Running lastReg Outside}
      (run : running.advance core = .ok next) : Step running next

/-- The states of all sequences of calls. -/
def Reached (outside : Outside) (running : Running lastReg Outside) : Prop :=
  ReflTransGen (Step core) (start core outside) running

end Running

/-! ## What is to be shown -/

/-- A clock that ticks, no forwarding, and a queue that is longer than the
window alone. -/
structure Core.Sensible (core : Core lastReg Outside) : Prop where
  forwarding : core.storeToLoadForwarding = false
  period : 0 < core.period
  room : 0 < core.windowSize ∨ 0 < core.dispatchWidth

/-- What one step does: every entry is dispatched, issued and committed once, in
this order and in different cycles. -/
structure Progress (core : Core lastReg Outside)
    (timer next : RobTimer lastReg Outside) : Prop where
  time : timer.now ≤ next.now
  entries : ∀ {n : Nat} {before : RobEntry lastReg},
    timer.entries[n]? = some before →
      ∃ after, next.entries[n]? = some after ∧
        Advances core.period timer.now before after
  popped : timer.popped ≤ next.popped
  committed : ∀ {n : Nat}, timer.popped ≤ n → n < next.popped →
    ∃ entry i, timer.entries[n]? = some entry ∧
      entry.issued = ((i : Nat) : SubsecondTime) ∧
      i + core.period ≤ timer.now
  width : core.commitWidth = 0 ∨
    next.popped ≤ timer.popped + core.commitWidth
  /-- A commit ends the cycle. -/
  cycle : next.popped = timer.popped ∨
    timer.now + core.period ≤ next.now

/-- The properties of a state of the pipeline. -/
structure Orderly (core : Core lastReg Outside)
    (running : Running lastReg Outside) : Prop where
  window : running.timer.numInRob ≤ core.windowSize
  queued : running.timer.numInRob ≤ running.timer.size
  used : running.timer.rsEntriesUsed =
    running.timer.entries.countP RobEntry.waits
  stations : running.timer.rsEntriesUsed ≤ core.rsEntries
  /-- `next` is not called on a full queue. -/
  room : ∀ {first : Nat} {uop : DynamicMicroOp lastReg}
    {rest : List (DynamicMicroOp lastReg)},
    running.phase = .adding first (uop :: rest) →
      running.timer.size < core.windowSize + 255
  /-- `findEntryBySequenceNumber` does not fail. -/
  found : running.advance core ≠ .error .outsideOfRob
  /-- Exactly the entries of the window and those before it are dispatched. -/
  dispatched : ∀ {n : Nat} {entry : RobEntry lastReg},
    running.timer.entries[n]? = some entry →
      (entry.dispatched ≠ none ↔
        n < running.timer.popped + running.timer.numInRob)
  issued : ∀ {n i : Nat} {entry : RobEntry lastReg},
    running.timer.entries[n]? = some entry →
    entry.issued = (i : SubsecondTime) →
      ∃ d, entry.dispatched = some d ∧ d + core.period ≤ i
  committed : ∀ {n : Nat} {entry : RobEntry lastReg},
    running.timer.entries[n]? = some entry → n < running.timer.popped →
      ∃ i : Nat, entry.issued = (i : SubsecondTime) ∧
        i + core.period ≤ running.timer.now
  progress : ∀ {next : Running lastReg Outside},
    running.advance core = .ok next → Progress core running.timer next.timer
  /-- No entry is issued before the results of its producers are available. -/
  producers : ∀ {l i : Nat} {entry : RobEntry lastReg},
    running.timer.entries[l]? = some entry →
    entry.issued = (i : SubsecondTime) →
    ∀ p ∈ producersAt running.history l entry.lowest,
      ∃ producer, running.timer.entries[p]? = some producer ∧
        ∃ j : Nat, producer.issued = (j : SubsecondTime) ∧
          j + producer.uop.resultLatency * core.period ≤ i

/-! ## The stages -/

/-- The invariant in the middle of a stage that began in a state. -/
structure Through (core : Core lastReg Outside)
    (history : List (DynamicMicroOp lastReg))
    (first timer : RobTimer lastReg Outside) : Prop where
  pipeline : Pipeline core timer
  recorded : Recorded core.period history timer
  since : Since core.period first timer

namespace Through

variable {core : Core lastReg Outside}
  {history : List (DynamicMicroOp lastReg)}
  {first timer next : RobTimer lastReg Outside}

theorem refl (pipeline : Pipeline core timer)
    (recorded : Recorded core.period history timer) :
    Through core history timer timer :=
  ⟨pipeline, recorded, Since.refl timer⟩

theorem sameQueue (through : Through core history first timer)
    (same : RobTimer.SameQueue timer next) : Through core history first next :=
  ⟨through.pipeline.sameQueue same, through.recorded.sameQueue same,
    through.since.sameQueue same⟩

theorem doDispatch (positive : 0 < core.period)
    (pipeline : Pipeline core timer)
    (recorded : Recorded core.period history timer) :
    Outcome Failure.Elsewhere (fun result =>
        Through core history timer result.2 ∧ result.2.popped = timer.popped)
      (timer.doDispatch core) := by
  apply RobTimer.doDispatch_rule fun other =>
    Through core history timer other ∧ other.popped = timer.popped
  · intro middle next inv same
    refine ⟨inv.1.sameQueue same, ?_⟩
    rw [same]
    exact inv.2
  · intro middle entry inv room free found
    have through := inv.1
    exact ⟨⟨through.pipeline.dispatchEntry room free found,
      through.recorded.dispatchEntry found,
      through.since.trans positive
        (through.pipeline.since_dispatchEntry found)⟩, inv.2⟩
  · exact pipeline.window
  · exact ⟨refl pipeline recorded, rfl⟩

theorem doIssue (positive : 0 < core.period)
    (pipeline : Pipeline core timer)
    (recorded : Recorded core.period history timer) :
    Outcome Failure.Elsewhere (fun result =>
        Through core history timer result.2 ∧ result.2.popped = timer.popped)
      (timer.doIssue core) := by
  apply RobTimer.doIssue_rule fun other =>
    Through core history timer other ∧ other.popped = timer.popped
  · exact fun inv => inv.1.pipeline.indexed
  · intro middle next inv same
    refine ⟨inv.1.sameQueue same, ?_⟩
    rw [same]
    exact inv.2
  · intro middle next idx entry latency done known inv within found waiting
      ready issues
    have through := inv.1
    refine ⟨⟨through.pipeline.issues within found waiting ready issues,
      through.recorded.issues through.pipeline found waiting issues,
      through.since.trans positive (through.pipeline.since_issues within found
        waiting ready issues)⟩, ?_⟩
    rw [issues.rest]
    exact inv.2
  · exact ⟨refl pipeline recorded, rfl⟩

theorem doCommit (positive : 0 < core.period)
    (pipeline : Pipeline core timer)
    (recorded : Recorded core.period history timer) :
    Through core history timer (timer.doCommit core).2.2 := by
  apply RobTimer.doCommit_rule (Through core history timer)
  · intro middle entry through found isDone
    exact ⟨through.pipeline.pop found isDone, through.recorded.pop,
      through.since.trans positive (through.pipeline.since_pop found isDone)⟩
  · exact refl pipeline recorded

/-- A stage that commits nothing. -/
theorem progress (through : Through core history timer next)
    (samePopped : next.popped = timer.popped) : Progress core timer next where
  time := through.since.now.ge
  entries := through.since.entries.forward
  popped := through.since.popped
  committed := through.since.committed
  width := Or.inr (le_of_eq_of_le samePopped (Nat.le_add_right _ _))
  cycle := Or.inl samePopped

end Through

theorem RobTimer.period_le_skip (core : Core lastReg Outside)
    (timer : RobTimer lastReg Outside) (nextEvent : SubsecondTime) :
    core.period ≤ timer.skip core nextEvent := by
  unfold skip
  split
  next both =>
    obtain ⟨known, later⟩ := both
    obtain ⟨event, same⟩ := WithTop.ne_top_iff_exists.mp known
    rw [← same] at later ⊢
    have less : timer.now + core.period < event := WithTop.coe_lt_coe.mp later
    change core.period ≤ event - timer.now
    omega
  next => exact Nat.le_refl _

theorem Progress.refl (core : Core lastReg Outside)
    (timer : RobTimer lastReg Outside) : Progress core timer timer where
  time := Nat.le_refl _
  entries found := ⟨_, found, Advances.refl _⟩
  popped := Nat.le_refl _
  committed low high := absurd high (Nat.not_lt.mpr low)
  width := Or.inr (Nat.le_add_right _ _)
  cycle := Or.inl rfl

/-! ## The invariant of the calls -/

namespace Running

variable {core : Core lastReg Outside} {running next : Running lastReg Outside}

/-- What holds in a phase: there is room for what is still to be added. -/
def PhaseInv (core : Core lastReg Outside) (timer : RobTimer lastReg Outside) :
    Phase lastReg → Prop
  | .idle => timer.size = 0 ∨
      timer.size < core.windowSize + 2 * core.dispatchWidth
  | .adding first rest => timer.popped ≤ first ∧
      AdmitsAll first timer.nextSequenceNumber rest ∧
      (rest = [] ∨ timer.size + rest.length ≤ core.windowSize + 255)
  | .executing => True
  | .issuing _ => True
  | .committing _ _ => True

structure Inv (core : Core lastReg Outside)
    (running : Running lastReg Outside) : Prop where
  pipeline : Pipeline core running.timer
  recorded : Recorded core.period running.history running.timer
  phase : PhaseInv core running.timer running.phase

theorem inv_start (core : Core lastReg Outside) (outside : Outside) :
    Inv core (start core outside) :=
  ⟨Pipeline.start core outside, Recorded.start core outside, Or.inl rfl⟩

theorem Inv.room (inv : Inv core running) {first : Nat}
    {uop : DynamicMicroOp lastReg} {rest : List (DynamicMicroOp lastReg)}
    (phase : running.phase = .adding first (uop :: rest)) :
    running.timer.size < core.windowSize + 255 := by
  have kept := inv.phase
  rw [phase] at kept
  obtain ⟨-, -, room⟩ := kept
  cases room with
  | inl empty => cases empty
  | inr fits =>
      rw [List.length_cons] at fits
      omega

theorem Inv.call (sensible : core.Sensible) (inv : Inv core running)
    {insts : List (DynamicMicroOp lastReg)} (idle : running.phase = .idle)
    (fits : CallFits core running.timer.nextSequenceNumber insts) :
    Inv core { running with
      phase := .adding running.timer.nextSequenceNumber insts } where
  pipeline := inv.pipeline
  recorded := inv.recorded
  phase := by
    have kept := inv.phase
    rw [idle] at kept
    have next : running.timer.nextSequenceNumber =
        running.timer.entries.length := inv.pipeline.base.next
    refine ⟨?_, fits.admitted, Or.inr ?_⟩
    · exact le_of_le_of_eq inv.pipeline.base.popped next.symm
    · have length := fits.length
      have room := sensible.room
      change running.timer.size + insts.length ≤ _
      cases kept with
      | inl empty => omega
      | inr short => omega

theorem Inv.insert (sensible : core.Sensible) (inv : Inv core running)
    {first : Nat} {uop : DynamicMicroOp lastReg}
    {rest : List (DynamicMicroOp lastReg)}
    (phase : running.phase = .adding first (uop :: rest))
    (valid : uop.squashed = false) :
    Outcome Failure.Elsewhere (fun timer =>
        Inv core ⟨timer, .adding first rest,
          running.history ++ [running.timer.numberedUop uop]⟩ ∧
        Progress core running.timer timer)
      (running.timer.insert core uop) := by
  have kept := inv.phase
  rw [phase] at kept
  obtain ⟨early, admits, room⟩ := kept
  rw [AdmitsAll, if_neg (by rw [valid]; decide)] at admits
  obtain ⟨admitted, later⟩ := admits
  apply (RobTimer.insert_elsewhere sensible.forwarding inv.pipeline inv.recorded
    early admitted).strengthen
  intro timer run _
  obtain ⟨tables, tracked, forwarded, registered, new, inserted⟩ :=
    RobTimer.insert_ok inv.pipeline.base admitted.fits run
  have length := length_insert inv.pipeline inserted
  have samePopped : timer.popped = running.timer.popped := by
    rw [inserted.rest]
  have sameNow : timer.now = running.timer.now := by
    rw [inserted.rest]
  have number : timer.nextSequenceNumber =
      running.timer.nextSequenceNumber + 1 := by
    rw [inserted.rest]
  constructor
  · refine ⟨inv.pipeline.insert admitted.latency inserted,
      inv.recorded.insert sensible.forwarding inv.pipeline early admitted
        inserted, ?_, ?_, ?_⟩
    · exact le_of_eq_of_le samePopped early
    · rw [number]
      exact later
    · right
      cases room with
      | inl empty => cases empty
      | inr fits =>
          have popped := inv.pipeline.base.popped
          change running.timer.popped ≤ running.timer.entries.length at popped
          change timer.entries.length - timer.popped + rest.length ≤ _
          unfold RobTimer.size at fits
          rw [List.length_cons] at fits
          omega
  · refine ⟨sameNow.ge, advances_insert inserted, samePopped.ge, ?_, ?_, ?_⟩
    · intro n low high
      omega
    · exact Or.inr (le_of_eq_of_le samePopped (Nat.le_add_right _ _))
    · exact Or.inl samePopped

theorem Inv.commit (sensible : core.Sensible) (inv : Inv core running)
    {timer : RobTimer lastReg Outside}
    (same : timer = (running.timer.doCommit core).2.2) {skip : Nat}
    (later : core.period ≤ skip) :
    Inv core { running with
        timer := { timer with now := timer.now + skip }, phase := .executing } ∧
      Progress core running.timer { timer with now := timer.now + skip } := by
  have through := Through.doCommit sensible.period inv.pipeline inv.recorded
  rw [← same] at through
  have sameNow := through.since.now
  refine ⟨⟨through.pipeline.tick (Nat.le_add_right _ _),
    through.recorded.tick _, trivial⟩, ?_⟩
  constructor
  case time =>
    change running.timer.now ≤ timer.now + skip
    omega
  case entries => exact through.since.entries.forward
  case popped => exact through.since.popped
  case committed => exact through.since.committed
  case width =>
    by_cases zero : core.commitWidth = 0
    · exact Or.inl zero
    · right
      change timer.popped ≤ _
      rw [same]
      exact RobTimer.popped_doCommit zero
  case cycle =>
    right
    change running.timer.now + core.period ≤ timer.now + skip
    omega

theorem Inv.advance (sensible : core.Sensible) (inv : Inv core running) :
    Outcome Failure.Elsewhere (fun next =>
        Inv core next ∧ Progress core running.timer next.timer)
      (running.advance core) := by
  obtain ⟨timer, phase, history⟩ := running
  have stays := Progress.refl core timer
  cases phase with
  | idle => exact ⟨inv, stays⟩
  | adding first rest =>
      cases rest with
      | nil => exact ⟨⟨inv.pipeline, inv.recorded, trivial⟩, stays⟩
      | cons uop rest =>
          cases squashed : uop.squashed with
          | true =>
              obtain ⟨early, admits, room⟩ := inv.phase
              rw [AdmitsAll, if_pos squashed] at admits
              change Outcome _ _ (if uop.squashed = true then _ else _)
              rw [if_pos squashed]
              refine ⟨⟨inv.pipeline, inv.recorded, early, admits, ?_⟩, stays⟩
              right
              cases room with
              | inl empty => cases empty
              | inr fits =>
                  change timer.size + (rest.length + 1) ≤ _ at fits
                  change timer.size + rest.length ≤ _
                  omega
          | false =>
              change Outcome _ _ (if uop.squashed = true then _ else _)
              rw [if_neg (by rw [squashed]; decide)]
              apply (inv.insert sensible rfl squashed).bind
              exact fun _ kept => kept
  | executing =>
      change Outcome _ _ (if _ then _ else _)
      split
      next short =>
        refine ⟨⟨inv.pipeline, inv.recorded, Or.inr ?_⟩, stays⟩
        have window := inv.pipeline.window
        have fewer := short.2
        change timer.size < _
        dsimp only at window fewer
        omega
      next =>
        apply (Through.doDispatch sensible.period inv.pipeline
          inv.recorded).bind
        intro result kept
        obtain ⟨through, samePopped⟩ := kept
        exact ⟨⟨through.pipeline, through.recorded, trivial⟩,
          through.progress samePopped⟩
  | issuing nextDispatch =>
      apply (Through.doIssue sensible.period inv.pipeline inv.recorded).bind
      intro result kept
      obtain ⟨through, samePopped⟩ := kept
      exact ⟨⟨through.pipeline, through.recorded, trivial⟩,
        through.progress samePopped⟩
  | committing nextDispatch nextIssue =>
      exact inv.commit sensible rfl (RobTimer.period_le_skip core _ _)

theorem Inv.step (sensible : core.Sensible) (inv : Inv core running)
    (step : Step core running next) : Inv core next := by
  cases step with
  | call insts idle fits => exact inv.call sensible idle fits
  | advance run => exact ((inv.advance sensible).of_ok run).1

theorem Reached.inv (sensible : core.Sensible) {outside : Outside}
    (reached : Reached core outside running) : Inv core running :=
  Library.invariant_of_reflTransGen (Inv core)
    (fun inv step => inv.step sensible step) (inv_start core outside) reached

theorem Inv.producers (inv : Inv core running) {l i : Nat}
    {entry : RobEntry lastReg}
    (found : running.timer.entries[l]? = some entry)
    (issued : entry.issued = (i : SubsecondTime)) :
    ∀ p ∈ producersAt running.history l entry.lowest,
      ∃ producer, running.timer.entries[p]? = some producer ∧
        ∃ j : Nat, producer.issued = (j : SubsecondTime) ∧
          j + producer.uop.resultLatency * core.period ≤ i := by
  intro p isProducer
  obtain ⟨producer, foundProducer, known⟩ :=
    inv.recorded.delivers found p isProducer
  refine ⟨producer, foundProducer, ?_⟩
  cases known with
  | inl listed => exact absurd listed (inv.pipeline.not_told found issued)
  | inr delivered =>
      obtain ⟨j, isIssued, later⟩ := delivered
      obtain ⟨-, readyMax, -, -⟩ := (inv.pipeline.timed found).issued issued
      exact ⟨j, isIssued, WithTop.coe_le_coe.mp (later.trans readyMax)⟩

/-- A number of steps of a call. -/
def advances (core : Core lastReg Outside)
    (running : Running lastReg Outside) :
    Nat → Except Failure (Running lastReg Outside)
  | 0 => .ok running
  | count + 1 => do
      let next ← advances core running count
      next.advance core

theorem Reached.advance {outside : Outside}
    (reached : Reached core outside running)
    (run : running.advance core = .ok next) : Reached core outside next :=
  ReflTransGen.tail reached (Step.advance run)

theorem Reached.advances {outside : Outside}
    (reached : Reached core outside running) {count : Nat}
    (run : running.advances core count = .ok next) :
    Reached core outside next := by
  induction count generalizing next with
  | zero =>
      cases run
      exact reached
  | succ count ih =>
      obtain ⟨middle, before, one⟩ := Library.bind_eq_ok.mp run
      exact (ih before).advance one

/-- A core that dispatches one micro-operation in a cycle. -/
def narrowCore (commitWidth : Nat) : Core 1 Unit where
  dispatchWidth := 1
  commitWidth := commitWidth
  windowSize := 2
  rsEntries := 2
  mispredictionPenalty := 8
  storeToLoadForwarding := false
  noAddressDisambiguation := false
  inorder := false
  outstandingLoads := 1
  outstandingStores := 1
  period := 1
  accessMemory := fun _ _ _ => (3, ())
  robContention := none

/-- Reads and writes the only register. -/
def link : DynamicMicroOp 1 where
  microOp := {
    uopType := .execute
    sourceRegisters := [⟨0, Nat.one_pos⟩]
    destinationRegisters := [⟨0, Nat.one_pos⟩] }
  sequenceNumber := 0

/-- Depends on nothing. -/
def single : DynamicMicroOp 1 where
  microOp := { uopType := .execute }
  sequenceNumber := 0

/-- A call begins that passes the same micro-operation a number of times. -/
def called (core : Core 1 Unit) (count : Nat) (uop : DynamicMicroOp 1) :
    Running 1 Unit :=
  ⟨RobTimer.start core (), .adding 0 (List.replicate count uop), []⟩

/-- A queue of 255 entries. -/
def emptyWindow : Core 1 Unit :=
  { narrowCore 1 with windowSize := 0, dispatchWidth := 0 }

section Calls

variable {outside : Outside} {timer : RobTimer lastReg Outside}
  {history : List (DynamicMicroOp lastReg)} {first : Nat}

theorem reached_insertAll {insts : List (DynamicMicroOp lastReg)}
    {last : RobTimer lastReg Outside}
    (reached : Reached core outside ⟨timer, .adding first insts, history⟩)
    (run : RobTimer.insertAll core insts timer = .ok last) :
    ∃ added, Reached core outside ⟨last, .adding first [], added⟩ := by
  induction insts generalizing timer history with
  | nil =>
      cases run
      exact ⟨history, reached⟩
  | cons uop rest ih =>
      rw [RobTimer.insertAll] at run
      split at run
      next squashed =>
        have next : Reached core outside ⟨timer, .adding first rest, history⟩ :=
          reached.advance (if_pos squashed)
        exact ih next run
      next valid =>
        obtain ⟨middle, inserted, later⟩ := Library.bind_eq_ok.mp run
        have step : (Running.mk timer (.adding first (uop :: rest))
            history).advance core = .ok ⟨middle, .adding first rest,
              history ++ [timer.numberedUop uop]⟩ := by
          unfold advance
          dsimp only
          rw [if_neg valid, inserted]
          rfl
        exact ih (reached.advance step) later

theorem reached_execute {last : RobTimer lastReg Outside}
    {executed latency : Nat} (positive : 0 < core.period)
    (reached : Reached core outside ⟨timer, .executing, history⟩)
    (run : timer.execute core = .ok (last, executed, latency)) :
    Reached core outside
      ⟨last, if latency = 0 then .idle else .executing, history⟩ := by
  unfold RobTimer.execute at run
  split at run
  next short =>
    cases run
    exact reached.advance (if_pos short)
  next enough =>
    obtain ⟨⟨nextDispatch, dispatched⟩, dispatch, run⟩ :=
      Library.bind_eq_ok.mp run
    obtain ⟨⟨nextIssue, issued⟩, issue, run⟩ := Library.bind_eq_ok.mp run
    have dispatchStep : (Running.mk timer .executing history).advance core =
        .ok ⟨dispatched, .issuing nextDispatch, history⟩ := by
      unfold advance
      dsimp only
      rw [if_neg enough, dispatch]
      rfl
    have issueStep : (Running.mk dispatched (.issuing nextDispatch)
        history).advance core =
          .ok ⟨issued, .committing nextDispatch nextIssue, history⟩ := by
      unfold advance
      dsimp only
      rw [issue]
      rfl
    dsimp only at run
    generalize commit : issued.doCommit core = result at run
    obtain ⟨nextCommit, instructions, committed⟩ := result
    have ticks := committed.period_le_skip core
      (min nextDispatch (min nextIssue nextCommit))
    have commitStep : (Running.mk issued (.committing nextDispatch nextIssue)
        history).advance core = .ok ⟨{ committed with
          now := committed.now + committed.skip core
            (min nextDispatch (min nextIssue nextCommit)) },
          .executing, history⟩ := by
      unfold advance
      dsimp only
      rw [commit]
    have notZero : committed.skip core
        (min nextDispatch (min nextIssue nextCommit)) ≠ 0 := by omega
    cases run
    rw [if_neg notZero]
    exact ((reached.advance dispatchStep).advance issueStep).advance commitStep

theorem reached_executeLoop {rounds totalInsnExec totalLat : Nat}
    {last : RobTimer lastReg Outside} {executed latency : Nat}
    (positive : 0 < core.period)
    (reached : Reached core outside ⟨timer, .executing, history⟩)
    (run : timer.executeLoop core rounds totalInsnExec totalLat =
      .ok (some (last, executed, latency))) :
    Reached core outside ⟨last, .idle, history⟩ := by
  induction rounds generalizing timer totalInsnExec totalLat with
  | zero => cases run
  | succ rounds ih =>
      obtain ⟨⟨middle, instructions, spent⟩, one, later⟩ :=
        Library.bind_eq_ok.mp run
      have next := reached_execute positive reached one
      dsimp only at later
      split at later
      next ends =>
        cases later
        rw [if_pos ends] at next
        exact next
      next goesOn =>
        rw [if_neg goesOn] at next
        exact ih next later

/-- A call of `simulate` that ends is one of the calls. -/
theorem reached_simulate {rounds : Nat}
    {insts : List (DynamicMicroOp lastReg)} {last : RobTimer lastReg Outside}
    {executed latency : Nat} (positive : 0 < core.period)
    (reached : Reached core outside ⟨timer, .idle, history⟩)
    (fits : CallFits core timer.nextSequenceNumber insts)
    (run : timer.simulate core rounds insts =
      .ok (some (last, executed, latency))) :
    ∃ added, Reached core outside ⟨last, .idle, added⟩ := by
  obtain ⟨middle, inserted, loop⟩ := Library.bind_eq_ok.mp run
  have called : Reached core outside
      ⟨timer, .adding timer.nextSequenceNumber insts, history⟩ :=
    ReflTransGen.tail reached (Step.call insts rfl fits)
  obtain ⟨added, reachedAll⟩ := reached_insertAll called inserted
  exact ⟨added, reached_executeLoop positive (reachedAll.advance rfl) loop⟩

end Calls

end Running

end ChipletSniper.Rob
