import ChipletSniper.Rob.RobInvariant

/-!
# The stages of the reorder buffer are moves

Every cycle of the timer is a sequence of moves, so what the moves keep holds
after every cycle.
-/

namespace ChipletSniper.Rob

open Relation (ReflTransGen)

variable {lastReg : Nat} {Outside : Type}

namespace RobTimer

variable {core : Core lastReg Outside} {timer : RobTimer lastReg Outside}

/-! ## Numbers and places -/

theorem entryAt_eq (timer : RobTimer lastReg Outside) (idx : Nat) :
    timer.entryAt idx = timer.entries[timer.popped + idx]? := rfl

theorem findEntryBySequenceNumber_ok
    (numbered : ∀ {n : Nat} {entry : RobEntry lastReg},
      timer.entries[n]? = some entry → entry.uop.sequenceNumber = n)
    {number : Nat} {entry : RobEntry lastReg}
    (run : timer.findEntryBySequenceNumber number = .ok entry) :
    timer.entries[number]? = some entry ∧ timer.popped ≤ number := by
  unfold findEntryBySequenceNumber at run
  cases foundFirst : timer.entryAt 0 with
  | none =>
      rw [foundFirst] at run
      cases run
  | some first =>
      have place : first.uop.sequenceNumber = timer.popped :=
        numbered foundFirst
      rw [foundFirst] at run
      simp only [place] at run
      split at run
      next => cases run
      next notSmaller =>
        have sum : timer.popped + (number - timer.popped) = number := by omega
        rw [entryAt_eq, sum] at run
        cases found : timer.entries[number]? with
        | none =>
            rw [found] at run
            cases run
        | some other =>
            rw [found] at run
            simp only [numbered found, if_true] at run
            cases run
            exact ⟨rfl, by omega⟩

theorem lowestValidSequenceNumber_eq (base : Base timer.view) :
    timer.lowestValidSequenceNumber = timer.popped := by
  unfold lowestValidSequenceNumber
  cases foundFirst : timer.entryAt 0 with
  | none =>
      have outside : timer.entries.length ≤ timer.popped :=
        List.getElem?_eq_none_iff.mp foundFirst
      exact (base.next).trans (Nat.le_antisymm outside base.popped)
  | some first => exact base.numbered foundFirst

/-! ## Dispatch -/

theorem dispatchLoop_moves {remaining uopsDispatched : Nat}
    {nextEvent event : SubsecondTime} {next : RobTimer lastReg Outside}
    (run : dispatchLoop core remaining uopsDispatched nextEvent timer =
      .ok (event, next)) :
    ReflTransGen (Move core.period) timer.view next.view := by
  induction remaining generalizing uopsDispatched nextEvent timer with
  | zero =>
      cases run
      exact ReflTransGen.refl
  | succ remaining ih =>
      rw [dispatchLoop] at run
      cases found : timer.entryAt timer.numInRob with
      | none =>
          rw [found] at run
          cases run
      | some entry =>
          rw [found] at run
          simp only at run
          split at run
          next =>
            cases run
            exact ReflTransGen.refl
          next =>
            split at run
            next =>
              cases run
              exact ReflTransGen.refl
            next =>
              generalize returned : (if entry.uop.iCacheMiss = true then
                { timer with inIcacheMiss := false } else timer) = middle at run
              have sameView : middle.view = timer.view := by
                rw [← returned]
                split <;> rfl
              split at run
              next =>
                cases run
                rw [sameView]
              next =>
                have foundMiddle : middle.view.entries[middle.view.popped +
                    middle.view.numInRob]? = some entry := by
                  rw [sameView]
                  exact found
                have move : Move core.period middle.view _ :=
                  Move.dispatch entry foundMiddle
                rw [sameView] at move
                split at run
                next =>
                  cases run
                  apply ReflTransGen.single
                  convert move using 1
                  rw [← sameView]
                  rfl
                next =>
                  apply ReflTransGen.head move
                  convert ih run using 1
                  rw [← sameView]
                  rfl

theorem doDispatch_moves {event : SubsecondTime}
    {next : RobTimer lastReg Outside}
    (run : timer.doDispatch core = .ok (event, next)) :
    ReflTransGen (Move core.period) timer.view next.view := by
  unfold doDispatch at run
  obtain ⟨⟨inner, middle⟩, head, tail⟩ := Library.bind_eq_ok.mp run
  have same : middle = next := by
    dsimp only at tail
    split at tail <;> cases tail <;> rfl
  rw [← same]
  unfold dispatchUnlessStalled at head
  split at head
  next => exact dispatchLoop_moves head
  next =>
    cases head
    exact ReflTransGen.refl

/-! ## The dependants of what is issued -/

end RobTimer

namespace DynamicMicroOp.SameButDependencies

variable {uop next : DynamicMicroOp lastReg}

theorem microOp (same : SameButDependencies uop next) :
    next.microOp = uop.microOp := by
  unfold SameButDependencies at same
  rw [same]

theorem sequenceNumber (same : SameButDependencies uop next) :
    next.sequenceNumber = uop.sequenceNumber := by
  unfold SameButDependencies at same
  rw [same]

theorem address (same : SameButDependencies uop next) :
    next.address = uop.address := by
  unfold SameButDependencies at same
  rw [same]

theorem execLatency (same : SameButDependencies uop next) :
    next.execLatency = uop.execLatency := by
  unfold SameButDependencies at same
  rw [same]

end DynamicMicroOp.SameButDependencies

namespace Woken

variable {number cycleDepend : Nat} {entry next : RobEntry lastReg}

theorem refl (number cycleDepend : Nat) (ranged : entry.uop.Ranged) :
    Woken number cycleDepend 0 entry entry where
  origin := rfl
  lowest := rfl
  latency := rfl
  dependants := rfl
  dispatched := rfl
  issued := rfl
  done := rfl
  addressProducers := rfl
  ranged := ranged
  counts other := by rw [ite_self, Nat.sub_zero]
  readyMax := (if_pos rfl).symm
  ready := (if_neg (fun both => both.1 rfl)).symm

theorem trans {first second : Nat} {last : RobEntry lastReg}
    (head : Woken number cycleDepend first entry next)
    (tail : Woken number cycleDepend second next last) :
    Woken number cycleDepend (first + second) entry last where
  origin := tail.origin.trans head.origin
  lowest := tail.lowest.trans head.lowest
  latency := tail.latency.trans head.latency
  dependants := tail.dependants.trans head.dependants
  dispatched := tail.dispatched.trans head.dispatched
  issued := tail.issued.trans head.issued
  done := tail.done.trans head.done
  addressProducers := tail.addressProducers.trans head.addressProducers
  ranged := tail.ranged
  counts other := by
    rw [tail.counts, head.counts, Nat.sub_sub]
    split <;> rfl
  readyMax := by
    rw [tail.readyMax, head.readyMax]
    by_cases zero : first = 0
    · simp [zero]
    · by_cases zeroSecond : second = 0
      · simp [zero, zeroSecond]
      · simp [zero, zeroSecond]
  ready := by
    by_cases zero : second = 0
    · subst zero
      have sameEmpty : last.uop.dependencyList = [] ↔
          next.uop.dependencyList = [] := by
        refine ⟨tail.dependencyList_eq_nil, fun empty => ?_⟩
        rw [List.eq_nil_iff_forall_not_mem]
        intro other listed
        have := tail.mem listed
        rw [empty] at this
        cases this
      rw [tail.ready, if_neg (fun both => both.1 rfl), head.ready,
        tail.readyMax, if_pos rfl, Nat.add_zero]
      simp only [sameEmpty]
    · by_cases empty : last.uop.dependencyList = []
      · rw [tail.ready, if_pos ⟨zero, empty⟩, if_pos ⟨by omega, empty⟩]
      · have some : next.uop.dependencyList ≠ [] := by
          intro emptyNext
          apply empty
          rw [List.eq_nil_iff_forall_not_mem]
          intro other listed
          have := tail.mem listed
          rw [emptyNext] at this
          cases this
        rw [tail.ready, if_neg (fun both => empty both.2), head.ready,
          if_neg (fun both => some both.2), if_neg (fun both => empty both.2)]

end Woken

namespace RobTimer

variable {core : Core lastReg Outside} {timer : RobTimer lastReg Outside}

theorem settle_eq (entry : RobEntry lastReg) :
    entry.settle = { entry with
      ready := if entry.uop.dependencyList = [] then entry.readyMax
        else entry.ready } := by
  unfold RobEntry.settle
  by_cases empty : entry.uop.dependencyList = []
  · rw [if_pos (DynamicMicroOp.getDependenciesLength_eq_zero.mpr empty),
      if_pos empty]
  · rw [if_neg (fun zero => empty
      (DynamicMicroOp.getDependenciesLength_eq_zero.mp zero)), if_neg empty]

theorem wakeAddress_ok {number cycleDepend : Nat}
    {entry next : RobEntry lastReg}
    (run : timer.wakeAddress number cycleDepend entry = .ok next) :
    ∃ addressReadyMax addressReady, next = { entry with
      addressReadyMax := addressReadyMax, addressReady := addressReady } := by
  unfold wakeAddress at run
  split at run
  next =>
    obtain ⟨result, -, tail⟩ := Library.bind_eq_ok.mp run
    cases tail
    exact ⟨_, _, rfl⟩
  next =>
    cases run
    exact ⟨_, _, rfl⟩

theorem wake_ok {number cycleDepend dependant : Nat}
    {next : RobTimer lastReg Outside}
    (ranged : ∀ entry ∈ timer.entries, entry.uop.Ranged)
    (run : timer.wake number cycleDepend dependant = .ok next) :
    ∃ before after, timer.entries[dependant]? = some before ∧
      Woken number cycleDepend 1 before after ∧
      next = timer.update dependant after := by
  unfold wake at run
  cases found : timer.entries[dependant]? with
  | none =>
      rw [found] at run
      cases run
  | some before =>
      rw [found] at run
      simp only at run
      split at run
      next => cases run
      next =>
        obtain ⟨uop, removed, run⟩ := Library.bind_eq_ok.mp run
        obtain ⟨after, woken, run⟩ := Library.bind_eq_ok.mp run
        cases run
        obtain ⟨same, rangedNext, -, perm⟩ := DynamicMicroOp.removeDependency_ok
          (ranged before (List.mem_of_getElem? found)) removed
        rw [settle_eq] at woken
        obtain ⟨_, _, rfl⟩ := wakeAddress_ok woken
        have counts : ∀ other, uop.dependencyList.count other =
            before.uop.dependencyList.count other -
              if other = number then 1 else 0 := by
          intro other
          rw [perm.count_eq, List.count_erase]
          by_cases isNumber : other = number
          · rw [isNumber, beq_self_eq_true, if_pos rfl, if_pos rfl]
          · rw [if_neg isNumber, if_neg (fun equal =>
              isNumber (beq_iff_eq.mp equal).symm)]
        have origin : RobEntry.origin { before with uop := uop } =
            before.origin := by
          unfold RobEntry.origin
          rw [same.microOp, same.sequenceNumber, same.address]
        refine ⟨before, _, rfl, ?_, rfl⟩
        refine ⟨origin, rfl, same.execLatency, rfl, rfl, rfl, rfl, rfl, rangedNext,
          counts, rfl, ?_⟩
        by_cases empty : uop.dependencyList = []
        · exact (if_pos empty).trans (if_pos ⟨Nat.one_ne_zero, empty⟩).symm
        · exact (if_neg empty).trans (if_neg (fun both => empty both.2)).symm

/-- The loop over the dependants tells each as often as it occurs. -/
theorem wakeAll_ok {number cycleDepend : Nat} {dependants : List Nat}
    {next : RobTimer lastReg Outside}
    (ranged : ∀ entry ∈ timer.entries, entry.uop.Ranged)
    (run : dependants.foldlM
      (fun timer dependant => timer.wake number cycleDepend dependant) timer =
        .ok next) :
    next = { timer with entries := next.entries } ∧
      Library.Pointwise (fun place before after =>
          Woken number cycleDepend (dependants.count place) before after)
        timer.entries next.entries := by
  induction dependants generalizing timer with
  | nil =>
      cases run
      refine ⟨rfl, rfl, fun {place entry} found => ⟨entry, found, ?_⟩⟩
      exact Woken.refl number cycleDepend
        (ranged entry (List.mem_of_getElem? found))
  | cons dependant dependants ih =>
      rw [List.foldlM_cons] at run
      obtain ⟨middle, head, tail⟩ := Library.bind_eq_ok.mp run
      obtain ⟨before, after, found, woken, rfl⟩ := wake_ok ranged head
      have one : Library.Pointwise (fun place before after =>
          Woken number cycleDepend (if place = dependant then 1 else 0)
            before after)
          timer.entries (timer.entries.set dependant after) := by
        apply Library.Pointwise.set found
        · rw [if_pos rfl]
          exact woken
        · intro other entry different foundOther
          rw [if_neg different]
          exact Woken.refl number cycleDepend
            (ranged entry (List.mem_of_getElem? foundOther))
      have rangedMiddle : ∀ entry ∈ (timer.update dependant after).entries,
          entry.uop.Ranged := by
        intro entry member
        obtain ⟨place, foundEntry⟩ := List.mem_iff_getElem?.mp member
        obtain ⟨_, _, related⟩ := one.backward foundEntry
        exact related.ranged
      obtain ⟨same, rest⟩ := ih rangedMiddle tail
      refine ⟨same, one.trans ?_ rest⟩
      intro place entry middle last first second
      have both := first.trans second
      rw [List.count_cons, Nat.add_comm]
      simp only [beq_iff_eq, eq_comm (a := dependant)]
      exact both

/-! ## Issue -/

/-- Two states that differ outside of the queue only. -/
def SameQueue (timer next : RobTimer lastReg Outside) : Prop :=
  next = { timer with
    frontendStalledUntil := next.frontendStalledUntil
    inIcacheMiss := next.inIcacheMiss
    lastStoreDone := next.lastStoreDone
    loadQueue := next.loadQueue
    storeQueue := next.storeQueue
    outside := next.outside }

theorem SameQueue.trans {first second third : RobTimer lastReg Outside}
    (before : SameQueue first second) (after : SameQueue second third) :
    SameQueue first third := by
  unfold SameQueue at *
  rw [before] at after
  exact after

theorem SameQueue.view {next : RobTimer lastReg Outside}
    (same : SameQueue timer next) : next.view = timer.view := by
  rw [same]
  rfl

theorem access_ok (core : Core lastReg Outside)
    (timer : RobTimer lastReg Outside) (uop : DynamicMicroOp lastReg) :
    SameQueue timer (timer.access core uop).2 ∧
      ∃ latency known, uop.execLatency ≤ latency ∧
        (timer.access core uop).1 =
          { uop with execLatency := latency, dCacheKnown := known } := by
  unfold access
  split
  next => exact ⟨rfl, _, _, Nat.le_add_right _ _, rfl⟩
  next => exact ⟨rfl, _, _, Nat.le_refl _, rfl⟩

theorem sameQueue_enqueue (core : Core lastReg Outside)
    (timer : RobTimer lastReg Outside) (uop : DynamicMicroOp lastReg) :
    SameQueue timer (timer.enqueue core uop) := by
  unfold enqueue
  split
  next => rfl
  next => split <;> rfl

theorem sameQueue_takePort (core : Core lastReg Outside)
    (timer : RobTimer lastReg Outside) (uop : DynamicMicroOp lastReg) :
    SameQueue timer (timer.takePort core uop) := by
  unfold takePort
  split <;> rfl

theorem sameQueue_resolveBranch (core : Core lastReg Outside)
    (timer : RobTimer lastReg Outside) (uop : DynamicMicroOp lastReg) :
    SameQueue timer (timer.resolveBranch core uop) := by
  unfold resolveBranch
  split <;> rfl

theorem sameQueue_recordStore (timer : RobTimer lastReg Outside)
    (uop : DynamicMicroOp lastReg) (executed : Nat) :
    SameQueue timer (timer.recordStore uop executed) := by
  unfold recordStore
  split <;> rfl

/-- What happens to the load and the store queue and to the contention model
before the entry is written. -/
theorem sameQueue_prepared (core : Core lastReg Outside)
    {accessed : RobTimer lastReg Outside} (same : SameQueue timer accessed)
    (uop : DynamicMicroOp lastReg) (executed : Nat) :
    SameQueue timer
      (((accessed.enqueue core uop).recordStore uop executed).takePort
        core uop) :=
  ((same.trans (sameQueue_enqueue core accessed uop)).trans
    (sameQueue_recordStore _ uop executed)).trans
      (sameQueue_takePort core _ uop)

/-- What `issueInstruction` does to the queue, with the latency that the entry
has then. -/
structure Issues (core : Core lastReg Outside)
    (timer next : RobTimer lastReg Outside) (number : Nat)
    (entry : RobEntry lastReg) (latency done : Nat) (known : Bool) : Prop where
  longer : entry.uop.execLatency ≤ latency
  later : timer.now +
    (entry.issue timer.now latency done known).uop.resultLatency *
      core.period ≤ done
  rest : SameQueue { timer with
    entries := next.entries, rsEntriesUsed := timer.rsEntriesUsed - 1 } next
  woken : Library.Pointwise (fun place before after =>
      Woken number (timer.now +
        (entry.issue timer.now latency done known).uop.resultLatency *
          core.period)
        (entry.dependants.count place) before after)
    (timer.entries.set number (entry.issue timer.now latency done known))
    next.entries

theorem issueInstruction_ok {idx : Nat} {entry : RobEntry lastReg}
    {event : SubsecondTime} {next : RobTimer lastReg Outside}
    (ranged : ∀ entry ∈ timer.entries, entry.uop.Ranged)
    (found : timer.entryAt idx = some entry)
    (run : timer.issueInstruction core idx entry = .ok (event, next)) :
    ∃ latency done known,
      Issues core timer next (timer.popped + idx) entry latency done known := by
  obtain ⟨sameAccess, latency, known, longer, sameUop⟩ :=
    access_ok core timer entry.uop
  unfold issueInstruction at run
  generalize timer.access core entry.uop = accessed at run sameAccess sameUop
  obtain ⟨uop, accessTimer⟩ := accessed
  simp only at run sameAccess sameUop
  have later : timer.now + uop.resultLatency * core.period ≤
      (if uop.microOp.isStore then timer.now + core.period
      else timer.now + uop.execLatency * core.period + core.period) := by
    unfold DynamicMicroOp.resultLatency
    split
    next => rw [Nat.one_mul]
    next => exact Nat.le_add_right _ _
  generalize (if uop.microOp.isStore then timer.now + core.period
    else timer.now + uop.execLatency * core.period + core.period) = done
      at run later
  generalize timer.now + uop.execLatency * core.period + core.period =
    executed at run
  split at run
  next => cases run
  next =>
    obtain ⟨told, loop, result⟩ := Library.bind_eq_ok.mp run
    cases result
    have queued := sameQueue_prepared core sameAccess uop executed
    generalize ((accessTimer.enqueue core uop).recordStore uop
      executed).takePort core uop = before at queued loop
    have sameWritten : SameQueue { timer with
          entries := timer.entries.set (timer.popped + idx)
            (entry.issue timer.now latency done known)
          rsEntriesUsed := timer.rsEntriesUsed - 1 }
        (before.writeIssue (timer.popped + idx) done entry uop) := by
      rw [queued, sameUop]
      rfl
    have sameEntries := congrArg RobTimer.entries sameWritten
    generalize before.writeIssue (timer.popped + idx) done entry uop = written
      at sameWritten sameEntries loop
    have rangedWritten : ∀ other ∈ written.entries, other.uop.Ranged := by
      intro other member
      rw [sameEntries] at member
      cases List.mem_or_eq_of_mem_set member with
      | inl old => exact ranged other old
      | inr new =>
          rw [new]
          exact ranged entry (List.mem_of_getElem? found)
    obtain ⟨same, woken⟩ := wakeAll_ok rangedWritten loop
    rw [sameEntries] at woken
    rw [sameUop] at woken later
    refine ⟨latency, done, known, longer, later, ?_, ?_⟩
    · have resolved := sameQueue_resolveBranch core told uop
      have sameTold : (told.resolveBranch core uop).entries = told.entries := by
        rw [resolved]
      rw [sameTold]
      apply SameQueue.trans _ resolved
      rw [same, sameWritten]
      rfl
    · have sameTold : (told.resolveBranch core uop).entries = told.entries := by
        rw [sameQueue_resolveBranch core told uop]
      rw [sameTold]
      exact woken

theorem issueInstruction_moves (base : Base timer.view) {idx : Nat}
    {entry : RobEntry lastReg} {event : SubsecondTime}
    {next : RobTimer lastReg Outside}
    (found : timer.entryAt idx = some entry) (queued : idx < timer.numInRob)
    (waiting : entry.done = ⊤) (ready : entry.ready ≤ timer.now)
    (run : timer.issueInstruction core idx entry = .ok (event, next)) :
    next.view = { timer.view with entries := next.view.entries } ∧
      Move core.period timer.view next.view := by
  have ranged : ∀ other ∈ timer.entries, other.uop.Ranged := by
    intro other member
    obtain ⟨place, foundOther⟩ := List.mem_iff_getElem?.mp member
    exact (base.sound foundOther).ranged
  obtain ⟨latency, done, known, issues⟩ := issueInstruction_ok ranged found run
  have shape : next.view = { timer.view with entries := next.view.entries } :=
    issues.rest.view
  refine ⟨shape, ?_⟩
  rw [shape]
  exact Move.issue (timer.popped + idx) latency done known entry next.entries
    found (Nat.add_lt_add_left queued timer.popped) waiting ready issues.longer
    ((Nat.le_add_right _ _).trans issues.later) issues.woken

theorem ready_of_decideIssue {scan : IssueScan} {entry : RobEntry lastReg}
    (decision : timer.decideIssue core scan entry = .issue) :
    entry.ready ≤ timer.now := by
  by_contra waits
  unfold decideIssue at decision
  rw [if_pos (not_le.mp waits)] at decision
  cases decision

theorem tryIssue_ok {uop : DynamicMicroOp lastReg} {decision : Decision} :
    SameQueue timer (timer.tryIssue core uop decision).2 ∧
      ((timer.tryIssue core uop decision).1 = true → decision = .issue) := by
  unfold tryIssue
  split
  next => exact ⟨rfl, fun _ => rfl⟩
  next => exact ⟨rfl, fun _ => rfl⟩
  next => exact ⟨rfl, fun free => by cases free⟩

theorem issueLoop_moves (base : Base timer.view) {remaining i : Nat}
    {scan : IssueScan} {event : SubsecondTime} {next : RobTimer lastReg Outside}
    (inside : i + remaining ≤ timer.numInRob)
    (run : issueLoop core remaining i scan timer = .ok (event, next)) :
    ReflTransGen (Move core.period) timer.view next.view := by
  induction remaining generalizing i scan timer with
  | zero =>
      cases run
      exact ReflTransGen.refl
  | succ remaining ih =>
      rw [issueLoop] at run
      cases found : timer.entryAt i with
      | none =>
          rw [found] at run
          cases run
      | some entry =>
          rw [found] at run
          simp only at run
          split at run
          next => exact ih base (by omega) run
          next notDone =>
            generalize decided : timer.decideIssue core
              { scan with nextEvent := min scan.nextEvent entry.ready } entry =
                decision at run
            split at run
            next =>
              cases run
              exact ReflTransGen.refl
            next =>
              have tried := @tryIssue_ok _ _ core timer entry.uop decision
              generalize timer.tryIssue core entry.uop decision = result
                at run tried
              obtain ⟨canIssue, middle⟩ := result
              obtain ⟨sameQueue, isIssue⟩ := tried
              simp only at run sameQueue isIssue
              have sameView := sameQueue.view
              have sameNumber : middle.numInRob = timer.numInRob :=
                congrArg View.numInRob sameView
              rw [← sameView] at base
              split at run
              next free =>
                rw [isIssue free] at decided
                obtain ⟨⟨done, issued⟩, one, rest⟩ :=
                  Library.bind_eq_ok.mp run
                have foundMiddle : middle.entryAt i = some entry := by
                  have samePlace : middle.view.entries[middle.view.popped + i]? =
                      timer.view.entries[timer.view.popped + i]? := by
                    rw [sameView]
                  exact samePlace.trans found
                have ready : entry.ready ≤ middle.now := by
                  have sameNow : middle.now = timer.now :=
                    congrArg View.now sameView
                  rw [sameNow]
                  exact ready_of_decideIssue decided
                obtain ⟨shape, move⟩ := issueInstruction_moves base foundMiddle
                  (by omega) (not_not.mp notDone) ready one
                rw [sameView] at move
                apply ReflTransGen.head move
                simp only at rest
                split at rest
                next =>
                  cases rest
                  exact ReflTransGen.refl
                next =>
                  have sameIssued : issued.numInRob = middle.numInRob :=
                    congrArg View.numInRob shape
                  rw [sameView] at base
                  exact ih (base.move move) (by omega) rest
              next =>
                split at run
                next =>
                  cases run
                  rw [sameView]
                next =>
                  rw [← sameView]
                  exact ih base (by omega) run

theorem sameQueue_initCycle (core : Core lastReg Outside)
    (timer : RobTimer lastReg Outside) :
    SameQueue timer (timer.initCycle core) := by
  unfold initCycle
  split <;> rfl

theorem doIssue_moves (base : Base timer.view) {event : SubsecondTime}
    {next : RobTimer lastReg Outside}
    (run : timer.doIssue core = .ok (event, next)) :
    ReflTransGen (Move core.period) timer.view next.view := by
  have sameView := (sameQueue_initCycle core timer).view
  have sameNumber : (timer.initCycle core).numInRob = timer.numInRob :=
    congrArg View.numInRob sameView
  rw [← sameView] at base ⊢
  exact issueLoop_moves base (by omega) run

/-! ## Commit and cycles -/

theorem commitLoop_moves (remaining numCommitted instructionsExecuted : Nat) :
    ReflTransGen (Move core.period) timer.view
      (commitLoop core remaining numCommitted instructionsExecuted
        timer).2.view := by
  induction remaining generalizing numCommitted instructionsExecuted timer with
  | zero => exact ReflTransGen.refl
  | succ remaining ih =>
      rw [commitLoop]
      cases found : timer.entryAt 0 with
      | none => exact ReflTransGen.refl
      | some entry =>
          simp only
          split
          next isDone =>
            have move : Move core.period timer.view timer.pop.view :=
              Move.commit entry found isDone
            generalize (if entry.uop.last = true then instructionsExecuted + 1
              else instructionsExecuted) = executed
            split
            next => exact ReflTransGen.single move
            next => exact ReflTransGen.head move (ih _ _)
          next => exact ReflTransGen.refl

theorem doCommit_moves :
    ReflTransGen (Move core.period) timer.view (timer.doCommit core).2.2.view := by
  have moves := @commitLoop_moves _ _ core timer timer.size 0 0
  unfold doCommit
  generalize commitLoop core timer.size 0 0 timer = result at moves
  obtain ⟨instructionsExecuted, next⟩ := result
  simp only at moves ⊢
  split <;> exact moves

/-- The invariant along moves. -/
theorem base_of_moves {period : Nat} {view next : View lastReg}
    (base : Base view) (moves : ReflTransGen (Move period) view next) :
    Base next :=
  Library.invariant_of_reflTransGen Base (fun base move => base.move move) base
    moves

theorem execute_moves (base : Base timer.view)
    {next : RobTimer lastReg Outside} {executed latency : Nat}
    (run : timer.execute core = .ok (next, executed, latency)) :
    ReflTransGen (Move core.period) timer.view next.view := by
  unfold execute at run
  split at run
  next =>
    cases run
    exact ReflTransGen.refl
  next =>
    obtain ⟨⟨nextDispatch, dispatched⟩, dispatch, run⟩ :=
      Library.bind_eq_ok.mp run
    obtain ⟨⟨nextIssue, issued⟩, issue, run⟩ := Library.bind_eq_ok.mp run
    cases run
    have dispatchMoves := doDispatch_moves dispatch
    have issueMoves := doIssue_moves (base_of_moves base dispatchMoves) issue
    have commitMoves := @doCommit_moves _ _ core issued
    refine (dispatchMoves.trans (issueMoves.trans commitMoves)).tail ?_
    exact Move.tick _ (Nat.le_add_right _ _)

end RobTimer

end ChipletSniper.Rob
