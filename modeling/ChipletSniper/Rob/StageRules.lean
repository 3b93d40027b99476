import ChipletSniper.Library.Outcomes
import ChipletSniper.Rob.RobInsertion

/-!
# Rules for the stages of the reorder buffer

What every change that a stage makes to the timer keeps, the stage keeps.  No
stage asks for an entry that is not in the queue, if the address producers of
the entries have been added.
-/

namespace ChipletSniper.Rob

open Library (Outcome)

variable {lastReg : Nat} {Outside : Type}

/-- Any assertion but the one of `findEntryBySequenceNumber`. -/
def Failure.Elsewhere (failure : Failure) : Prop := failure ≠ .outsideOfRob

instance (failure : Failure) : Decidable failure.Elsewhere :=
  inferInstanceAs (Decidable (_ ≠ _))

/-! ## Adding and removing dependencies -/

namespace DynamicMicroOp

theorem addDependency_elsewhere (uop : DynamicMicroOp lastReg) (number : Nat) :
    Outcome Failure.Elsewhere (fun _ => True) (uop.addDependency number) := by
  unfold addDependency
  split
  next => trivial
  next =>
    split
    next => trivial
    next => exact Failure.noConfusion

theorem addDependencies_elsewhere (uop : DynamicMicroOp lastReg)
    (numbers : List Nat) :
    Outcome Failure.Elsewhere (fun _ => True) (uop.addDependencies numbers) :=
  Outcome.foldlM (fun number _ uop _ => uop.addDependency_elsewhere number)
    trivial

theorem convertIntra_elsewhere (number last length : Nat)
    (dependencies : List Nat) :
    Outcome Failure.Elsewhere (fun _ => True)
      (convertIntra number last length dependencies) := by
  induction length generalizing dependencies with
  | zero => trivial
  | succ length ih =>
      rw [convertIntra]
      split
      next => trivial
      next =>
        split
        next => exact ih _
        next => exact Failure.noConfusion

theorem removeExplicit_elsewhere (number : Nat) (dependencies : List Nat) :
    Outcome Failure.Elsewhere (fun _ => True)
      (removeExplicit number dependencies) := by
  unfold removeExplicit
  split
  next => exact Failure.noConfusion
  next =>
    split
    next => trivial
    next =>
      split
      next => exact Failure.noConfusion
      next => trivial

theorem removeDependency_elsewhere (uop : DynamicMicroOp lastReg)
    (number : Nat) :
    Outcome Failure.Elsewhere (fun _ => True) (uop.removeDependency number) := by
  unfold removeDependency
  split
  next =>
    apply (convertIntra_elsewhere _ _ _ _).bind
    intro converted _
    dsimp only
    split
    next => trivial
    next => exact Failure.noConfusion
  next =>
    apply (removeExplicit_elsewhere _ _).bind
    exact fun _ _ => trivial

theorem removeDependencies_elsewhere (uop : DynamicMicroOp lastReg)
    (numbers : List Nat) :
    Outcome Failure.Elsewhere (fun _ => True) (numbers.foldlM
      (fun uop number => uop.removeDependency number) uop) :=
  Outcome.foldlM (fun number _ uop _ => uop.removeDependency_elsewhere number)
    trivial

end DynamicMicroOp

namespace RobTimer

variable {core : Core lastReg Outside} {timer : RobTimer lastReg Outside}

/-! ## Looking for an entry -/

/-- What the search for an entry rests on. -/
structure Indexed (timer : RobTimer lastReg Outside) : Prop where
  numbered : ∀ {n : Nat} {entry : RobEntry lastReg},
    timer.entries[n]? = some entry → entry.uop.sequenceNumber = n
  next : timer.nextSequenceNumber = timer.entries.length
  ranged : ∀ entry ∈ timer.entries, entry.uop.Ranged
  addresses : ∀ entry ∈ timer.entries, ∀ p ∈ entry.addressProducers,
    p < timer.entries.length

/-- A number that is valid is found. -/
theorem findEntryBySequenceNumber_of_valid (indexed : timer.Indexed)
    {number : Nat} (valid : timer.lowestValidSequenceNumber ≤ number)
    (known : number < timer.entries.length) :
    ∃ entry, timer.entries[number]? = some entry ∧
      timer.findEntryBySequenceNumber number = .ok entry := by
  have found := List.getElem?_eq_getElem known
  refine ⟨timer.entries[number], found, ?_⟩
  unfold lowestValidSequenceNumber at valid
  unfold findEntryBySequenceNumber
  cases foundFirst : timer.entryAt 0 with
  | none =>
      rw [foundFirst] at valid
      have outside := indexed.next
      simp only at valid
      omega
  | some first =>
      have place : first.uop.sequenceNumber = timer.popped :=
        indexed.numbered foundFirst
      rw [foundFirst] at valid
      simp only [place] at valid ⊢
      have sum : timer.popped + (number - timer.popped) = number := by omega
      rw [if_neg (by omega), entryAt_eq, sum, found]
      simp only [indexed.numbered found, if_true]

theorem Indexed.lowest_le (indexed : timer.Indexed) {number : Nat}
    (low : timer.popped ≤ number) (known : number < timer.entries.length) :
    timer.lowestValidSequenceNumber ≤ number := by
  unfold lowestValidSequenceNumber
  cases foundFirst : timer.entryAt 0 with
  | none =>
      have outside : timer.entries.length ≤ timer.popped :=
        List.getElem?_eq_none_iff.mp foundFirst
      omega
  | some first =>
      have place : first.uop.sequenceNumber = timer.popped :=
        indexed.numbered foundFirst
      exact le_of_eq_of_le place low

theorem findEntryBySequenceNumber_elsewhere (indexed : timer.Indexed)
    {number : Nat} (valid : timer.lowestValidSequenceNumber ≤ number)
    (known : number < timer.entries.length) :
    Outcome Failure.Elsewhere (fun entry => timer.entries[number]? = some entry)
      (timer.findEntryBySequenceNumber number) := by
  obtain ⟨entry, found, run⟩ :=
    findEntryBySequenceNumber_of_valid indexed valid known
  rw [run]
  exact found

/-! ## Telling the dependants -/

theorem findAddress_elsewhere (indexed : timer.Indexed) {number cycleDepend : Nat}
    {producers : List Nat} {readyMax : SubsecondTime} {ready : Bool}
    (known : ∀ p ∈ producers, p < timer.entries.length) :
    Outcome Failure.Elsewhere (fun _ => True)
      (timer.findAddress number cycleDepend producers readyMax ready) := by
  induction producers generalizing readyMax ready with
  | nil => trivial
  | cons producer rest ih =>
      have later : ∀ p ∈ rest, p < timer.entries.length :=
        fun p member => known p (List.mem_cons_of_mem _ member)
      rw [findAddress]
      split
      next valid =>
        apply (findEntryBySequenceNumber_elsewhere indexed valid
          (known producer List.mem_cons_self)).bind
        exact fun _ _ => ih later
      next => exact ih later

theorem wakeAddress_elsewhere (indexed : timer.Indexed) {number cycleDepend : Nat}
    {entry : RobEntry lastReg}
    (known : ∀ p ∈ entry.addressProducers, p < timer.entries.length) :
    Outcome Failure.Elsewhere (fun _ => True)
      (timer.wakeAddress number cycleDepend entry) := by
  unfold wakeAddress
  split
  next =>
    apply (findAddress_elsewhere indexed known).bind
    exact fun _ _ => trivial
  next => trivial

theorem Indexed.update (indexed : timer.Indexed) {dependant : Nat}
    {before after : RobEntry lastReg}
    (found : timer.entries[dependant]? = some before)
    (number : after.uop.sequenceNumber = before.uop.sequenceNumber)
    (ranged : after.uop.Ranged)
    (addresses : after.addressProducers = before.addressProducers) :
    (timer.update dependant after).Indexed := by
  have pointwise := pointwise_replaced found after
  have length : (timer.update dependant after).entries.length =
      timer.entries.length := List.length_set
  constructor
  case numbered =>
    intro n entry foundEntry
    obtain ⟨old, foundOld, replaced⟩ := pointwise.backward foundEntry
    cases replaced with
    | inl here =>
        obtain ⟨-, rfl, rfl⟩ := here
        exact number.trans (indexed.numbered foundOld)
    | inr elsewhere =>
        obtain ⟨-, rfl⟩ := elsewhere
        exact indexed.numbered foundOld
  case next => exact indexed.next.trans length.symm
  case ranged =>
    intro entry member
    cases List.mem_or_eq_of_mem_set member with
    | inl old => exact indexed.ranged entry old
    | inr new =>
        rw [new]
        exact ranged
  case addresses =>
    intro entry member p isProducer
    rw [length]
    cases List.mem_or_eq_of_mem_set member with
    | inl old => exact indexed.addresses entry old p isProducer
    | inr new =>
        rw [new, addresses] at isProducer
        exact indexed.addresses before (List.mem_of_getElem? found) p isProducer

theorem wake_elsewhere (indexed : timer.Indexed)
    (number cycleDepend dependant : Nat) :
    Outcome Failure.Elsewhere Indexed
      (timer.wake number cycleDepend dependant) := by
  have safe : Outcome Failure.Elsewhere (fun _ => True)
      (timer.wake number cycleDepend dependant) := by
    unfold wake
    split
    next => exact Failure.noConfusion
    next entry found =>
      split
      next => exact Failure.noConfusion
      next =>
        apply (entry.uop.removeDependency_elsewhere number).bind
        intro uop _
        dsimp only
        apply (wakeAddress_elsewhere indexed _).bind
        · exact fun _ _ => trivial
        · rw [settle_eq]
          exact indexed.addresses entry (List.mem_of_getElem? found)
  apply safe.strengthen
  intro next run _
  obtain ⟨before, after, found, woken, rfl⟩ := wake_ok indexed.ranged run
  have number := congrArg DynamicMicroOp.sequenceNumber woken.origin
  exact indexed.update found number woken.ranged woken.addressProducers

theorem wakeAll_elsewhere (indexed : timer.Indexed)
    (number cycleDepend : Nat) (dependants : List Nat) :
    Outcome Failure.Elsewhere Indexed (dependants.foldlM
      (fun told dependant => told.wake number cycleDepend dependant) timer) :=
  Outcome.foldlM (fun dependant _ _ indexedTold =>
    wake_elsewhere indexedTold number cycleDepend dependant) indexed

theorem Indexed.sameQueue {next : RobTimer lastReg Outside}
    (indexed : timer.Indexed) (same : SameQueue timer next) : next.Indexed := by
  rw [same]
  exact ⟨indexed.numbered, indexed.next, indexed.ranged, indexed.addresses⟩

theorem Indexed.written (indexed : timer.Indexed) {number latency done : Nat}
    {known : Bool} {entry : RobEntry lastReg}
    (found : timer.entries[number]? = some entry) :
    (timer.writeIssue number done entry { entry.uop with
      execLatency := latency, dCacheKnown := known }).Indexed := by
  have updated := @Indexed.update _ _ _ indexed _ _ { entry with
    uop := { entry.uop with execLatency := latency, dCacheKnown := known }
    issued := (timer.now : SubsecondTime)
    done := (done : SubsecondTime) } found rfl
    (indexed.ranged entry (List.mem_of_getElem? found)) rfl
  exact ⟨updated.numbered, updated.next, updated.ranged, updated.addresses⟩

theorem issueInstruction_elsewhere (indexed : timer.Indexed) {idx : Nat}
    {entry : RobEntry lastReg} (found : timer.entryAt idx = some entry) :
    Outcome Failure.Elsewhere (fun _ => True)
      (timer.issueInstruction core idx entry) := by
  obtain ⟨sameAccess, latency, known, -, sameUop⟩ :=
    access_ok core timer entry.uop
  unfold issueInstruction
  generalize timer.access core entry.uop = accessed at sameAccess sameUop
  obtain ⟨uop, accessTimer⟩ := accessed
  simp only at sameAccess sameUop ⊢
  split
  next => exact Failure.noConfusion
  next =>
    have prepared := sameQueue_prepared core sameAccess uop
      (timer.now + uop.execLatency * core.period + core.period)
    have foundBefore := found
    rw [entryAt_eq] at foundBefore
    rw [sameUop] at prepared ⊢
    apply (wakeAll_elsewhere _ _ _ _).bind
    · exact fun _ _ => trivial
    · apply (indexed.sameQueue prepared).written
      rw [prepared]
      exact foundBefore

/-! ## The stages -/

section Rules

variable (Invariant : RobTimer lastReg Outside → Prop)

section Dispatch

variable (other : ∀ {timer next}, Invariant timer → SameQueue timer next →
  Invariant next)
variable (dispatch : ∀ {timer entry}, Invariant timer →
  timer.numInRob < core.windowSize → timer.rsEntriesUsed ≠ core.rsEntries →
  timer.entryAt timer.numInRob = some entry →
  Invariant (timer.dispatchEntry core entry))

include other dispatch

theorem dispatchLoop_rule
    {remaining uopsDispatched : Nat} {nextEvent : SubsecondTime}
    (room : timer.numInRob + remaining ≤ core.windowSize)
    (inv : Invariant timer) :
    Outcome Failure.Elsewhere (fun result => Invariant result.2)
      (dispatchLoop core remaining uopsDispatched nextEvent timer) := by
  induction remaining generalizing uopsDispatched nextEvent timer with
  | zero => exact inv
  | succ remaining ih =>
      rw [dispatchLoop]
      split
      next => exact Failure.noConfusion
      next entry found =>
        split
        next => exact inv
        next =>
          split
          next => exact other inv rfl
          next =>
            have same : SameQueue timer (if entry.uop.iCacheMiss = true then
                { timer with inIcacheMiss := false } else timer) := by
              split <;> rfl
            generalize (if entry.uop.iCacheMiss = true then
              { timer with inIcacheMiss := false } else timer) = middle at same
            have kept := other inv same
            have sameNumber : middle.numInRob = timer.numInRob := by
              rw [same]
            have foundMiddle : middle.entryAt middle.numInRob = some entry := by
              rw [same]
              exact found
            dsimp only
            split
            next => exact kept
            next free =>
              have dispatched := dispatch kept (by omega) free foundMiddle
              split
              next => exact other dispatched rfl
              next =>
                apply ih _ dispatched
                change middle.numInRob + 1 + remaining ≤ _
                omega

theorem doDispatch_rule
    (room : timer.numInRob ≤ core.windowSize) (inv : Invariant timer) :
    Outcome Failure.Elsewhere (fun result => Invariant result.2)
      (timer.doDispatch core) := by
  unfold doDispatch
  have unlessStalled : Outcome Failure.Elsewhere
      (fun result => Invariant result.2) (timer.dispatchUnlessStalled core) := by
    unfold dispatchUnlessStalled
    split
    next =>
      apply dispatchLoop_rule Invariant other dispatch _ inv
      omega
    next => exact inv
  apply unlessStalled.bind
  intro result kept
  dsimp only
  split <;> exact kept

end Dispatch

section Issue

variable (indexed : ∀ {timer}, Invariant timer → timer.Indexed)
variable (other : ∀ {timer next}, Invariant timer → SameQueue timer next →
  Invariant next)
variable (issue : ∀ {timer next idx entry latency done known},
  Invariant timer → idx < timer.numInRob → timer.entryAt idx = some entry →
  entry.done = ⊤ → entry.ready ≤ timer.now →
  Issues core timer next (timer.popped + idx) entry latency done known →
  Invariant next)

include indexed other issue

theorem issueLoop_rule
    {remaining i : Nat} {scan : IssueScan}
    (inside : i + remaining ≤ timer.numInRob) (inv : Invariant timer) :
    Outcome Failure.Elsewhere (fun result => Invariant result.2)
      (issueLoop core remaining i scan timer) := by
  induction remaining generalizing i scan timer with
  | zero => exact inv
  | succ remaining ih =>
      rw [issueLoop]
      split
      next => exact Failure.noConfusion
      next entry found =>
        split
        next => exact ih (by omega) inv
        next notDone =>
          dsimp only
          generalize decided : timer.decideIssue core
            { scan with nextEvent := min scan.nextEvent entry.ready } entry =
              decision
          split
          next => exact inv
          next =>
            obtain ⟨same, isIssue⟩ :=
              @tryIssue_ok _ _ core timer entry.uop decision
            generalize timer.tryIssue core entry.uop decision = result
              at same isIssue
            obtain ⟨canIssue, middle⟩ := result
            simp only at same isIssue ⊢
            have kept := other inv same
            have sameNumber : middle.numInRob = timer.numInRob := by
              rw [same]
            split
            next free =>
              rw [isIssue free] at decided
              have foundMiddle : middle.entryAt i = some entry := by
                rw [same]
                exact found
              have isReady := ready_of_decideIssue decided
              have ready : entry.ready ≤ middle.now := by
                rw [same]
                exact isReady
              have ranged := (indexed kept).ranged
              have issued : Outcome Failure.Elsewhere (fun result =>
                  Invariant result.2 ∧ result.2.numInRob = middle.numInRob)
                  (middle.issueInstruction core i entry) := by
                apply (issueInstruction_elsewhere (indexed kept)
                  foundMiddle).strengthen
                intro result run _
                obtain ⟨latency, done, known, issues⟩ :=
                  issueInstruction_ok ranged foundMiddle run
                refine ⟨issue kept (by omega) foundMiddle (not_not.mp notDone)
                  ready issues, ?_⟩
                rw [issues.rest]
              apply issued.bind
              intro result after
              obtain ⟨keptAfter, sameAfter⟩ := after
              split
              next => exact keptAfter
              next => exact ih (by omega) keptAfter
            next =>
              split
              next => exact kept
              next => exact ih (by omega) kept

theorem doIssue_rule (inv : Invariant timer) :
    Outcome Failure.Elsewhere (fun result => Invariant result.2)
      (timer.doIssue core) := by
  have same := sameQueue_initCycle core timer
  have inside : (timer.initCycle core).numInRob = timer.numInRob := by
    rw [same]
  exact issueLoop_rule Invariant indexed other issue (by omega) (other inv same)

end Issue

section Commit

variable (commit : ∀ {timer entry}, Invariant timer →
  timer.entryAt 0 = some entry → entry.done ≤ timer.now →
  Invariant timer.pop)

include commit

theorem commitLoop_rule
    {remaining numCommitted executed : Nat} (inv : Invariant timer) :
    Invariant (commitLoop core remaining numCommitted executed timer).2 := by
  induction remaining generalizing numCommitted executed timer with
  | zero => exact inv
  | succ remaining ih =>
      rw [commitLoop]
      split
      next => exact inv
      next entry found =>
        split
        next isDone =>
          have kept := commit inv found isDone
          dsimp only
          split
          next => exact kept
          next => exact ih kept
        next => exact inv

theorem doCommit_rule (inv : Invariant timer) :
    Invariant (timer.doCommit core).2.2 := by
  have kept : Invariant (commitLoop core timer.size 0 0 timer).2 :=
    commitLoop_rule Invariant commit inv
  unfold doCommit
  generalize commitLoop core timer.size 0 0 timer = result at kept
  obtain ⟨executed, next⟩ := result
  dsimp only at kept ⊢
  split <;> exact kept

end Commit

/-- The width bounds what is committed, unless it is zero. -/
theorem popped_commitLoop {remaining numCommitted executed : Nat}
    (below : numCommitted < core.commitWidth) :
    (commitLoop core remaining numCommitted executed timer).2.popped +
      numCommitted ≤ timer.popped + core.commitWidth := by
  induction remaining generalizing numCommitted executed timer with
  | zero =>
      change timer.popped + numCommitted ≤ _
      omega
  | succ remaining ih =>
      have here : timer.popped + numCommitted ≤
          timer.popped + core.commitWidth := by omega
      have one : timer.pop.popped = timer.popped + 1 := rfl
      rw [commitLoop]
      split
      next => exact here
      next entry _ =>
        split
        next =>
          dsimp only
          split
          next =>
            change timer.pop.popped + numCommitted ≤ _
            omega
          next different =>
            have later := @ih timer.pop (numCommitted + 1)
              (if entry.uop.last = true then executed + 1 else executed)
              (by omega)
            omega
        next => exact here

theorem popped_doCommit (width : core.commitWidth ≠ 0) :
    (timer.doCommit core).2.2.popped ≤ timer.popped + core.commitWidth := by
  have bound := @popped_commitLoop _ _ core timer timer.size 0 0
    (Nat.pos_of_ne_zero width)
  unfold doCommit
  generalize commitLoop core timer.size 0 0 timer = result at bound
  obtain ⟨executed, next⟩ := result
  dsimp only at bound ⊢
  split <;> exact bound

end Rules

end RobTimer

end ChipletSniper.Rob
