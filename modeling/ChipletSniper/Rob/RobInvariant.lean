import ChipletSniper.Library.Pointwise
import ChipletSniper.Library.Runs
import ChipletSniper.Rob.DependencyTracking
import ChipletSniper.Rob.RobTimer

/-!
# What the stages of the reorder buffer keep

The stages are reduced to four moves, and the addition of a micro-operation:
dispatch, issue, commit and the passing of time.  As long as a producer is not
issued, it lists its dependants exactly as often as they list it.
-/

namespace ChipletSniper.Rob

variable {lastReg : Nat} {Outside : Type}

/-! ## Adding and removing dependencies -/

namespace DynamicMicroOp

/-- The numbers of the range do not wrap around if there are any. -/
def Ranged (uop : DynamicMicroOp lastReg) : Prop :=
  uop.inRange ∨ uop.intraInstructionDependencies = 0

/-- Two states of a micro-operation that differ in their dependencies only. -/
def SameButDependencies (uop next : DynamicMicroOp lastReg) : Prop :=
  next = { uop with
    intraInstructionDependencies := next.intraInstructionDependencies
    dependencies := next.dependencies }

theorem SameButDependencies.trans {first second third : DynamicMicroOp lastReg}
    (before : SameButDependencies first second)
    (after : SameButDependencies second third) :
    SameButDependencies first third := by
  unfold SameButDependencies at *
  rw [before] at after
  exact after

theorem mem_of_removeExplicit {number : Nat} {dependencies rest : List Nat}
    (run : removeExplicit number dependencies = .ok rest) :
    number ∈ dependencies := by
  unfold removeExplicit at run
  split at run
  next => cases run
  next =>
    split at run
    next ends => exact List.mem_of_getLast? ends
    next =>
      split at run
      next => cases run
      next idx found =>
        obtain ⟨before, same, -⟩ := List.idxOf?_eq_some_iff.mp found
        rw [← same]
        exact List.getElem_mem before

/-- Whatever `removeDependency` accepts is removed once. -/
theorem removeDependency_ok {uop next : DynamicMicroOp lastReg} {number : Nat}
    (ranged : uop.Ranged) (run : uop.removeDependency number = .ok next) :
    SameButDependencies uop next ∧ next.Ranged ∧
      number ∈ uop.dependencyList ∧
      next.dependencyList.Perm (uop.dependencyList.erase number) := by
  by_cases first : uop.firstIntra ≤ number
  · cases ranged with
    | inl range =>
        by_cases inside : number < uop.sequenceNumber - uop.microOpTypeOffset
        · have listed : number ∈ uop.dependencyList := by
            have start := firstIntra_of_inRange range
            rw [dependencyList_eq, List.mem_append, List.mem_range'_1]
            left
            omega
          rw [removeDependency_inside first inside range] at run
          split at run
          next =>
            cases run
            refine ⟨rfl, Or.inl ?_, listed, removed_perm first inside range⟩
            unfold inRange withoutIntra at *
            simp only
            omega
          next => cases run
        · exact absurd run (removeDependency_outside (by omega) range next)
    | inr empty =>
        rw [removeDependency, if_pos first, empty] at run
        cases run
  · rw [removeDependency, if_neg first] at run
    cases explicit : removeExplicit number uop.dependencies with
    | error failure =>
        rw [explicit] at run
        cases run
    | ok rest =>
        have listed := mem_of_removeExplicit explicit
        obtain ⟨same, found, perm⟩ := removeExplicit_of_mem listed
        rw [explicit] at run found
        cases run
        cases found
        refine ⟨rfl, ranged, ?_, ?_⟩
        · rw [dependencyList_eq]
          exact List.mem_append_right _ listed
        · have outside : number ∉
              List.range' uop.firstIntra uop.intraInstructionDependencies := by
            rw [List.mem_range'_1]
            exact fun inRange => first inRange.1
          rw [dependencyList_eq, dependencyList_eq,
            List.erase_append_right _ outside]
          exact perm.append_left _

theorem addDependency_ok {uop next : DynamicMicroOp lastReg} {number : Nat}
    (run : uop.addDependency number = .ok next) :
    SameButDependencies uop next ∧
      next.intraInstructionDependencies = uop.intraInstructionDependencies ∧
      ∀ other, other ∈ next.dependencyList ↔
        other ∈ uop.dependencyList ∨ other = number := by
  unfold addDependency at run
  split at run
  next member =>
    cases run
    refine ⟨rfl, rfl, fun other => ⟨Or.inl, ?_⟩⟩
    intro either
    cases either with
    | inl listed => exact listed
    | inr same =>
        rw [same, dependencyList_eq]
        exact List.mem_append_right _ member
  next =>
    split at run
    next =>
      cases run
      refine ⟨rfl, rfl, fun other => ?_⟩
      rw [dependencyList_eq, dependencyList_eq]
      simp only [List.mem_append, List.mem_singleton]
      exact or_assoc.symm
    next => cases run

/-- `addDependency` for one number after the other. -/
theorem addDependencies_ok {uop next : DynamicMicroOp lastReg}
    {numbers : List Nat} (run : uop.addDependencies numbers = .ok next) :
    SameButDependencies uop next ∧
      next.intraInstructionDependencies = uop.intraInstructionDependencies ∧
      ∀ other, other ∈ next.dependencyList ↔
        other ∈ uop.dependencyList ∨ other ∈ numbers := by
  induction numbers generalizing uop with
  | nil =>
      cases run
      exact ⟨rfl, rfl, by simp⟩
  | cons number numbers ih =>
      rw [addDependencies, List.foldlM_cons] at run
      cases one : uop.addDependency number with
      | error failure =>
          rw [one] at run
          cases run
      | ok middle =>
          rw [one] at run
          obtain ⟨same, length, members⟩ := addDependency_ok one
          obtain ⟨sameRest, lengthRest, membersRest⟩ := ih run
          refine ⟨same.trans sameRest, lengthRest.trans length, ?_⟩
          intro other
          rw [membersRest, members, List.mem_cons, or_assoc]

/-- `removeDependency` for one number after the other. -/
theorem removeDependencies_ok {uop next : DynamicMicroOp lastReg}
    {numbers : List Nat} (ranged : uop.Ranged)
    (run : numbers.foldlM (fun uop number => uop.removeDependency number) uop =
      .ok next) :
    SameButDependencies uop next ∧ next.Ranged ∧
      ∀ other, next.dependencyList.count other =
        uop.dependencyList.count other - numbers.count other := by
  induction numbers generalizing uop with
  | nil =>
      cases run
      exact ⟨rfl, ranged, fun _ => rfl⟩
  | cons number numbers ih =>
      rw [List.foldlM_cons] at run
      cases one : uop.removeDependency number with
      | error failure =>
          rw [one] at run
          cases run
      | ok middle =>
          rw [one] at run
          obtain ⟨same, rangedMiddle, -, perm⟩ := removeDependency_ok ranged one
          obtain ⟨sameRest, rangedRest, counts⟩ :=
            ih rangedMiddle run
          refine ⟨same.trans sameRest, rangedRest, ?_⟩
          intro other
          rw [counts, perm.count_eq, List.count_erase, List.count_cons,
            Nat.sub_sub, Nat.add_comm]

end DynamicMicroOp
theorem DynamicMicroOp.length_dependencyList (uop : DynamicMicroOp lastReg) :
    uop.dependencyList.length = uop.getDependenciesLength := by
  rw [dependencyList_eq, List.length_append, List.length_range',
    getDependenciesLength]

theorem DynamicMicroOp.getDependenciesLength_eq_zero
    {uop : DynamicMicroOp lastReg} :
    uop.getDependenciesLength = 0 ↔ uop.dependencyList = [] := by
  rw [← length_dependencyList, List.length_eq_zero_iff]

/-! ## Entries and moves -/

/-- The micro-operation as it was added, without its dependencies. -/
def RobEntry.origin (entry : RobEntry lastReg) : DynamicMicroOp lastReg where
  microOp := entry.uop.microOp
  sequenceNumber := entry.uop.sequenceNumber
  address := entry.uop.address

/-- What the dependencies rest on. -/
structure View (lastReg : Nat) where
  entries : List (RobEntry lastReg)
  popped : Nat
  numInRob : Nat
  now : Nat
  nextSequenceNumber : Nat
  producers : List Producer

def RobTimer.view (timer : RobTimer lastReg Outside) : View lastReg where
  entries := timer.entries
  popped := timer.popped
  numInRob := timer.numInRob
  now := timer.now
  nextSequenceNumber := timer.nextSequenceNumber
  producers := timer.memoryDependencies.producers

/-- All that was added, the latest first. -/
def View.past (view : View lastReg) : List (DynamicMicroOp lastReg) :=
  (view.entries.map RobEntry.origin).reverse

/-- An entry after it was told as many times as it depended on a number that
the result of that number is available. -/
structure Woken (number cycleDepend times : Nat)
    (entry next : RobEntry lastReg) : Prop where
  origin : next.origin = entry.origin
  lowest : next.lowest = entry.lowest
  latency : next.uop.execLatency = entry.uop.execLatency
  dependants : next.dependants = entry.dependants
  dispatched : next.dispatched = entry.dispatched
  issued : next.issued = entry.issued
  done : next.done = entry.done
  addressProducers : next.addressProducers = entry.addressProducers
  ranged : next.uop.Ranged
  counts : ∀ other, next.uop.dependencyList.count other =
    entry.uop.dependencyList.count other - if other = number then times else 0
  readyMax : next.readyMax =
    if times = 0 then entry.readyMax
    else max entry.readyMax (cycleDepend : SubsecondTime)
  ready : next.ready =
    if times ≠ 0 ∧ next.uop.dependencyList = [] then next.readyMax
    else entry.ready

/-- An entry that is dispatched. -/
def RobEntry.dispatch (entry : RobEntry lastReg) (now period : Nat) :
    RobEntry lastReg :=
  { entry with
    dispatched := some now
    ready := max entry.ready ((now + period : Nat) : SubsecondTime) }

/-- An entry that is issued. -/
def RobEntry.issue (entry : RobEntry lastReg) (now latency done : Nat)
    (known : Bool) : RobEntry lastReg :=
  { entry with
    uop := { entry.uop with execLatency := latency, dCacheKnown := known }
    issued := (now : SubsecondTime)
    done := (done : SubsecondTime) }

/-- What a stage does at a time. -/
inductive Move (period : Nat) : View lastReg → View lastReg → Prop
  | dispatch {view : View lastReg} (entry : RobEntry lastReg)
      (found : view.entries[view.popped + view.numInRob]? = some entry) :
      Move period view { view with
        entries := view.entries.set (view.popped + view.numInRob)
          (entry.dispatch view.now period)
        numInRob := view.numInRob + 1 }
  | issue {view : View lastReg} (number latency done : Nat) (known : Bool)
      (entry : RobEntry lastReg) (entries : List (RobEntry lastReg))
      (found : view.entries[number]? = some entry)
      (queued : number < view.popped + view.numInRob)
      (waiting : entry.done = ⊤)
      (ready : entry.ready ≤ view.now)
      (longer : entry.uop.execLatency ≤ latency)
      (later : view.now ≤ done)
      (woken : Library.Pointwise (fun place before after =>
          Woken number (view.now +
            (entry.issue view.now latency done known).uop.resultLatency * period)
            (entry.dependants.count place) before after)
        (view.entries.set number (entry.issue view.now latency done known))
        entries) :
      Move period view { view with entries := entries }
  | commit {view : View lastReg} (entry : RobEntry lastReg)
      (found : view.entries[view.popped]? = some entry)
      (done : entry.done ≤ view.now) :
      Move period view { view with
        popped := view.popped + 1, numInRob := view.numInRob - 1 }
  | tick {view : View lastReg} (time : Nat) (later : view.now ≤ time) :
      Move period view { view with now := time }

/-! ## The invariant -/

/-- What holds of every entry at a time. -/
structure Sound (now : Nat) (entry : RobEntry lastReg) : Prop where
  ranged : entry.uop.Ranged
  waiting : entry.uop.dependencyList ≠ [] → entry.ready = ⊤
  ready : entry.uop.dependencyList = [] → entry.readyMax ≤ entry.ready
  finished : entry.done ≠ ⊤ →
    entry.ready ≤ now ∧ entry.readyMax ≤ entry.done

/-- The invariant of the queue. -/
structure Base (view : View lastReg) : Prop where
  numbered : ∀ {n : Nat} {entry : RobEntry lastReg},
    view.entries[n]? = some entry → entry.uop.sequenceNumber = n
  next : view.nextSequenceNumber = view.entries.length
  popped : view.popped ≤ view.entries.length
  sound : ∀ {n : Nat} {entry : RobEntry lastReg},
    view.entries[n]? = some entry → Sound view.now entry
  /-- A producer lists its dependants. -/
  listed : ∀ {p l : Nat} {producer entry : RobEntry lastReg},
    view.entries[p]? = some producer →
    view.entries[l]? = some entry → producer.done = ⊤ →
      producer.dependants.count l = entry.uop.dependencyList.count p
  known : ∀ {p : Nat} {producer : RobEntry lastReg},
    view.entries[p]? = some producer →
    ∀ l ∈ producer.dependants, l < view.entries.length
  /-- Who has been issued is not waited for. -/
  pending : ∀ {l : Nat} {entry : RobEntry lastReg},
    view.entries[l]? = some entry →
    ∀ p ∈ entry.uop.dependencyList,
      ∃ producer, view.entries[p]? = some producer ∧ producer.done = ⊤
  undispatched : ∀ {n : Nat} {entry : RobEntry lastReg},
    view.entries[n]? = some entry →
    view.popped + view.numInRob ≤ n →
      entry.done = ⊤ ∧ entry.dispatched = none
  stores : ∃ before, before ≤ view.popped ∧
    view.producers = Dependencies.stores view.past before

theorem base_start (core : Core lastReg Outside) (outside : Outside) :
    Base (RobTimer.start core outside).view where
  numbered found := by cases found
  next := rfl
  popped := Nat.le_refl _
  sound found := by cases found
  listed found := by cases found
  known found := by cases found
  pending found := by cases found
  undispatched found := by cases found
  stores := ⟨0, Nat.le_refl _, rfl⟩

theorem Sound.mono {now later : Nat} {entry : RobEntry lastReg}
    (sound : Sound now entry) (le : now ≤ later) : Sound later entry where
  ranged := sound.ranged
  waiting := sound.waiting
  ready := sound.ready
  finished finished := by
    obtain ⟨ready, known⟩ := sound.finished finished
    exact ⟨ready.trans (WithTop.coe_le_coe.mpr le), known⟩

/-- What is ready waits for nothing. -/
theorem Sound.dependencyList_eq_nil {now time : Nat} {entry : RobEntry lastReg}
    (sound : Sound now entry) (ready : entry.ready ≤ time) :
    entry.uop.dependencyList = [] := by
  by_contra some
  rw [sound.waiting some, top_le_iff] at ready
  exact WithTop.coe_ne_top ready

namespace Woken

variable {number cycleDepend times : Nat} {entry next : RobEntry lastReg}

theorem mem (woken : Woken number cycleDepend times entry next) {other : Nat}
    (listed : other ∈ next.uop.dependencyList) :
    other ∈ entry.uop.dependencyList := by
  have positive := List.count_pos_iff.mpr listed
  rw [woken.counts] at positive
  exact List.count_pos_iff.mp (by omega)

theorem dependencyList_eq_nil (woken : Woken number cycleDepend 0 entry next)
    (empty : next.uop.dependencyList = []) : entry.uop.dependencyList = [] := by
  rw [List.eq_nil_iff_forall_not_mem]
  intro other listed
  have positive := List.count_pos_iff.mpr listed
  have same := woken.counts other
  rw [empty, List.count_nil, ite_self] at same
  omega

theorem sound {now : Nat} (woken : Woken number cycleDepend times entry next)
    (sound : Sound now entry) (finished : entry.done ≠ ⊤ → times = 0) :
    Sound now next where
  ranged := woken.ranged
  waiting := by
    intro rest
    rw [woken.ready, if_neg (fun both => rest both.2)]
    apply sound.waiting
    intro empty
    apply rest
    rw [List.eq_nil_iff_forall_not_mem]
    intro other listed
    have := woken.mem listed
    rw [empty] at this
    cases this
  ready := by
    intro empty
    by_cases zero : times = 0
    · subst zero
      rw [woken.ready, woken.readyMax, if_pos rfl, if_neg (fun both => both.1 rfl)]
      exact sound.ready (woken.dependencyList_eq_nil empty)
    · rw [woken.ready, if_pos ⟨zero, empty⟩]
  finished := by
    intro isDone
    rw [woken.done] at isDone ⊢
    have zero := finished isDone
    subst zero
    rw [woken.ready, woken.readyMax, if_pos rfl, if_neg (fun both => both.1 rfl)]
    exact sound.finished isDone

end Woken

/-- The entry at a place before its dependants are told. -/
def issuedAt (number : Nat) (issued : RobEntry lastReg) (place : Nat)
    (entry : RobEntry lastReg) : RobEntry lastReg :=
  if place = number then issued else entry

/-- What issue does to the entry at a place: it is told as often as it depends
on what is issued. -/
structure IssueEffect (number cycleDepend : Nat)
    (entry issued : RobEntry lastReg) (place : Nat)
    (before after : RobEntry lastReg) : Prop where
  itself : place = number → before = entry
  woken : Woken number cycleDepend (before.uop.dependencyList.count number)
    (issuedAt number issued place before) after

theorem Base.pointwise_issue {view : View lastReg} (base : Base view)
    {number latency done cycleDepend : Nat} {known : Bool}
    {entry : RobEntry lastReg} {entries : List (RobEntry lastReg)}
    (found : view.entries[number]? = some entry) (waiting : entry.done = ⊤)
    (woken : Library.Pointwise (fun place before after =>
        Woken number cycleDepend (entry.dependants.count place) before after)
      (view.entries.set number (entry.issue view.now latency done known))
      entries) :
    Library.Pointwise (IssueEffect number cycleDepend entry
        (entry.issue view.now latency done known))
      view.entries entries where
  length := by rw [woken.length, List.length_set]
  forward := by
    intro place before foundBefore
    have times := base.listed found foundBefore waiting
    by_cases same : place = number
    · subst same
      rw [found] at foundBefore
      cases foundBefore
      obtain ⟨inside, -⟩ := List.getElem?_eq_some_iff.mp found
      obtain ⟨after, foundAfter, related⟩ :=
        woken.forward (List.getElem?_set_self inside)
      refine ⟨after, foundAfter, fun _ => rfl, ?_⟩
      rw [issuedAt, if_pos rfl, ← times]
      exact related
    · have stays : (view.entries.set number
          (entry.issue view.now latency done known))[place]? = some before := by
        rw [List.getElem?_set_ne (Ne.symm same)]
        exact foundBefore
      obtain ⟨after, foundAfter, related⟩ := woken.forward stays
      refine ⟨after, foundAfter, fun isNumber => absurd isNumber same, ?_⟩
      rw [issuedAt, if_neg same, ← times]
      exact related

namespace IssueEffect

variable {number cycleDepend now latency done place : Nat} {known : Bool}
  {entry before after : RobEntry lastReg}

/-- The fields that issue keeps before the dependants are told. -/
theorem issuedAt_eq (effect : IssueEffect number cycleDepend entry
      (entry.issue now latency done known) place before after) :
    ∃ uop issued finished,
      issuedAt number (entry.issue now latency done known) place before =
        { before with uop := uop, issued := issued, done := finished } ∧
      uop = { before.uop with
        execLatency := uop.execLatency, dCacheKnown := uop.dCacheKnown } := by
  unfold issuedAt
  by_cases same : place = number
  · rw [if_pos same, effect.itself same]
    exact ⟨_, _, _, rfl, rfl⟩
  · rw [if_neg same]
    exact ⟨_, _, _, rfl, rfl⟩

theorem origin (effect : IssueEffect number cycleDepend entry
      (entry.issue now latency done known) place before after) :
    after.origin = before.origin := by
  obtain ⟨uop, issued, finished, same, sameUop⟩ := effect.issuedAt_eq
  rw [effect.woken.origin, same]
  unfold RobEntry.origin
  rw [sameUop]

theorem lowest (effect : IssueEffect number cycleDepend entry
      (entry.issue now latency done known) place before after) :
    after.lowest = before.lowest := by
  obtain ⟨uop, issued, finished, same, -⟩ := effect.issuedAt_eq
  rw [effect.woken.lowest, same]

theorem dependants (effect : IssueEffect number cycleDepend entry
      (entry.issue now latency done known) place before after) :
    after.dependants = before.dependants := by
  obtain ⟨uop, issued, finished, same, -⟩ := effect.issuedAt_eq
  rw [effect.woken.dependants, same]

theorem dispatched (effect : IssueEffect number cycleDepend entry
      (entry.issue now latency done known) place before after) :
    after.dispatched = before.dispatched := by
  obtain ⟨uop, issued, finished, same, -⟩ := effect.issuedAt_eq
  rw [effect.woken.dispatched, same]

theorem addressProducers (effect : IssueEffect number cycleDepend entry
      (entry.issue now latency done known) place before after) :
    after.addressProducers = before.addressProducers := by
  obtain ⟨uop, issued, finished, same, -⟩ := effect.issuedAt_eq
  rw [effect.woken.addressProducers, same]

theorem dependencyList_issuedAt (effect : IssueEffect number cycleDepend entry
      (entry.issue now latency done known) place before after) :
    (issuedAt number (entry.issue now latency done known) place
      before).uop.dependencyList = before.uop.dependencyList := by
  obtain ⟨uop, issued, finished, same, sameUop⟩ := effect.issuedAt_eq
  rw [same]
  change uop.dependencyList = _
  rw [sameUop]
  rfl

theorem counts (effect : IssueEffect number cycleDepend entry
      (entry.issue now latency done known) place before after) (other : Nat) :
    after.uop.dependencyList.count other =
      if other = number then 0 else before.uop.dependencyList.count other := by
  rw [effect.woken.counts, effect.dependencyList_issuedAt]
  by_cases same : other = number
  · rw [if_pos same, if_pos same, same, Nat.sub_self]
  · rw [if_neg same, if_neg same, Nat.sub_zero]

theorem mem_iff (effect : IssueEffect number cycleDepend entry
      (entry.issue now latency done known) place before after) (other : Nat) :
    other ∈ after.uop.dependencyList ↔
      other ∈ before.uop.dependencyList ∧ other ≠ number := by
  rw [← List.count_pos_iff, ← List.count_pos_iff, effect.counts]
  by_cases same : other = number
  · simp [same]
  · simp [same]

theorem readyMax (effect : IssueEffect number cycleDepend entry
      (entry.issue now latency done known) place before after) :
    after.readyMax = if number ∈ before.uop.dependencyList then
      max before.readyMax (cycleDepend : SubsecondTime)
    else before.readyMax := by
  obtain ⟨uop, issued, finished, same, -⟩ := effect.issuedAt_eq
  rw [effect.woken.readyMax, same]
  by_cases member : number ∈ before.uop.dependencyList
  · rw [if_pos member, if_neg (List.count_pos_iff.mpr member).ne']
  · rw [if_neg member, if_pos (List.count_eq_zero_of_not_mem member)]

theorem ready (effect : IssueEffect number cycleDepend entry
      (entry.issue now latency done known) place before after)
    (absent : number ∉ before.uop.dependencyList) :
    after.ready = before.ready := by
  obtain ⟨uop, issued, finished, same, -⟩ := effect.issuedAt_eq
  rw [effect.woken.ready, if_neg, same]
  exact fun both => both.1 (List.count_eq_zero_of_not_mem absent)

theorem resultLatency (effect : IssueEffect number cycleDepend entry
      (entry.issue now latency done known) place before after)
    (different : place ≠ number) :
    after.uop.resultLatency = before.uop.resultLatency := by
  have sameOp := congrArg DynamicMicroOp.microOp effect.origin
  have sameLatency := effect.woken.latency
  rw [issuedAt, if_neg different] at sameLatency
  unfold DynamicMicroOp.resultLatency
  change after.uop.microOp = before.uop.microOp at sameOp
  rw [sameOp, sameLatency]

theorem latency_of_eq (effect : IssueEffect number cycleDepend entry
      (entry.issue now latency done known) place before after)
    (same : place = number) : after.uop.execLatency = latency := by
  rw [effect.woken.latency, issuedAt, if_pos same]
  rfl

theorem resultLatency_of_eq (effect : IssueEffect number cycleDepend entry
      (entry.issue now latency done known) place before after)
    (same : place = number) : after.uop.resultLatency =
      (entry.issue now latency done known).uop.resultLatency := by
  have sameOp := congrArg DynamicMicroOp.microOp effect.woken.origin
  rw [issuedAt, if_pos same] at sameOp
  change after.uop.microOp = _ at sameOp
  unfold DynamicMicroOp.resultLatency
  rw [sameOp, effect.latency_of_eq same]
  rfl

theorem issued_of_ne (effect : IssueEffect number cycleDepend entry
      (entry.issue now latency done known) place before after)
    (different : place ≠ number) : after.issued = before.issued := by
  rw [effect.woken.issued, issuedAt, if_neg different]

theorem issued_of_eq (effect : IssueEffect number cycleDepend entry
      (entry.issue now latency done known) place before after)
    (same : place = number) : after.issued = now := by
  rw [effect.woken.issued, issuedAt, if_pos same]
  rfl

theorem done_of_ne (effect : IssueEffect number cycleDepend entry
      (entry.issue now latency done known) place before after)
    (different : place ≠ number) : after.done = before.done := by
  rw [effect.woken.done, issuedAt, if_neg different]

theorem done_of_eq (effect : IssueEffect number cycleDepend entry
      (entry.issue now latency done known) place before after)
    (same : place = number) : after.done = done := by
  rw [effect.woken.done, issuedAt, if_pos same]
  rfl

end IssueEffect

/-! ## The moves keep the invariant -/

/-- One entry is replaced, and the others stay. -/
def Replaced (number : Nat) (entry next : RobEntry lastReg) (place : Nat)
    (before after : RobEntry lastReg) : Prop :=
  (place = number ∧ before = entry ∧ after = next) ∨
    (place ≠ number ∧ after = before)

theorem pointwise_replaced {entries : List (RobEntry lastReg)} {number : Nat}
    {entry : RobEntry lastReg} (found : entries[number]? = some entry)
    (next : RobEntry lastReg) :
    Library.Pointwise (Replaced number entry next) entries
      (entries.set number next) :=
  Library.Pointwise.set found (Or.inl ⟨rfl, rfl, rfl⟩)
    (fun _ _ different _ => Or.inr ⟨different, rfl⟩)

/-- What dispatch does to the entry at a place. -/
theorem Replaced.dispatch {number place now period : Nat}
    {entry before after : RobEntry lastReg}
    (replaced :
      Replaced number entry (entry.dispatch now period) place before after) :
    ∃ dispatched ready, after =
        { before with dispatched := dispatched, ready := ready } ∧
      before.ready ≤ ready ∧
      (place ≠ number → dispatched = before.dispatched ∧ ready = before.ready) := by
  cases replaced with
  | inl here =>
      obtain ⟨same, rfl, rfl⟩ := here
      exact ⟨_, _, rfl, le_max_left _ _, fun different => absurd same different⟩
  | inr elsewhere =>
      obtain ⟨-, rfl⟩ := elsewhere
      exact ⟨_, _, rfl, le_refl _, fun _ => ⟨rfl, rfl⟩⟩

theorem Base.dispatch {view : View lastReg} (base : Base view) (period : Nat)
    {entry : RobEntry lastReg}
    (found : view.entries[view.popped + view.numInRob]? = some entry) :
    Base { view with
      entries := view.entries.set (view.popped + view.numInRob)
        (entry.dispatch view.now period)
      numInRob := view.numInRob + 1 } := by
  have pointwise := pointwise_replaced found (entry.dispatch view.now period)
  constructor
  case numbered =>
    intro n after foundAfter
    obtain ⟨before, foundBefore, replaced⟩ := pointwise.backward foundAfter
    have sameNumber := base.numbered foundBefore
    obtain ⟨_, _, rfl, -, -⟩ := replaced.dispatch
    exact sameNumber
  case next => exact base.next.trans List.length_set.symm
  case popped => exact le_of_le_of_eq base.popped List.length_set.symm
  case sound =>
    intro n after foundAfter
    obtain ⟨before, foundBefore, replaced⟩ := pointwise.backward foundAfter
    obtain ⟨_, ready, rfl, later, others⟩ := replaced.dispatch
    have sound := base.sound foundBefore
    refine ⟨sound.ranged, ?_, ?_, ?_⟩
    · intro rest
      exact top_le_iff.mp (le_of_eq_of_le (sound.waiting rest).symm later)
    · exact fun empty => (sound.ready empty).trans later
    · intro finished
      have different : n ≠ view.popped + view.numInRob := by
        intro same
        exact finished (base.undispatched foundBefore same.ge).1
      rw [(others different).2]
      exact sound.finished finished
  case listed =>
    intro p l producer after foundProducer foundAfter
    obtain ⟨old, foundOld, replacedOld⟩ := pointwise.backward foundProducer
    obtain ⟨before, foundBefore, replaced⟩ := pointwise.backward foundAfter
    have same := base.listed foundOld foundBefore
    obtain ⟨_, _, rfl, -, -⟩ := replacedOld.dispatch
    obtain ⟨_, _, rfl, -, -⟩ := replaced.dispatch
    exact same
  case known =>
    intro p producer foundProducer
    obtain ⟨old, foundOld, replacedOld⟩ := pointwise.backward foundProducer
    obtain ⟨_, _, rfl, -, -⟩ := replacedOld.dispatch
    intro l member
    exact lt_of_lt_of_eq (base.known foundOld l member) List.length_set.symm
  case pending =>
    intro l after foundAfter p member
    obtain ⟨before, foundBefore, replaced⟩ := pointwise.backward foundAfter
    obtain ⟨_, _, rfl, -, -⟩ := replaced.dispatch
    obtain ⟨producer, foundProducer, waiting⟩ :=
      base.pending foundBefore p member
    obtain ⟨next, foundNext, replacedNext⟩ := pointwise.forward foundProducer
    obtain ⟨_, _, rfl, -, -⟩ := replacedNext.dispatch
    exact ⟨_, foundNext, waiting⟩
  case undispatched =>
    intro n after foundAfter behind
    have behind : view.popped + view.numInRob + 1 ≤ n := behind
    obtain ⟨before, foundBefore, replaced⟩ := pointwise.backward foundAfter
    have waiting := base.undispatched foundBefore (by omega)
    have different : n ≠ view.popped + view.numInRob := by omega
    obtain ⟨_, _, rfl, -, others⟩ := replaced.dispatch
    rw [(others different).1]
    exact waiting
  case stores =>
    have samePast : (view.entries.set (view.popped + view.numInRob)
        (entry.dispatch view.now period)).map RobEntry.origin =
          view.entries.map RobEntry.origin := by
      apply pointwise.map_eq
      intro place before after replaced
      obtain ⟨_, _, rfl, -, -⟩ := replaced.dispatch
      rfl
    obtain ⟨before, le, same⟩ := base.stores
    refine ⟨before, le, same.trans ?_⟩
    rw [View.past, View.past, samePast]

theorem Base.issue {view : View lastReg} (base : Base view)
    {number latency done cycleDepend : Nat} {known : Bool}
    {entry : RobEntry lastReg} {entries : List (RobEntry lastReg)}
    (found : view.entries[number]? = some entry)
    (queued : number < view.popped + view.numInRob)
    (ready : entry.ready ≤ view.now) (later : view.now ≤ done)
    (pointwise : Library.Pointwise (IssueEffect number cycleDepend entry
      (entry.issue view.now latency done known)) view.entries entries) :
    Base { view with entries := entries } := by
  have sound := base.sound found
  have empty := sound.dependencyList_eq_nil ready
  constructor
  case numbered =>
    intro n after foundAfter
    obtain ⟨before, foundBefore, effect⟩ := pointwise.backward foundAfter
    have sameNumber :=
      congrArg DynamicMicroOp.sequenceNumber effect.origin
    exact sameNumber.trans (base.numbered foundBefore)
  case next => exact base.next.trans pointwise.length.symm
  case popped => exact le_of_le_of_eq base.popped pointwise.length.symm
  case sound =>
    intro n after foundAfter
    obtain ⟨before, foundBefore, effect⟩ := pointwise.backward foundAfter
    have soundBefore := base.sound foundBefore
    by_cases same : n = number
    · have isEntry := effect.itself same
      subst isEntry
      have times : before.uop.dependencyList.count number = 0 := by
        rw [empty, List.count_nil]
      have woken := effect.woken
      rw [times, issuedAt, if_pos same] at woken
      apply woken.sound _ (fun _ => rfl)
      refine ⟨sound.ranged, sound.waiting, sound.ready, fun _ => ⟨ready, ?_⟩⟩
      calc before.readyMax ≤ before.ready := sound.ready empty
        _ ≤ view.now := ready
        _ ≤ done := WithTop.coe_le_coe.mpr later
    · have woken := effect.woken
      rw [issuedAt, if_neg same] at woken
      apply woken.sound soundBefore
      intro finished
      rw [soundBefore.dependencyList_eq_nil (soundBefore.finished finished).1,
        List.count_nil]
  case listed =>
    intro p l producer after foundProducer foundAfter waiting
    obtain ⟨old, foundOld, effectOld⟩ := pointwise.backward foundProducer
    obtain ⟨before, foundBefore, effect⟩ := pointwise.backward foundAfter
    have different : p ≠ number := by
      intro same
      rw [effectOld.done_of_eq same] at waiting
      exact WithTop.coe_ne_top waiting
    rw [effectOld.dependants, effect.counts, if_neg different]
    apply base.listed foundOld foundBefore
    rw [← effectOld.done_of_ne different]
    exact waiting
  case known =>
    intro p producer foundProducer
    obtain ⟨old, foundOld, effectOld⟩ := pointwise.backward foundProducer
    rw [effectOld.dependants, pointwise.length]
    exact base.known foundOld
  case pending =>
    intro l after foundAfter p member
    obtain ⟨before, foundBefore, effect⟩ := pointwise.backward foundAfter
    obtain ⟨listed, different⟩ := (effect.mem_iff p).mp member
    obtain ⟨producer, foundProducer, waiting⟩ :=
      base.pending foundBefore p listed
    obtain ⟨next, foundNext, effectNext⟩ := pointwise.forward foundProducer
    exact ⟨next, foundNext, (effectNext.done_of_ne different).trans waiting⟩
  case undispatched =>
    intro n after foundAfter behind
    have behind : view.popped + view.numInRob ≤ n := behind
    obtain ⟨before, foundBefore, effect⟩ := pointwise.backward foundAfter
    rw [effect.done_of_ne (by omega), effect.dispatched]
    exact base.undispatched foundBefore behind
  case stores =>
    have samePast : entries.map RobEntry.origin =
        view.entries.map RobEntry.origin :=
      pointwise.map_eq (fun _ _ _ effect => effect.origin)
    obtain ⟨before, le, same⟩ := base.stores
    refine ⟨before, le, same.trans ?_⟩
    rw [View.past, View.past, samePast]

theorem Base.commit {view : View lastReg} (base : Base view)
    {entry : RobEntry lastReg}
    (found : view.entries[view.popped]? = some entry)
    (done : entry.done ≤ view.now) :
    Base { view with
      popped := view.popped + 1, numInRob := view.numInRob - 1 } := by
  obtain ⟨inside, -⟩ := List.getElem?_eq_some_iff.mp found
  have dispatched : 0 < view.numInRob := by
    by_contra none
    have waiting := (base.undispatched found (by omega)).1
    rw [waiting, top_le_iff] at done
    exact WithTop.coe_ne_top done
  obtain ⟨before, le, same⟩ := base.stores
  refine ⟨base.numbered, base.next, inside, base.sound, base.listed, base.known,
    base.pending, ?_, before, Nat.le_succ_of_le le, same⟩
  intro n entry foundEntry behind
  have behind : view.popped + 1 + (view.numInRob - 1) ≤ n := behind
  exact base.undispatched foundEntry (by omega)

theorem Base.tick {view : View lastReg} (base : Base view) {time : Nat}
    (later : view.now ≤ time) : Base { view with now := time } :=
  ⟨base.numbered, base.next, base.popped,
    fun found => (base.sound found).mono later, base.listed, base.known,
    base.pending, base.undispatched, base.stores⟩

theorem Base.move {period : Nat} {view next : View lastReg} (base : Base view)
    (move : Move period view next) : Base next := by
  cases move with
  | dispatch entry found => exact base.dispatch period found
  | issue number latency done known entry entries found queued waiting ready
      longer later woken =>
      exact base.issue found queued ready later
        (base.pointwise_issue found waiting woken)
  | commit entry found done => exact base.commit found done
  | tick time later => exact base.tick later

end ChipletSniper.Rob
