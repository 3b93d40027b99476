import ChipletSniper.Rob.RobInsertion

/-!
# Store-to-load forwarding and the data of the store

A load waits for the producers of the store that supplies it instead of the
store.  It takes over the producers that the store still waits for, but not
the time that the store knows from those that are issued already.
-/

namespace ChipletSniper.Rob

open Relation (ReflTransGen)

variable {lastReg : Nat} {Outside : Type}

/-- The latest store to the address of a load, which was in the queue when the
load was added. -/
structure Supplies (entries : List (RobEntry lastReg)) (s l : Nat)
    (store load : RobEntry lastReg) : Prop where
  storeAt : entries[s]? = some store
  loadAt : entries[l]? = some load
  isLoad : load.uop.microOp.isLoad = true
  isStore : store.uop.microOp.isStore = true
  sameAddress : store.uop.address = load.uop.address
  inFlight : load.lowest ≤ s
  earlier : s < l
  latest : ∀ {n : Nat} {other : RobEntry lastReg}, s < n → n < l →
    entries[n]? = some other → other.uop.microOp.isStore = true →
      other.uop.address ≠ load.uop.address

/-- No load that is dispatched becomes ready before the results of all
producers of its store are available, whose latest time is the `readyMax` of
the store. -/
def DataAvailable (timer : RobTimer lastReg Outside) : Prop :=
  ∀ {s l : Nat} {store load : RobEntry lastReg},
    Supplies timer.entries s l store load → load.dispatched ≠ none →
      load.ready ≠ ⊤ →
        store.uop.dependencyList = [] ∧ store.readyMax ≤ load.ready

/-- The earliest time at which the result of an entry that is not issued can be
available. -/
def earliestResult (period now : Nat) (producer : RobEntry lastReg) :
    SubsecondTime :=
  max (now : SubsecondTime) producer.readyMax +
    ((producer.uop.resultLatency * period : Nat) : SubsecondTime)

/-- The earliest time at which dependants learn of the result of an entry. -/
def RobTimer.available (core : Core lastReg Outside)
    (timer : RobTimer lastReg Outside) (producer : RobEntry lastReg) :
    SubsecondTime :=
  if producer.done = ⊤ then earliestResult core.period timer.now producer
  else producer.done

/-- What a load waits for when it does not wait for the store. -/
def Awaited (tracked : DynamicMicroOp lastReg) (s : Nat)
    (store : RobEntry lastReg) (p : Nat) : Prop :=
  p ∈ tracked.dependencyList.erase s ∨ p ∈ store.uop.dependencyList

/-- The load cannot be ready before the time that the store knows: what it
waits for is not available earlier, or it waits for nothing and is not
dispatched before that time is near. -/
def LateEnough (core : Core lastReg Outside) (timer : RobTimer lastReg Outside)
    (tracked : DynamicMicroOp lastReg) (s : Nat) (store : RobEntry lastReg) :
    Prop :=
  (∃ p producer, Awaited tracked s store p ∧
      timer.entries[p]? = some producer ∧
      store.readyMax ≤ timer.available core producer) ∨
    ((∀ p producer, Awaited tracked s store p →
        timer.entries[p]? = some producer → producer.done ≠ ⊤) ∧
      store.readyMax ≤ ((timer.now + core.period : Nat) : SubsecondTime))

/-- The condition for a micro-operation that is added: if it is a load that is
given the producers of its store, it is late enough. -/
def ForwardsInTime (core : Core lastReg Outside)
    (timer : RobTimer lastReg Outside) (uop : DynamicMicroOp lastReg) : Prop :=
  ∀ tables tracked s store,
    timer.setDependencies (timer.numberedUop uop)
      timer.lowestValidSequenceNumber = .ok (tables, tracked) →
    RobTimer.Forwards core timer tracked s store →
    Dependencies.latest timer.view.past
      (Dependencies.storesTo uop.address) = some s →
    LateEnough core timer tracked s store

/-- The states of a timer, if every micro-operation meets a condition when it
is added. The time of the core does not go back. -/
inductive Reached (core : Core lastReg Outside)
    (condition : RobTimer lastReg Outside → DynamicMicroOp lastReg → Prop) :
    RobTimer lastReg Outside → Prop
  | start (outside : Outside) : Reached core condition (.start core outside)
  | insert {timer next : RobTimer lastReg Outside}
      (uop : DynamicMicroOp lastReg) (reached : Reached core condition timer)
      (fits : uop.Fits) (meets : condition timer uop)
      (run : timer.insert core uop = .ok next) : Reached core condition next
  | execute {timer next : RobTimer lastReg Outside} {executed latency : Nat}
      (reached : Reached core condition timer)
      (run : timer.execute core = .ok (next, executed, latency)) :
      Reached core condition next
  | synchronize {timer : RobTimer lastReg Outside} (time : Nat)
      (reached : Reached core condition timer) (later : timer.now ≤ time) :
      Reached core condition (timer.synchronize time)

/-! ## The invariant -/

/-- Why a load is not ready before its store knows all its data, as far as the
producers that were issued before the load was added are concerned. -/
inductive Secured (period : Nat) (view : View lastReg)
    (store load : RobEntry lastReg) : Prop
  | known (le : store.readyMax ≤ load.readyMax)
  | settled (empty : load.uop.dependencyList = [])
      (le : store.readyMax ≤ load.ready)
  | undispatched (empty : load.uop.dependencyList = [])
      (waits : load.dispatched = none)
      (le : store.readyMax ≤ ((view.now + period : Nat) : SubsecondTime))
  | waits (p : Nat) (producer : RobEntry lastReg)
      (listed : p ∈ load.uop.dependencyList)
      (found : view.entries[p]? = some producer)
      (le : store.readyMax ≤ earliestResult period view.now producer)

/-- A load waits for its store, or for all that its store waits for. -/
def Supplied (period : Nat) (view : View lastReg) : Prop :=
  ∀ {s l : Nat} {store load : RobEntry lastReg},
    Supplies view.entries s l store load →
      s ∈ load.uop.dependencyList ∨
        (∀ p ∈ store.uop.dependencyList, p ∈ load.uop.dependencyList) ∧
          Secured period view store load

theorem dataAvailable_of_supplied {timer : RobTimer lastReg Outside}
    {period : Nat} (base : Base timer.view)
    (supplied : Supplied period timer.view) : DataAvailable timer := by
  intro s l store load supplies dispatched ready
  have sound := base.sound supplies.loadAt
  have empty : load.uop.dependencyList = [] := by
    by_contra rest
    exact ready (sound.waiting rest)
  cases supplied supplies with
  | inl waits =>
      rw [empty] at waits
      cases waits
  | inr both =>
      obtain ⟨inherits, secured⟩ := both
      constructor
      · rw [List.eq_nil_iff_forall_not_mem]
        intro p listed
        have := inherits p listed
        rw [empty] at this
        cases this
      · cases secured with
        | known le => exact le.trans (sound.ready empty)
        | settled _ le => exact le
        | undispatched _ waits _ => exact absurd waits dispatched
        | waits p producer listed _ _ =>
            rw [empty] at listed
            cases listed

theorem fields_of_origin {before after : RobEntry lastReg}
    (same : after.origin = before.origin) :
    after.uop.microOp = before.uop.microOp ∧
      after.uop.address = before.uop.address := by
  have sameOp := congrArg DynamicMicroOp.microOp same
  have sameAddress := congrArg DynamicMicroOp.address same
  exact ⟨sameOp, sameAddress⟩

/-- A change that keeps what the micro-operations are keeps who supplies
whom. -/
theorem Supplies.backward {entries next : List (RobEntry lastReg)}
    {relation : Nat → RobEntry lastReg → RobEntry lastReg → Prop}
    (pointwise : Library.Pointwise relation entries next)
    (kept : ∀ {place : Nat} {before after : RobEntry lastReg},
      relation place before after →
        after.origin = before.origin ∧ after.lowest = before.lowest)
    {s l : Nat} {storeAfter loadAfter : RobEntry lastReg}
    (supplies : Supplies next s l storeAfter loadAfter) :
    ∃ store load, Supplies entries s l store load ∧
      relation s store storeAfter ∧ relation l load loadAfter := by
  obtain ⟨store, foundStore, storeRelated⟩ :=
    pointwise.backward supplies.storeAt
  obtain ⟨load, foundLoad, loadRelated⟩ := pointwise.backward supplies.loadAt
  obtain ⟨storeOrigin, -⟩ := kept storeRelated
  obtain ⟨loadOrigin, loadLowest⟩ := kept loadRelated
  obtain ⟨sameStore, storeAddress⟩ := fields_of_origin storeOrigin
  obtain ⟨sameLoad, loadAddress⟩ := fields_of_origin loadOrigin
  refine ⟨store, load, ?_, storeRelated, loadRelated⟩
  refine ⟨foundStore, foundLoad, ?_, ?_, ?_, ?_, supplies.earlier, ?_⟩
  · rw [← sameLoad]
    exact supplies.isLoad
  · rw [← sameStore]
    exact supplies.isStore
  · rw [← storeAddress, ← loadAddress]
    exact supplies.sameAddress
  · rw [← loadLowest]
    exact supplies.inFlight
  · intro n other behind before found isStore
    obtain ⟨otherAfter, foundAfter, otherRelated⟩ := pointwise.forward found
    obtain ⟨otherOrigin, -⟩ := kept otherRelated
    obtain ⟨sameOther, otherAddress⟩ := fields_of_origin otherOrigin
    rw [← otherAddress, ← loadAddress]
    apply supplies.latest behind before foundAfter
    rw [sameOther]
    exact isStore

theorem earliestResult_mono {period now later latency : Nat}
    {producer next : RobEntry lastReg} (le : now ≤ later)
    (readyMax : producer.readyMax ≤ next.readyMax)
    (slower : producer.uop.resultLatency ≤ latency)
    (same : next.uop.resultLatency = latency) :
    earliestResult period now producer ≤ earliestResult period later next := by
  unfold earliestResult
  apply add_le_add
  · exact max_le_max (WithTop.coe_le_coe.mpr le) readyMax
  · rw [same]
    exact WithTop.coe_le_coe.mpr (Nat.mul_le_mul_right period slower)

/-! ## The moves keep it -/

theorem Supplied.dispatch {view : View lastReg} {period : Nat}
    (supplied : Supplied period view) {entry : RobEntry lastReg}
    (found : view.entries[view.popped + view.numInRob]? = some entry) :
    Supplied period { view with
      entries := view.entries.set (view.popped + view.numInRob)
        (entry.dispatch view.now period)
      numInRob := view.numInRob + 1 } := by
  have pointwise := pointwise_replaced found (entry.dispatch view.now period)
  have kept : ∀ {place : Nat} {before after : RobEntry lastReg},
      Replaced (view.popped + view.numInRob) entry
        (entry.dispatch view.now period) place before after →
      after.origin = before.origin ∧ after.lowest = before.lowest := by
    intro place before after replaced
    obtain ⟨_, _, rfl, -, -⟩ := replaced.dispatch
    exact ⟨rfl, rfl⟩
  intro s l storeAfter loadAfter supplies
  obtain ⟨store, load, suppliesBefore, storeReplaced, loadReplaced⟩ :=
    supplies.backward pointwise kept
  have before := supplied suppliesBefore
  obtain ⟨_, _, rfl, -, -⟩ := storeReplaced.dispatch
  cases loadReplaced with
  | inl here =>
      obtain ⟨-, rfl, rfl⟩ := here
      apply before.imp id
      intro both
      obtain ⟨inherits, secured⟩ := both
      refine ⟨inherits, ?_⟩
      cases secured with
      | known le => exact Secured.known le
      | settled empty le =>
          exact Secured.settled empty (le.trans (le_max_left _ _))
      | undispatched empty _ le =>
          exact Secured.settled empty (le.trans (le_max_right _ _))
      | waits p producer listed foundProducer le =>
          obtain ⟨after, foundAfter, related⟩ := pointwise.forward foundProducer
          obtain ⟨_, _, rfl, -, -⟩ := related.dispatch
          exact Secured.waits p _ listed foundAfter le
  | inr elsewhere =>
      obtain ⟨-, rfl⟩ := elsewhere
      apply before.imp id
      intro both
      obtain ⟨inherits, secured⟩ := both
      refine ⟨inherits, ?_⟩
      cases secured with
      | known le => exact Secured.known le
      | settled empty le => exact Secured.settled empty le
      | undispatched empty waits le => exact Secured.undispatched empty waits le
      | waits p producer listed foundProducer le =>
          obtain ⟨after, foundAfter, related⟩ := pointwise.forward foundProducer
          obtain ⟨_, _, rfl, -, -⟩ := related.dispatch
          exact Secured.waits p _ listed foundAfter le

theorem Supplied.tick {view : View lastReg} {period time : Nat}
    (supplied : Supplied period view) (later : view.now ≤ time) :
    Supplied period { view with now := time } := by
  intro s l store load supplies
  apply (supplied supplies).imp id
  intro both
  obtain ⟨inherits, secured⟩ := both
  refine ⟨inherits, ?_⟩
  cases secured with
  | known le => exact Secured.known le
  | settled empty le => exact Secured.settled empty le
  | undispatched empty waits le =>
      apply Secured.undispatched empty waits (le.trans _)
      exact WithTop.coe_le_coe.mpr (Nat.add_le_add_right later period)
  | waits p producer listed found le =>
      exact Secured.waits p producer listed found
        (le.trans (earliestResult_mono later (le_refl _) (le_refl _) rfl))

theorem Supplied.commit {view : View lastReg} {period : Nat}
    (supplied : Supplied period view) :
    Supplied period { view with
      popped := view.popped + 1, numInRob := view.numInRob - 1 } := by
  intro s l store load supplies
  apply (supplied supplies).imp id
  intro both
  obtain ⟨inherits, secured⟩ := both
  refine ⟨inherits, ?_⟩
  cases secured with
  | known le => exact Secured.known le
  | settled empty le => exact Secured.settled empty le
  | undispatched empty waits le => exact Secured.undispatched empty waits le
  | waits p producer listed found le =>
      exact Secured.waits p producer listed found le

/-- The result of what is issued is not available earlier than it could be. -/
theorem earliestResult_le_issue {view : View lastReg} (base : Base view)
    {period number latency done : Nat} {known : Bool} {entry : RobEntry lastReg}
    (found : view.entries[number]? = some entry)
    (ready : entry.ready ≤ view.now)
    (longer : entry.uop.execLatency ≤ latency) :
    earliestResult period view.now entry ≤ ((view.now +
      (entry.issue view.now latency done known).uop.resultLatency * period :
        Nat) : SubsecondTime) := by
  have sound := base.sound found
  have early : entry.readyMax ≤ view.now :=
    (sound.ready (sound.dependencyList_eq_nil ready)).trans ready
  have slower : entry.uop.resultLatency ≤
      (entry.issue view.now latency done known).uop.resultLatency := by
    unfold DynamicMicroOp.resultLatency RobEntry.issue
    simp only
    split
    next => exact Nat.le_refl 1
    next => exact longer
  unfold earliestResult
  rw [max_eq_left early]
  exact WithTop.coe_le_coe.mpr
    (Nat.add_le_add_left (Nat.mul_le_mul_right period slower) view.now)

theorem Secured.issue {view : View lastReg} (base : Base view)
    {period number latency done : Nat} {known : Bool}
    {entry : RobEntry lastReg} {entries : List (RobEntry lastReg)}
    (found : view.entries[number]? = some entry)
    (ready : entry.ready ≤ view.now)
    (longer : entry.uop.execLatency ≤ latency)
    (pointwise : Library.Pointwise (IssueEffect number (view.now +
        (entry.issue view.now latency done known).uop.resultLatency * period)
      entry (entry.issue view.now latency done known)) view.entries entries)
    {s l : Nat} {store load storeAfter loadAfter : RobEntry lastReg}
    (inherits : ∀ p ∈ store.uop.dependencyList, p ∈ load.uop.dependencyList)
    (storeEffect : IssueEffect number (view.now +
        (entry.issue view.now latency done known).uop.resultLatency * period)
      entry (entry.issue view.now latency done known) s store storeAfter)
    (loadEffect : IssueEffect number (view.now +
        (entry.issue view.now latency done known).uop.resultLatency * period)
      entry (entry.issue view.now latency done known) l load loadAfter)
    (secured : Secured period view store load) :
    Secured period { view with entries := entries } storeAfter loadAfter := by
  have limit := @earliestResult_le_issue _ view base period number latency done
    known entry found ready longer
  generalize view.now + (entry.issue view.now latency done
    known).uop.resultLatency * period = cycleDepend
      at pointwise storeEffect loadEffect limit
  have grows : load.readyMax ≤ loadAfter.readyMax := by
    rw [loadEffect.readyMax]
    split
    next => exact le_max_left _ _
    next => exact le_refl _
  have learns : number ∈ load.uop.dependencyList →
      (cycleDepend : SubsecondTime) ≤ loadAfter.readyMax := by
    intro member
    rw [loadEffect.readyMax, if_pos member]
    exact le_max_right _ _
  -- Another producer still waits, and its result is not available earlier.
  have still : ∀ {p : Nat} {producer : RobEntry lastReg}, p ≠ number →
      p ∈ load.uop.dependencyList → view.entries[p]? = some producer →
      storeAfter.readyMax ≤ earliestResult period view.now producer →
      Secured period { view with entries := entries } storeAfter loadAfter := by
    intro p producer different listed foundProducer le
    obtain ⟨after, foundAfter, effect⟩ := pointwise.forward foundProducer
    apply Secured.waits p after ((loadEffect.mem_iff p).mpr ⟨listed, different⟩)
      foundAfter
    apply le.trans
    apply earliestResult_mono (Nat.le_refl _) _ (Nat.le_refl _)
      (effect.resultLatency different)
    rw [effect.readyMax]
    split
    next => exact le_max_left _ _
    next => exact le_refl _
  by_cases stored : number ∈ store.uop.dependencyList
  · have listed := inherits number stored
    have storeTime : storeAfter.readyMax =
        max store.readyMax (cycleDepend : SubsecondTime) := by
      rw [storeEffect.readyMax, if_pos stored]
    have late : store.readyMax ≤ cycleDepend →
        Secured period { view with entries := entries } storeAfter
          loadAfter := by
      intro le
      apply Secured.known
      rw [storeTime, max_eq_right le]
      exact learns listed
    cases secured with
    | known le =>
        apply Secured.known
        rw [storeTime]
        exact max_le (le.trans grows) (learns listed)
    | settled empty _ =>
        rw [empty] at listed
        cases listed
    | undispatched empty _ _ =>
        rw [empty] at listed
        cases listed
    | waits p producer waited foundProducer le =>
        by_cases isNumber : p = number
        · subst isNumber
          rw [found] at foundProducer
          cases foundProducer
          exact late (le.trans limit)
        · cases le_total store.readyMax (cycleDepend : SubsecondTime) with
          | inl early => exact late early
          | inr later =>
              apply still isNumber waited foundProducer
              rw [storeTime, max_eq_left later]
              exact le
  · have storeTime : storeAfter.readyMax = store.readyMax := by
      rw [storeEffect.readyMax, if_neg stored]
    have unchanged : load.uop.dependencyList = [] →
        loadAfter.uop.dependencyList = [] ∧ loadAfter.ready = load.ready := by
      intro empty
      constructor
      · rw [List.eq_nil_iff_forall_not_mem]
        intro p listed
        have := ((loadEffect.mem_iff p).mp listed).1
        rw [empty] at this
        cases this
      · apply loadEffect.ready
        rw [empty]
        exact List.not_mem_nil
    cases secured with
    | known le =>
        apply Secured.known
        rw [storeTime]
        exact le.trans grows
    | settled empty le =>
        obtain ⟨emptyAfter, sameReady⟩ := unchanged empty
        apply Secured.settled emptyAfter
        rw [storeTime, sameReady]
        exact le
    | undispatched empty waits le =>
        apply Secured.undispatched (unchanged empty).1
        · rw [loadEffect.dispatched]
          exact waits
        · rw [storeTime]
          exact le
    | waits p producer waited foundProducer le =>
        by_cases isNumber : p = number
        · subst isNumber
          rw [found] at foundProducer
          cases foundProducer
          apply Secured.known
          rw [storeTime]
          exact (le.trans limit).trans (learns waited)
        · apply still isNumber waited foundProducer
          rw [storeTime]
          exact le

theorem Supplied.issue {view : View lastReg} (base : Base view)
    {period : Nat} (supplied : Supplied period view)
    {number latency done : Nat} {known : Bool}
    {entry : RobEntry lastReg} {entries : List (RobEntry lastReg)}
    (found : view.entries[number]? = some entry)
    (ready : entry.ready ≤ view.now)
    (longer : entry.uop.execLatency ≤ latency)
    (pointwise : Library.Pointwise (IssueEffect number (view.now +
        (entry.issue view.now latency done known).uop.resultLatency * period)
      entry (entry.issue view.now latency done known)) view.entries entries) :
    Supplied period { view with entries := entries } := by
  intro s l storeAfter loadAfter supplies
  obtain ⟨store, load, suppliesBefore, storeEffect, loadEffect⟩ :=
    supplies.backward pointwise
      (fun effect => ⟨effect.origin, effect.lowest⟩)
  have inherited : (∀ p ∈ store.uop.dependencyList,
        p ∈ load.uop.dependencyList) →
      ∀ p ∈ storeAfter.uop.dependencyList, p ∈ loadAfter.uop.dependencyList := by
    intro inherits p listed
    obtain ⟨before, different⟩ := (storeEffect.mem_iff p).mp listed
    exact (loadEffect.mem_iff p).mpr ⟨inherits p before, different⟩
  cases supplied suppliesBefore with
  | inl waits =>
      by_cases isNumber : s = number
      · -- The store itself is issued, which is not before its data is there.
        have isEntry := storeEffect.itself isNumber
        subst isEntry
        subst isNumber
        have sound := base.sound found
        have empty := sound.dependencyList_eq_nil ready
        refine Or.inr ⟨?_, ?_⟩
        · apply inherited
          intro p listed
          rw [empty] at listed
          cases listed
        · apply Secured.known
          rw [storeEffect.readyMax, loadEffect.readyMax, if_pos waits, empty,
            if_neg List.not_mem_nil]
          calc store.readyMax ≤ store.ready := sound.ready empty
            _ ≤ view.now := ready
            _ ≤ _ := WithTop.coe_le_coe.mpr (Nat.le_add_right _ _)
            _ ≤ _ := le_max_right _ _
      · exact Or.inl ((loadEffect.mem_iff s).mpr ⟨waits, isNumber⟩)
  | inr both =>
      obtain ⟨inherits, secured⟩ := both
      exact Or.inr ⟨inherited inherits, secured.issue base found ready longer
        pointwise inherits storeEffect loadEffect⟩

theorem Supplied.move {view next : View lastReg} {period : Nat}
    (base : Base view) (supplied : Supplied period view)
    (move : Move period view next) : Supplied period next := by
  cases move with
  | dispatch entry found => exact supplied.dispatch found
  | issue number latency done known entry entries found queued waiting ready
      longer later woken =>
      exact supplied.issue base found ready longer
        (base.pointwise_issue found waiting woken)
  | commit entry found done => exact supplied.commit
  | tick time later => exact supplied.tick later

/-! ## Adding a micro-operation keeps it -/

theorem latest_store {timer : RobTimer lastReg Outside}
    (base : Base timer.view) {s address : Nat} {store : RobEntry lastReg}
    (found : timer.entries[s]? = some store)
    (isStore : store.uop.microOp.isStore = true)
    (sameAddress : store.uop.address = address)
    (latest : ∀ {n : Nat} {other : RobEntry lastReg}, s < n →
      timer.entries[n]? = some other → other.uop.microOp.isStore = true →
        other.uop.address ≠ address) :
    Dependencies.latest timer.view.past (Dependencies.storesTo address) =
      some s := by
  obtain ⟨inside, isEntry⟩ := List.getElem?_eq_some_iff.mp found
  have length : (timer.entries.map RobEntry.origin).length =
      timer.entries.length := List.length_map _
  have isFound : timer.view.past.find? (Dependencies.storesTo address) =
      some store.origin := by
    rw [List.find?_eq_some_iff_getElem]
    constructor
    · unfold Dependencies.storesTo
      rw [Bool.and_eq_true, decide_eq_true_eq]
      exact ⟨isStore, sameAddress⟩
    · have place : timer.entries.length - 1 - s <
          (timer.entries.map RobEntry.origin).reverse.length := by
        rw [List.length_reverse, length]
        omega
      refine ⟨timer.entries.length - 1 - s, place, ?_, ?_⟩
      · have mirrored : timer.entries.length - 1 -
            (timer.entries.length - 1 - s) = s := by omega
        change (timer.entries.map RobEntry.origin).reverse[
          timer.entries.length - 1 - s] = _
        rw [List.getElem_reverse, List.getElem_map]
        simp only [length, mirrored, isEntry]
      · intro later before
        change (!Dependencies.storesTo address
          (timer.entries.map RobEntry.origin).reverse[later]) = true
        rw [List.getElem_reverse, List.getElem_map]
        simp only [length]
        have inOther : timer.entries.length - 1 - later <
            timer.entries.length := by omega
        have different := @latest (timer.entries.length - 1 - later) _
          (by omega) (List.getElem?_eq_getElem inOther)
        unfold Dependencies.storesTo
        rw [Bool.not_eq_true', Bool.and_eq_false_iff, decide_eq_false_iff_not]
        by_cases otherStore :
            timer.entries[timer.entries.length - 1 -
              later].uop.microOp.isStore = true
        · exact Or.inr (different otherStore)
        · exact Or.inl (Bool.eq_false_iff.mpr otherStore)
  unfold Dependencies.latest
  rw [isFound]
  exact congrArg some (base.numbered found)

namespace RobTimer.Inserted

variable {core : Core lastReg Outside} {timer next : RobTimer lastReg Outside}
  {uop : DynamicMicroOp lastReg} {tables : Dependencies lastReg}
  {tracked forwarded : DynamicMicroOp lastReg}
  {registered : List (RobEntry lastReg)} {new : RobEntry lastReg}

/-- A dependency is kept if it is not issued. -/
theorem mem_new (inserted : Inserted core timer next uop tables tracked
      forwarded registered new) {p : Nat} {producer : RobEntry lastReg}
    (found : timer.entries[p]? = some producer) (waiting : producer.done = ⊤)
    (listed : p ∈ forwarded.dependencyList) : p ∈ new.uop.dependencyList := by
  rw [← List.count_pos_iff, inserted.counts p producer found, if_pos waiting]
  exact List.count_pos_iff.mpr listed

theorem waiting_of_mem (inserted : Inserted core timer next uop tables tracked
      forwarded registered new) {p : Nat} {producer : RobEntry lastReg}
    (found : timer.entries[p]? = some producer)
    (listed : p ∈ new.uop.dependencyList) : producer.done = ⊤ := by
  have positive := List.count_pos_iff.mpr listed
  rw [inserted.counts p producer found] at positive
  by_contra finished
  rw [if_neg finished] at positive
  exact absurd positive (Nat.lt_irrefl 0)

/-- An old load waits for what it waited for. -/
theorem supplied_old (base : Base timer.view)
    (supplied : Supplied core.period timer.view)
    (inserted : Inserted core timer next uop tables tracked forwarded
      registered new) {s l : Nat} {store load : RobEntry lastReg}
    (supplies : Supplies next.view.entries s l store load)
    (old : l < timer.nextSequenceNumber) :
    s ∈ load.uop.dependencyList ∨
      (∀ p ∈ store.uop.dependencyList, p ∈ load.uop.dependencyList) ∧
        Secured core.period next.view store load := by
  have oldEntry : ∀ {n : Nat} {entry : RobEntry lastReg}, n ≤ l →
      next.view.entries[n]? = some entry →
      ∃ before dependants, timer.entries[n]? = some before ∧
        entry = { before with dependants := dependants } := by
    intro n entry le found
    cases inserted.cases_entry base found with
    | inl isOld => exact isOld.2
    | inr isNew => omega
  have sameNow : next.view.now = timer.now := by
    rw [inserted.view]
    rfl
  obtain ⟨storeBefore, _, foundStore, rfl⟩ :=
    oldEntry supplies.earlier.le supplies.storeAt
  obtain ⟨loadBefore, _, foundLoad, rfl⟩ :=
    oldEntry (Nat.le_refl l) supplies.loadAt
  have before : Supplies timer.entries s l storeBefore loadBefore :=
    ⟨foundStore, foundLoad, supplies.isLoad, supplies.isStore,
      supplies.sameAddress, supplies.inFlight, supplies.earlier,
      fun behind less found isStore => by
        have different :=
          supplies.latest behind less (inserted.old_entry found) isStore
        exact different⟩
  apply (supplied before).imp id
  intro both
  obtain ⟨inherits, secured⟩ := both
  refine ⟨inherits, ?_⟩
  cases secured with
  | known le => exact Secured.known le
  | settled empty le => exact Secured.settled empty le
  | undispatched empty waits le =>
      refine Secured.undispatched empty waits ?_
      rw [sameNow]
      exact le
  | waits p producer listed found le =>
      refine Secured.waits p _ listed (inserted.old_entry found) ?_
      rw [sameNow]
      exact le

/-- A new load waits for its store, or for all that its store waits for. -/
theorem supplied_new (base : Base timer.view)
    (inserted : Inserted core timer next uop tables tracked forwarded
      registered new) (inTime : ForwardsInTime core timer uop) {s : Nat}
    {store : RobEntry lastReg} (found : timer.entries[s]? = some store)
    (isLoad : uop.microOp.isLoad = true) (inFlight : timer.popped ≤ s)
    (isLatest : Dependencies.latest timer.view.past
      (Dependencies.storesTo uop.address) = some s) :
    s ∈ new.uop.dependencyList ∨
      (∀ p ∈ store.uop.dependencyList, p ∈ new.uop.dependencyList) ∧
        Secured core.period next.view store new := by
  have sameNow : next.view.now = timer.now := by
    rw [inserted.view]
    rfl
  obtain ⟨extended, -, tracks⟩ := track_ok base inserted.track
  have isTracked := tracks s isLoad isLatest inFlight
  have sound := base.sound found
  -- The store may stay among the dependencies.
  have stays : s ∈ forwarded.dependencyList →
      s ∈ new.uop.dependencyList ∨
        (∀ p ∈ store.uop.dependencyList, p ∈ new.uop.dependencyList) ∧
          Secured core.period next.view store new := by
    intro listed
    by_cases waiting : store.done = ⊤
    · exact Or.inl (inserted.mem_new found waiting listed)
    · obtain ⟨ready, early⟩ := sound.finished waiting
      refine Or.inr ⟨?_, ?_⟩
      · rw [sound.dependencyList_eq_nil ready]
        exact fun p member => absurd member List.not_mem_nil
      · exact Secured.known
          (early.trans (inserted.known s listed store found waiting))
  cases forward_ok inserted.forward with
  | inl same =>
      apply stays
      rw [same]
      exact isTracked
  | inr forwards =>
      obtain ⟨first, entry, removed, forwards, remove, add⟩ := forwards
      obtain ⟨find, member⟩ := findStore_some forwards.first
      obtain ⟨foundFirst, -⟩ := findEntryBySequenceNumber_ok base.numbered find
      obtain ⟨-, -, members⟩ := DynamicMicroOp.addDependencies_ok add
      obtain ⟨-, -, -, perm⟩ :=
        DynamicMicroOp.removeDependency_ok inserted.rangedTracked remove
      by_cases isFirst : first = s
      · subst isFirst
        rw [found] at foundFirst
        cases foundFirst
        have awaited : ∀ p, p ∈ forwarded.dependencyList ↔
            Awaited tracked first store p := by
          intro p
          rw [members, perm.mem_iff]
          rfl
        refine Or.inr ⟨?_, ?_⟩
        · intro p listed
          obtain ⟨producer, foundProducer, waiting⟩ :=
            base.pending found p listed
          exact inserted.mem_new foundProducer waiting
            ((awaited p).mpr (Or.inr listed))
        · cases inTime tables tracked first store inserted.track forwards
            isLatest with
          | inl someLate =>
              obtain ⟨p, producer, isAwaited, foundProducer, le⟩ := someLate
              have listed := (awaited p).mpr isAwaited
              unfold RobTimer.available at le
              split at le
              next waiting =>
                apply Secured.waits p _
                  (inserted.mem_new foundProducer waiting listed)
                  (inserted.old_entry foundProducer)
                rw [sameNow]
                exact le
              next finished =>
                exact Secured.known (le.trans (inserted.known p listed producer
                  foundProducer finished))
          | inr allKnown =>
              obtain ⟨all, le⟩ := allKnown
              apply Secured.undispatched _ inserted.dispatched
              · rw [sameNow]
                exact le
              · rw [List.eq_nil_iff_forall_not_mem]
                intro p listed
                have member := inserted.subset p listed
                obtain ⟨producer, foundProducer⟩ := inserted.found p member
                exact all p producer ((awaited p).mp member) foundProducer
                  (inserted.waiting_of_mem foundProducer listed)
      · apply stays
        apply (members s).mpr
        left
        rw [perm.mem_iff]
        exact (List.mem_erase_of_ne (Ne.symm isFirst)).mpr isTracked

theorem supplied (base : Base timer.view)
    (supplied : Supplied core.period timer.view)
    (inserted : Inserted core timer next uop tables tracked forwarded
      registered new) (inTime : ForwardsInTime core timer uop) :
    Supplied core.period next.view := by
  intro s l store load supplies
  cases inserted.cases_entry base supplies.loadAt with
  | inl old => exact inserted.supplied_old base supplied supplies old.1
  | inr isNew =>
      obtain ⟨rfl, rfl⟩ := isNew
      obtain ⟨sameOp, sameAddress⟩ := fields_of_origin
        (show load.origin = RobEntry.origin
          { load with uop := timer.numberedUop uop } from inserted.origin)
      have inFlight : timer.popped ≤ s := by
        have lowest := inserted.lowest
        rw [lowestValidSequenceNumber_eq base] at lowest
        exact lowest.symm.trans_le supplies.inFlight
      cases inserted.cases_entry base supplies.storeAt with
      | inl old =>
          obtain ⟨-, before, _, foundStore, rfl⟩ := old
          have isLatest := latest_store base foundStore supplies.isStore
            supplies.sameAddress
            (fun behind found isStore => by
              obtain ⟨inside, -⟩ := List.getElem?_eq_some_iff.mp found
              have different := supplies.latest behind
                (lt_of_lt_of_eq inside base.next.symm)
                (inserted.old_entry found) isStore
              exact different)
          rw [sameAddress] at isLatest
          have isLoad := supplies.isLoad
          rw [sameOp] at isLoad
          cases inserted.supplied_new base inTime foundStore isLoad inFlight
            isLatest with
          | inl waits => exact Or.inl waits
          | inr both =>
              obtain ⟨inherits, secured⟩ := both
              refine Or.inr ⟨inherits, ?_⟩
              cases secured with
              | known le => exact Secured.known le
              | settled empty le => exact Secured.settled empty le
              | undispatched empty waits le =>
                  exact Secured.undispatched empty waits le
              | waits p producer listed found le =>
                  exact Secured.waits p producer listed found le
      | inr itself => exact absurd supplies.earlier (by omega)

end RobTimer.Inserted

/-! ## Every state -/

theorem supplied_start (core : Core lastReg Outside) (outside : Outside) :
    Supplied core.period (RobTimer.start core outside).view := by
  intro s l store load supplies
  cases supplies.storeAt

theorem Reached.base {core : Core lastReg Outside}
    {condition : RobTimer lastReg Outside → DynamicMicroOp lastReg → Prop}
    {timer : RobTimer lastReg Outside}
    (reached : Reached core condition timer) : Base timer.view := by
  induction reached with
  | start outside => exact base_start core outside
  | insert uop _ fits _ run ih =>
      obtain ⟨_, _, _, _, _, inserted⟩ :=
        RobTimer.insert_ok ih fits run
      exact inserted.base ih
  | execute _ run ih =>
      exact RobTimer.base_of_moves ih
        (RobTimer.execute_moves ih run)
  | synchronize time _ later ih =>
      exact ih.tick later

theorem supplied_of_moves {period : Nat} {view next : View lastReg}
    (base : Base view) (supplied : Supplied period view)
    (moves : ReflTransGen (Move period) view next) :
    Base next ∧ Supplied period next :=
  Library.invariant_of_reflTransGen
    (fun view => Base view ∧ Supplied period view)
    (fun both move => ⟨both.1.move move, Supplied.move both.1 both.2 move⟩)
    ⟨base, supplied⟩ moves

theorem Reached.supplied {core : Core lastReg Outside}
    {timer : RobTimer lastReg Outside}
    (reached : Reached core (ForwardsInTime core) timer) :
    Supplied core.period timer.view := by
  induction reached with
  | start outside => exact supplied_start core outside
  | insert uop before fits meets run ih =>
      obtain ⟨_, _, _, _, _, inserted⟩ :=
        RobTimer.insert_ok before.base fits run
      exact inserted.supplied before.base ih meets
  | execute before run ih =>
      exact (supplied_of_moves before.base ih
        (RobTimer.execute_moves before.base run)).2
  | synchronize time _ later ih =>
      exact ih.tick later

/-- In every run in which each load that takes the place of its store is late
enough, the data of the store is available when the load becomes ready. -/
theorem dataAvailable_of_inTime {core : Core lastReg Outside}
    {timer : RobTimer lastReg Outside}
    (reached : Reached core (ForwardsInTime core) timer) :
    DataAvailable timer :=
  dataAvailable_of_supplied reached.base reached.supplied

/-! ## Calls of `simulate` -/

/-- Every micro-operation meets the condition when it is added. -/
def InsertsMeet (core : Core lastReg Outside)
    (condition : RobTimer lastReg Outside → DynamicMicroOp lastReg → Prop) :
    List (DynamicMicroOp lastReg) → RobTimer lastReg Outside → Prop
  | [], _ => True
  | uop :: rest, timer =>
      if uop.squashed then InsertsMeet core condition rest timer
      else uop.Fits ∧ condition timer uop ∧
        ∀ next, timer.insert core uop = .ok next →
          InsertsMeet core condition rest next

namespace Reached

variable {core : Core lastReg Outside}
  {condition : RobTimer lastReg Outside → DynamicMicroOp lastReg → Prop}
  {timer next : RobTimer lastReg Outside}

theorem insertAll {insts : List (DynamicMicroOp lastReg)}
    (reached : Reached core condition timer)
    (meets : InsertsMeet core condition insts timer)
    (run : RobTimer.insertAll core insts timer = .ok next) :
    Reached core condition next := by
  induction insts generalizing timer with
  | nil =>
      cases run
      exact reached
  | cons uop rest ih =>
      rw [RobTimer.insertAll] at run
      rw [InsertsMeet] at meets
      by_cases squashed : uop.squashed = true
      · rw [if_pos squashed] at run meets
        exact ih reached meets run
      · rw [if_neg squashed] at run meets
        obtain ⟨fits, met, later⟩ := meets
        obtain ⟨middle, one, run⟩ := Library.bind_eq_ok.mp run
        exact ih (reached.insert uop fits met one)
          (later middle one) run

theorem executeLoop {rounds executed latency total totalLatency : Nat}
    (reached : Reached core condition timer)
    (run : RobTimer.executeLoop core rounds executed latency timer =
      .ok (some (next, total, totalLatency))) :
    Reached core condition next := by
  induction rounds generalizing timer executed latency with
  | zero => cases run
  | succ rounds ih =>
      rw [RobTimer.executeLoop] at run
      obtain ⟨⟨middle, once, onceLatency⟩, one, run⟩ :=
        Library.bind_eq_ok.mp run
      simp only at run
      split at run
      next =>
        cases run
        exact reached.execute one
      next => exact ih (reached.execute one) run

/-- A call of `simulate` leads from state to state. -/
theorem simulate {insts : List (DynamicMicroOp lastReg)}
    {rounds total totalLatency : Nat} (reached : Reached core condition timer)
    (meets : InsertsMeet core condition insts timer)
    (run : timer.simulate core rounds insts =
      .ok (some (next, total, totalLatency))) :
    Reached core condition next := by
  obtain ⟨middle, added, run⟩ := Library.bind_eq_ok.mp run
  exact (reached.insertAll meets added).executeLoop run

end Reached

/-- No entry knows a time that lies in the future. -/
def ResultsKnown (timer : RobTimer lastReg Outside) : Prop :=
  ∀ entry ∈ timer.entries, entry.readyMax ≤ timer.now

instance (timer : RobTimer lastReg Outside) : Decidable (ResultsKnown timer) :=
  inferInstanceAs (Decidable (∀ entry ∈ timer.entries, _))

/-- A time that does not lie in the future is not lost. -/
theorem forwardsInTime_of_resultsKnown {core : Core lastReg Outside}
    {timer : RobTimer lastReg Outside} (base : Base timer.view)
    (known : ResultsKnown timer) (uop : DynamicMicroOp lastReg) :
    ForwardsInTime core timer uop := by
  intro tables tracked s store _ forwards _
  obtain ⟨find, -⟩ := RobTimer.findStore_some forwards.first
  obtain ⟨found, -⟩ := RobTimer.findEntryBySequenceNumber_ok base.numbered find
  have early := known store (List.mem_of_getElem? found)
  by_cases waits : ∃ p producer, Awaited tracked s store p ∧
      timer.entries[p]? = some producer ∧ producer.done = ⊤
  · obtain ⟨p, producer, awaited, foundProducer, waiting⟩ := waits
    refine Or.inl ⟨p, producer, awaited, foundProducer, ?_⟩
    unfold RobTimer.available earliestResult
    rw [if_pos waiting]
    calc store.readyMax ≤ timer.now := early
      _ ≤ max (timer.now : SubsecondTime) producer.readyMax := le_max_left _ _
      _ ≤ _ := le_add_of_nonneg_right zero_le
  · refine Or.inr ⟨?_, early.trans
      (WithTop.coe_le_coe.mpr (Nat.le_add_right _ _))⟩
    intro p producer awaited foundProducer waiting
    exact waits ⟨p, producer, awaited, foundProducer, waiting⟩

/-- Whenever one of the micro-operations is added, no entry knows a time that
lies in the future. -/
def insertsKnown (core : Core lastReg Outside) :
    List (DynamicMicroOp lastReg) → RobTimer lastReg Outside → Bool
  | [], _ => true
  | uop :: rest, timer =>
      if uop.squashed then insertsKnown core rest timer
      else
        decide (uop.microOpTypeOffset + uop.intraInstructionDependencies <
          2 ^ 64) && decide (ResultsKnown timer) &&
        match timer.insert core uop with
        | .ok next => insertsKnown core rest next
        | .error _ => true

theorem insertsMeet_of_known {core : Core lastReg Outside}
    {insts : List (DynamicMicroOp lastReg)} {timer : RobTimer lastReg Outside}
    (base : Base timer.view) (known : insertsKnown core insts timer = true) :
    InsertsMeet core (ForwardsInTime core) insts timer := by
  induction insts generalizing timer with
  | nil => trivial
  | cons uop rest ih =>
      rw [InsertsMeet]
      rw [insertsKnown] at known
      by_cases squashed : uop.squashed = true
      · rw [if_pos squashed] at known ⊢
        exact ih base known
      · rw [if_neg squashed] at known ⊢
        simp only [Bool.and_eq_true, decide_eq_true_eq] at known
        obtain ⟨⟨fits, results⟩, later⟩ := known
        refine ⟨fits, forwardsInTime_of_resultsKnown base results uop, ?_⟩
        intro next run
        rw [run] at later
        obtain ⟨_, _, _, _, _, inserted⟩ := RobTimer.insert_ok base fits run
        exact ih (inserted.base base) later

/-! ## A store that knows more than its load -/

/-- A core that dispatches one micro-operation in a cycle. -/
def narrowCore : Core 1 Unit where
  dispatchWidth := 1
  commitWidth := 4
  windowSize := 8
  rsEntries := 8
  mispredictionPenalty := 8
  storeToLoadForwarding := true
  noAddressDisambiguation := false
  inorder := false
  outstandingLoads := 2
  outstandingStores := 2
  period := 1
  accessMemory := fun _ _ _ => (3, ())
  robContention := none

local instance oneRegister : NeZero 1 := ⟨by decide⟩

/-- A division, whose result is stored and read again. -/
def division : DynamicMicroOp 1 where
  microOp := { uopType := .execute, destinationRegisters := [0] }
  sequenceNumber := 0
  execLatency := 50

def storeOfDivision : DynamicMicroOp 1 where
  microOp := { uopType := .store, sourceRegisters := [0] }
  sequenceNumber := 0
  address := 64

def loadOfDivision : DynamicMicroOp 1 where
  microOp := { uopType := .load }
  sequenceNumber := 0
  address := 64

def nothing : DynamicMicroOp 1 where
  microOp := { uopType := .execute }
  sequenceNumber := 0

/-- What a state after a call of `simulate` is tested for. -/
def endsWith (test : RobTimer 1 Unit → Bool) :
    Except Failure (Option (RobTimer 1 Unit × Nat × Nat)) → Bool
  | .ok (some (timer, _, _)) => test timer
  | _ => false

theorem exists_of_endsWith {test : RobTimer 1 Unit → Bool}
    {result : Except Failure (Option (RobTimer 1 Unit × Nat × Nat))}
    (passes : endsWith test result = true) :
    ∃ timer total totalLatency,
      result = .ok (some (timer, total, totalLatency)) ∧ test timer = true := by
  cases result with
  | error failure => cases passes
  | ok value =>
      cases value with
      | none => cases passes
      | some triple =>
          obtain ⟨timer, total, totalLatency⟩ := triple
          exact ⟨timer, total, totalLatency, rfl, passes⟩

/-- The store at a place supplies the load that follows it, which is dispatched
and ready: the times of the store and of the load. -/
def suppliedAt (place : Nat) (timer : RobTimer 1 Unit) :
    Option (SubsecondTime × SubsecondTime) :=
  match timer.entries[place]?, timer.entries[place + 1]? with
  | some store, some load =>
      if store.uop.microOp.isStore ∧ load.uop.microOp.isLoad ∧
          store.uop.address = load.uop.address ∧ load.lowest ≤ place ∧
          load.dispatched ≠ none ∧ load.ready ≠ ⊤ then
        some (store.readyMax, load.ready)
      else none
  | _, _ => none

theorem le_of_suppliedAt {place : Nat} {timer : RobTimer 1 Unit}
    {known ready : SubsecondTime} (available : DataAvailable timer)
    (supplied : suppliedAt place timer = some (known, ready)) :
    known ≤ ready := by
  unfold suppliedAt at supplied
  split at supplied
  next store load foundStore foundLoad =>
    split at supplied
    next all =>
      cases supplied
      obtain ⟨isStore, isLoad, sameAddress, inFlight, dispatched, isReady⟩ := all
      have supplies : Supplies timer.entries place (place + 1) store load :=
        ⟨foundStore, foundLoad, isLoad, isStore, sameAddress, inFlight,
          Nat.lt_succ_self place, fun behind before => by omega⟩
      exact (available supplies dispatched isReady).2
    next => cases supplied
  next => cases supplied

/-- The division is issued before the store is added, so the load takes over
nothing from the store and is ready 47 cycles before the quotient is there. -/
theorem load_ready_before_data :
    ∃ first second total totalLatency later laterLatency,
      (RobTimer.start narrowCore ()).simulate narrowCore 8
          [division, nothing, nothing] =
        .ok (some (first, total, totalLatency)) ∧
      first.simulate narrowCore 8
          [storeOfDivision, loadOfDivision, nothing, nothing] =
        .ok (some (second, later, laterLatency)) ∧
      suppliedAt 3 second = some (((52 : Nat) : SubsecondTime),
        ((5 : Nat) : SubsecondTime)) ∧
      ¬ DataAvailable second := by
  have run : endsWith (fun first => endsWith (fun second =>
        decide (suppliedAt 3 second = some (((52 : Nat) : SubsecondTime),
          ((5 : Nat) : SubsecondTime))))
      (first.simulate narrowCore 8
        [storeOfDivision, loadOfDivision, nothing, nothing]))
      ((RobTimer.start narrowCore ()).simulate narrowCore 8
        [division, nothing, nothing]) = true := by
    decide +kernel
  obtain ⟨first, total, totalLatency, isFirst, rest⟩ := exists_of_endsWith run
  obtain ⟨second, later, laterLatency, isSecond, test⟩ :=
    exists_of_endsWith rest
  have supplied := of_decide_eq_true test
  refine ⟨first, second, total, totalLatency, later, laterLatency, isFirst,
    isSecond, supplied, ?_⟩
  intro available
  have impossible := le_of_suppliedAt available supplied
  exact absurd (WithTop.coe_le_coe.mp impossible) (by decide)

/-- All are added before the division is issued. -/
theorem dataAvailable_at_once :
    ∃ timer total totalLatency,
      (RobTimer.start narrowCore ()).simulate narrowCore 8
          [division, storeOfDivision, loadOfDivision, nothing, nothing] =
        .ok (some (timer, total, totalLatency)) ∧
      suppliedAt 1 timer = some (((51 : Nat) : SubsecondTime),
        ((51 : Nat) : SubsecondTime)) ∧
      DataAvailable timer := by
  have run : endsWith (fun timer =>
        decide (suppliedAt 1 timer = some (((51 : Nat) : SubsecondTime),
          ((51 : Nat) : SubsecondTime))))
      ((RobTimer.start narrowCore ()).simulate narrowCore 8
        [division, storeOfDivision, loadOfDivision, nothing, nothing]) =
          true := by
    decide +kernel
  have known : insertsKnown narrowCore
      [division, storeOfDivision, loadOfDivision, nothing, nothing]
      (RobTimer.start narrowCore ()) = true := by
    decide +kernel
  obtain ⟨timer, total, totalLatency, isTimer, test⟩ := exists_of_endsWith run
  have start : Reached narrowCore (ForwardsInTime narrowCore)
      (RobTimer.start narrowCore ()) := Reached.start ()
  have reached := start.simulate (insertsMeet_of_known start.base known) isTimer
  exact ⟨timer, total, totalLatency, isTimer, of_decide_eq_true test,
    dataAvailable_of_inTime reached⟩

end ChipletSniper.Rob
