import ChipletSniper.Rob.StageRules

/-!
# The invariant of the pipeline

The window and the reservation stations are never overfull, and every entry is
dispatched, issued and done in this order, in different cycles.  What a stage
does to an entry is done once.
-/

namespace ChipletSniper.Rob

open Library (Outcome)

variable {lastReg : Nat} {Outside : Type}

/-- The entry waits in a reservation station. -/
def RobEntry.waits (entry : RobEntry lastReg) : Bool :=
  entry.dispatched.isSome && decide (entry.issued = ⊤)

theorem DynamicMicroOp.resultLatency_pos {uop : DynamicMicroOp lastReg}
    (latency : 0 < uop.execLatency) : 0 < uop.resultLatency := by
  unfold resultLatency
  split
  next => exact Nat.one_pos
  next => exact latency

/-! ## The times of an entry -/

/-- What the times of an entry say at a time. -/
structure Timed (period now : Nat) (entry : RobEntry lastReg) : Prop where
  latency : 0 < entry.uop.execLatency
  done_iff : entry.done = ⊤ ↔ entry.issued = ⊤
  dispatched : ∀ {d : Nat}, entry.dispatched = some d →
    d ≤ now ∧ ((d + period : Nat) : SubsecondTime) ≤ entry.ready
  issued : ∀ {i : Nat}, entry.issued = (i : SubsecondTime) →
    i ≤ now ∧ entry.readyMax ≤ (i : SubsecondTime) ∧
      (∃ d, entry.dispatched = some d ∧ d + period ≤ i) ∧
      ((i + entry.uop.resultLatency * period : Nat) : SubsecondTime) ≤ entry.done

namespace Timed

variable {period now : Nat} {entry : RobEntry lastReg}

theorem mono (timed : Timed period now entry) {later : Nat} (le : now ≤ later) :
    Timed period later entry where
  latency := timed.latency
  done_iff := timed.done_iff
  dispatched isDispatched := by
    obtain ⟨before, ready⟩ := timed.dispatched isDispatched
    exact ⟨before.trans le, ready⟩
  issued isIssued := by
    obtain ⟨before, known⟩ := timed.issued isIssued
    exact ⟨before.trans le, known⟩

/-- What is done was issued in an earlier cycle. -/
theorem issued_of_done (timed : Timed period now entry)
    (done : entry.done ≤ (now : SubsecondTime)) :
    ∃ i : Nat, entry.issued = (i : SubsecondTime) ∧ i + period ≤ now := by
  have isIssued : entry.issued ≠ ⊤ := by
    intro waits
    rw [timed.done_iff.mpr waits, top_le_iff] at done
    exact WithTop.coe_ne_top done
  obtain ⟨i, sameIssued⟩ := WithTop.ne_top_iff_exists.mp isIssued
  obtain ⟨-, -, -, later⟩ := timed.issued sameIssued.symm
  refine ⟨i, sameIssued.symm, ?_⟩
  have bound : i + entry.uop.resultLatency * period ≤ now :=
    WithTop.coe_le_coe.mp (later.trans done)
  have one : 1 * period ≤ entry.uop.resultLatency * period :=
    Nat.mul_le_mul_right period
      (DynamicMicroOp.resultLatency_pos timed.latency)
  omega

end Timed

/-! ## What a stage does to an entry -/

/-- An entry is dispatched or issued at a time, or stays as it is.  What is
issued was dispatched in an earlier cycle. -/
structure Advances (period now : Nat) (before after : RobEntry lastReg) :
    Prop where
  origin : after.origin = before.origin
  lowest : after.lowest = before.lowest
  dispatched : after.dispatched = before.dispatched ∨
    before.dispatched = none ∧ after.dispatched = some now
  issued : after.issued = before.issued ∨
    before.issued = ⊤ ∧ after.issued = (now : SubsecondTime) ∧
      ∃ d, before.dispatched = some d ∧ d + period ≤ now

namespace Advances

variable {period now : Nat} {before middle after : RobEntry lastReg}

theorem refl (entry : RobEntry lastReg) : Advances period now entry entry :=
  ⟨rfl, rfl, Or.inl rfl, Or.inl rfl⟩

theorem trans (positive : 0 < period) (head : Advances period now before middle)
    (tail : Advances period now middle after) :
    Advances period now before after where
  origin := tail.origin.trans head.origin
  lowest := tail.lowest.trans head.lowest
  dispatched := by
    cases tail.dispatched with
    | inl same =>
        rw [same]
        exact head.dispatched
    | inr now =>
        cases head.dispatched with
        | inl same => exact Or.inr ⟨same ▸ now.1, now.2⟩
        | inr earlier =>
            rw [earlier.2] at now
            cases now.1
  issued := by
    cases tail.issued with
    | inl same =>
        rw [same]
        exact head.issued
    | inr now =>
        obtain ⟨waits, isNow, d, isDispatched, earlier⟩ := now
        cases head.issued with
        | inl same =>
            refine Or.inr ⟨same ▸ waits, isNow, d, ?_, earlier⟩
            cases head.dispatched with
            | inl sameDispatched => rw [← sameDispatched, isDispatched]
            | inr isNew =>
                rw [isNew.2] at isDispatched
                cases isDispatched
                omega
        | inr isIssued =>
            rw [isIssued.2.1] at waits
            exact absurd waits WithTop.coe_ne_top

/-- Who was issued before the cycle is issued at the same time after it. -/
theorem issued_before (positive : 0 < period)
    (advances : Advances period now before after) {i : Nat}
    (issued : after.issued = (i : SubsecondTime)) (earlier : i + period ≤ now) :
    before.issued = (i : SubsecondTime) := by
  cases advances.issued with
  | inl same => rw [← same, issued]
  | inr isNew =>
      rw [isNew.2.1] at issued
      have same : now = i := WithTop.coe_injective issued
      omega

end Advances

/-- What a stage has done since it began. -/
structure Since (period : Nat) (first timer : RobTimer lastReg Outside) :
    Prop where
  now : timer.now = first.now
  entries : Library.Pointwise
    (fun _ before after => Advances period first.now before after)
    first.entries timer.entries
  popped : first.popped ≤ timer.popped
  committed : ∀ {n : Nat}, first.popped ≤ n → n < timer.popped →
    ∃ entry i, first.entries[n]? = some entry ∧
      entry.issued = ((i : Nat) : SubsecondTime) ∧ i + period ≤ first.now

namespace Since

variable {period : Nat} {first middle last : RobTimer lastReg Outside}

theorem refl (timer : RobTimer lastReg Outside) : Since period timer timer where
  now := rfl
  entries := Library.Pointwise.refl (fun _ entry => Advances.refl entry) _
  popped := Nat.le_refl _
  committed low high := absurd high (Nat.not_lt.mpr low)

theorem trans (positive : 0 < period) (head : Since period first middle)
    (tail : Since period middle last) : Since period first last where
  now := tail.now.trans head.now
  entries := by
    apply head.entries.trans _ tail.entries
    intro _ before between after one two
    rw [head.now] at two
    exact one.trans positive two
  popped := head.popped.trans tail.popped
  committed := by
    intro n low high
    by_cases early : n < middle.popped
    · exact head.committed low early
    · obtain ⟨entry, i, found, issued, earlier⟩ :=
        tail.committed (Nat.not_lt.mp early) high
      obtain ⟨before, foundBefore, advances⟩ := head.entries.backward found
      rw [head.now] at earlier
      exact ⟨before, i, foundBefore,
        advances.issued_before positive issued earlier, earlier⟩

/-- Changes outside of the queue. -/
theorem sameQueue (same : RobTimer.SameQueue middle last)
    (since : Since period first middle) : Since period first last := by
  rw [same]
  exact ⟨since.now, since.entries, since.popped, since.committed⟩

end Since

/-! ## The invariant -/

/-- The invariant of the pipeline. -/
structure Pipeline (core : Core lastReg Outside)
    (timer : RobTimer lastReg Outside) : Prop where
  base : Base timer.view
  window : timer.numInRob ≤ core.windowSize
  inside : timer.popped + timer.numInRob ≤ timer.entries.length
  dispatched : ∀ {n : Nat} {entry : RobEntry lastReg},
    timer.entries[n]? = some entry → n < timer.popped + timer.numInRob →
      entry.dispatched ≠ none
  committed : ∀ {n : Nat} {entry : RobEntry lastReg},
    timer.entries[n]? = some entry → n < timer.popped →
      entry.done ≤ timer.now
  used : timer.rsEntriesUsed = timer.entries.countP RobEntry.waits
  stations : timer.rsEntriesUsed ≤ core.rsEntries
  timed : ∀ {n : Nat} {entry : RobEntry lastReg},
    timer.entries[n]? = some entry → Timed core.period timer.now entry
  addresses : ∀ entry ∈ timer.entries, ∀ p ∈ entry.addressProducers,
    p < timer.entries.length

namespace Pipeline

variable {core : Core lastReg Outside} {timer next : RobTimer lastReg Outside}

theorem start (core : Core lastReg Outside) (outside : Outside) :
    Pipeline core (RobTimer.start core outside) where
  base := base_start core outside
  window := Nat.zero_le _
  inside := Nat.le_refl _
  dispatched found := by cases found
  committed found := by cases found
  used := rfl
  stations := Nat.zero_le _
  timed found := by cases found
  addresses entry member := by cases member

theorem indexed (pipeline : Pipeline core timer) : timer.Indexed where
  numbered := pipeline.base.numbered
  next := pipeline.base.next
  ranged entry member := by
    obtain ⟨place, found⟩ := List.mem_iff_getElem?.mp member
    exact (pipeline.base.sound found).ranged
  addresses := pipeline.addresses

theorem sameQueue (pipeline : Pipeline core timer)
    (same : RobTimer.SameQueue timer next) : Pipeline core next := by
  have base := pipeline.base
  rw [← same.view] at base
  rw [same] at base ⊢
  exact ⟨base, pipeline.window, pipeline.inside, pipeline.dispatched,
    pipeline.committed, pipeline.used, pipeline.stations, pipeline.timed,
    pipeline.addresses⟩

/-! ## Dispatch -/

/-- The entry that is dispatched next. -/
theorem next_entry (pipeline : Pipeline core timer) {entry : RobEntry lastReg}
    (found : timer.entryAt timer.numInRob = some entry) :
    entry.dispatched = none ∧ entry.done = ⊤ ∧ entry.issued = ⊤ := by
  obtain ⟨notDone, notDispatched⟩ :=
    pipeline.base.undispatched found (Nat.le_refl _)
  exact ⟨notDispatched, notDone,
    (pipeline.timed found).done_iff.mp notDone⟩

theorem dispatchEntry (pipeline : Pipeline core timer)
    {entry : RobEntry lastReg} (room : timer.numInRob < core.windowSize)
    (free : timer.rsEntriesUsed ≠ core.rsEntries)
    (found : timer.entryAt timer.numInRob = some entry) :
    Pipeline core (timer.dispatchEntry core entry) := by
  obtain ⟨notDispatched, notDone, notIssued⟩ := pipeline.next_entry found
  obtain ⟨known, isEntry⟩ := List.getElem?_eq_some_iff.mp found
  have pointwise : Library.Pointwise _ timer.entries
      (timer.dispatchEntry core entry).entries :=
    pointwise_replaced found (entry.dispatch timer.now core.period)
  have length := pointwise.length
  constructor
  case base => exact pipeline.base.dispatch core.period found
  case window => exact room
  case inside =>
    rw [length]
    change timer.popped + (timer.numInRob + 1) ≤ _
    omega
  case dispatched =>
    intro n after foundAfter within
    have within : n < timer.popped + (timer.numInRob + 1) := within
    obtain ⟨before, foundBefore, replaced⟩ := pointwise.backward foundAfter
    cases replaced with
    | inl here =>
        obtain ⟨-, -, rfl⟩ := here
        exact Option.some_ne_none timer.now
    | inr elsewhere =>
        obtain ⟨different, rfl⟩ := elsewhere
        exact pipeline.dispatched foundBefore (by omega)
  case committed =>
    intro n after foundAfter early
    have early : n < timer.popped := early
    obtain ⟨before, foundBefore, replaced⟩ := pointwise.backward foundAfter
    have done := pipeline.committed foundBefore early
    cases replaced with
    | inl here => exact absurd here.1 (by omega)
    | inr elsewhere =>
        obtain ⟨-, rfl⟩ := elsewhere
        exact done
  case used =>
    have before : timer.entries[timer.popped + timer.numInRob].waits = false := by
      rw [isEntry, RobEntry.waits, notDispatched]
      rfl
    have after : (entry.dispatch timer.now core.period).waits = true := by
      change (true && decide (entry.issued = ⊤)) = true
      rw [notIssued]
      rfl
    have count := List.countP_set (p := RobEntry.waits)
      (a := entry.dispatch timer.now core.period) known
    rw [before, after] at count
    change timer.rsEntriesUsed + 1 = _
    rw [pipeline.used]
    exact count.symm
  case stations =>
    have bound := pipeline.stations
    change timer.rsEntriesUsed + 1 ≤ _
    omega
  case timed =>
    intro n after foundAfter
    obtain ⟨before, foundBefore, replaced⟩ := pointwise.backward foundAfter
    have timed := pipeline.timed foundBefore
    cases replaced with
    | inl here =>
        obtain ⟨-, rfl, rfl⟩ := here
        refine ⟨timed.latency, timed.done_iff, ?_, ?_⟩
        · intro d isDispatched
          cases isDispatched
          exact ⟨Nat.le_refl _, le_max_right _ _⟩
        · intro i isIssued
          change before.issued = _ at isIssued
          rw [notIssued] at isIssued
          exact absurd isIssued.symm WithTop.coe_ne_top
    | inr elsewhere =>
        obtain ⟨-, rfl⟩ := elsewhere
        exact timed
  case addresses =>
    intro after member p isProducer
    obtain ⟨n, foundAfter⟩ := List.mem_iff_getElem?.mp member
    obtain ⟨before, foundBefore, replaced⟩ := pointwise.backward foundAfter
    have old := pipeline.addresses before (List.mem_of_getElem? foundBefore) p
    rw [length]
    cases replaced with
    | inl here =>
        obtain ⟨-, rfl, rfl⟩ := here
        exact old isProducer
    | inr elsewhere =>
        obtain ⟨-, rfl⟩ := elsewhere
        exact old isProducer

theorem since_dispatchEntry (pipeline : Pipeline core timer)
    {entry : RobEntry lastReg}
    (found : timer.entryAt timer.numInRob = some entry) :
    Since core.period timer (timer.dispatchEntry core entry) where
  now := rfl
  entries := by
    obtain ⟨notDispatched, -, -⟩ := pipeline.next_entry found
    apply Library.Pointwise.set found
    · exact ⟨rfl, rfl, Or.inr ⟨notDispatched, rfl⟩, Or.inl rfl⟩
    · exact fun _ other _ _ => Advances.refl other
  popped := Nat.le_refl _
  committed low high := absurd high (Nat.not_lt.mpr low)

/-! ## Issue -/

section Issue

variable {idx latency done : Nat} {known : Bool} {entry : RobEntry lastReg}

/-- The effect of `issueInstruction` on every entry. -/
theorem pointwise_issues (pipeline : Pipeline core timer)
    (found : timer.entryAt idx = some entry) (waiting : entry.done = ⊤)
    (issues : RobTimer.Issues core timer next (timer.popped + idx) entry latency
      done known) :
    Library.Pointwise (IssueEffect (timer.popped + idx) (timer.now +
        (entry.issue timer.now latency done known).uop.resultLatency *
          core.period) entry (entry.issue timer.now latency done known))
      timer.entries next.entries :=
  pipeline.base.pointwise_issue found waiting issues.woken

/-- The entry that is issued waits for nothing and was dispatched before. -/
theorem ready_entry (pipeline : Pipeline core timer)
    (within : idx < timer.numInRob) (found : timer.entryAt idx = some entry)
    (ready : entry.ready ≤ timer.now) :
    entry.uop.dependencyList = [] ∧ entry.readyMax ≤ timer.now ∧
      ∃ d, entry.dispatched = some d ∧ d + core.period ≤ timer.now := by
  have sound := pipeline.base.sound found
  have empty := sound.dependencyList_eq_nil ready
  have dispatched := pipeline.dispatched found
    (Nat.add_lt_add_left within timer.popped)
  obtain ⟨d, isDispatched⟩ := Option.ne_none_iff_exists'.mp dispatched
  obtain ⟨-, later⟩ := (pipeline.timed found).dispatched isDispatched
  exact ⟨empty, (sound.ready empty).trans ready, d, isDispatched,
    WithTop.coe_le_coe.mp (later.trans ready)⟩

/-- What has been issued is not told again. -/
theorem not_told (pipeline : Pipeline core timer) {place number : Nat}
    {other : RobEntry lastReg} (found : timer.entries[place]? = some other)
    {i : Nat} (issued : other.issued = (i : SubsecondTime)) :
    number ∉ other.uop.dependencyList := by
  have isDone : other.done ≠ ⊤ := by
    intro waits
    rw [(pipeline.timed found).done_iff.mp waits] at issued
    exact WithTop.coe_ne_top issued.symm
  have sound := pipeline.base.sound found
  have empty := sound.dependencyList_eq_nil (sound.finished isDone).1
  rw [empty]
  exact List.not_mem_nil

theorem timed_issues (pipeline : Pipeline core timer)
    (within : idx < timer.numInRob) (found : timer.entryAt idx = some entry)
    (waiting : entry.done = ⊤) (ready : entry.ready ≤ timer.now)
    (issues : RobTimer.Issues core timer next (timer.popped + idx) entry latency
      done known) {n : Nat} {after : RobEntry lastReg}
    (foundAfter : next.entries[n]? = some after) :
    Timed core.period timer.now after := by
  obtain ⟨before, foundBefore, effect⟩ :=
    (pipeline.pointwise_issues found waiting issues).backward foundAfter
  have timed := pipeline.timed foundBefore
  have positive := (pipeline.timed found).latency
  by_cases same : n = timer.popped + idx
  · obtain ⟨empty, readyMax, d, isDispatched, earlier⟩ :=
      pipeline.ready_entry within found ready
    have isEntry := effect.itself same
    subst isEntry
    have sameDone := effect.done_of_eq same
    constructor
    case latency =>
      rw [effect.latency_of_eq same]
      exact lt_of_lt_of_le positive issues.longer
    case done_iff =>
      rw [sameDone, effect.issued_of_eq same]
      exact iff_of_false WithTop.coe_ne_top WithTop.coe_ne_top
    case dispatched =>
      intro other isOther
      rw [effect.dispatched] at isOther
      rw [effect.ready (by rw [empty]; exact List.not_mem_nil)]
      exact timed.dispatched isOther
    case issued =>
      intro i isIssued
      rw [effect.issued_of_eq same] at isIssued
      have isNow : timer.now = i := WithTop.coe_injective isIssued
      subst isNow
      rw [effect.readyMax, if_neg (by rw [empty]; exact List.not_mem_nil),
        effect.dispatched, sameDone, effect.resultLatency_of_eq same]
      exact ⟨Nat.le_refl _, readyMax, ⟨d, isDispatched, earlier⟩,
        WithTop.coe_le_coe.mpr issues.later⟩
  · have woken := effect.woken
    rw [issuedAt, if_neg same] at woken
    constructor
    case latency =>
      rw [woken.latency]
      exact timed.latency
    case done_iff =>
      rw [effect.done_of_ne same, effect.issued_of_ne same]
      exact timed.done_iff
    case dispatched =>
      intro d isDispatched
      rw [effect.dispatched] at isDispatched
      obtain ⟨before, later⟩ := timed.dispatched isDispatched
      refine ⟨before, ?_⟩
      rw [woken.ready]
      split
      next both =>
        rw [woken.readyMax, if_neg both.1]
        apply le_trans _ (le_max_right _ _)
        have one : 1 * core.period ≤
            (entry.issue timer.now latency done known).uop.resultLatency *
              core.period :=
          Nat.mul_le_mul_right _ (DynamicMicroOp.resultLatency_pos
            (lt_of_lt_of_le positive issues.longer))
        have bound : d + core.period ≤ timer.now +
            (entry.issue timer.now latency done known).uop.resultLatency *
              core.period := by omega
        exact WithTop.coe_le_coe.mpr bound
      next => exact later
    case issued =>
      intro i isIssued
      rw [effect.issued_of_ne same] at isIssued
      rw [effect.readyMax, if_neg (pipeline.not_told foundBefore isIssued),
        effect.dispatched, effect.done_of_ne same, effect.resultLatency same]
      exact timed.issued isIssued

/-- One reservation station becomes free. -/
theorem countP_issues (pipeline : Pipeline core timer)
    (within : idx < timer.numInRob) (found : timer.entryAt idx = some entry)
    (waiting : entry.done = ⊤)
    (issues : RobTimer.Issues core timer next (timer.popped + idx) entry latency
      done known) :
    next.entries.countP RobEntry.waits + 1 =
      timer.entries.countP RobEntry.waits := by
  obtain ⟨inside, isEntry⟩ := List.getElem?_eq_some_iff.mp found
  have sameWaits : next.entries.map RobEntry.waits =
      (timer.entries.set (timer.popped + idx)
        (entry.issue timer.now latency done known)).map RobEntry.waits := by
    apply issues.woken.map_eq
    intro _ before after woken
    unfold RobEntry.waits
    rw [woken.dispatched, woken.issued]
  have sameCount : next.entries.countP RobEntry.waits =
      (timer.entries.set (timer.popped + idx)
        (entry.issue timer.now latency done known)).countP RobEntry.waits := by
    have counts := congrArg (List.countP id) sameWaits
    rw [List.countP_map, List.countP_map] at counts
    exact counts
  have before : timer.entries[timer.popped + idx].waits = true := by
    have notIssued := (pipeline.timed found).done_iff.mp waiting
    obtain ⟨d, isDispatched⟩ := Option.ne_none_iff_exists'.mp
      (pipeline.dispatched found (Nat.add_lt_add_left within timer.popped))
    rw [isEntry, RobEntry.waits, notIssued, isDispatched]
    rfl
  have after : (entry.issue timer.now latency done known).waits = false := by
    have notTop : (timer.now : SubsecondTime) ≠ ⊤ := WithTop.coe_ne_top
    change (_ && decide ((timer.now : SubsecondTime) = ⊤)) = false
    rw [decide_eq_false notTop, Bool.and_false]
  have count := List.countP_set (p := RobEntry.waits)
    (a := entry.issue timer.now latency done known) inside
  have positive : 0 < timer.entries.countP RobEntry.waits :=
    List.countP_pos_iff.mpr ⟨_, List.getElem_mem inside, before⟩
  rw [before, after] at count
  simp only [if_true, Bool.false_eq_true, if_false] at count
  omega

theorem issues (pipeline : Pipeline core timer)
    (within : idx < timer.numInRob) (found : timer.entryAt idx = some entry)
    (waiting : entry.done = ⊤) (ready : entry.ready ≤ timer.now)
    (issues : RobTimer.Issues core timer next (timer.popped + idx) entry latency
      done known) : Pipeline core next := by
  have pointwise := pipeline.pointwise_issues found waiting issues
  have count := pipeline.countP_issues within found waiting issues
  have samePopped : next.popped = timer.popped := by
    rw [issues.rest]
  have sameNumber : next.numInRob = timer.numInRob := by
    rw [issues.rest]
  have sameNow : next.now = timer.now := by
    rw [issues.rest]
  have sameUsed : next.rsEntriesUsed = timer.rsEntriesUsed - 1 := by
    rw [issues.rest]
  constructor
  case base =>
    have shape : next.view = { timer.view with entries := next.entries } :=
      issues.rest.view
    rw [shape]
    exact pipeline.base.issue found (Nat.add_lt_add_left within timer.popped)
      ready ((Nat.le_add_right _ _).trans issues.later) pointwise
  case window => exact le_of_eq_of_le sameNumber pipeline.window
  case inside =>
    rw [samePopped, sameNumber, pointwise.length]
    exact pipeline.inside
  case dispatched =>
    intro n after foundAfter inWindow
    rw [samePopped, sameNumber] at inWindow
    obtain ⟨before, foundBefore, effect⟩ := pointwise.backward foundAfter
    rw [effect.dispatched]
    exact pipeline.dispatched foundBefore inWindow
  case committed =>
    intro n after foundAfter early
    rw [samePopped] at early
    obtain ⟨before, foundBefore, effect⟩ := pointwise.backward foundAfter
    rw [effect.done_of_ne (by omega), sameNow]
    exact pipeline.committed foundBefore early
  case used =>
    have used := pipeline.used
    omega
  case stations =>
    have bound := pipeline.stations
    omega
  case timed =>
    intro n after foundAfter
    rw [sameNow]
    exact pipeline.timed_issues within found waiting ready issues foundAfter
  case addresses =>
    intro after member p isProducer
    obtain ⟨n, foundAfter⟩ := List.mem_iff_getElem?.mp member
    obtain ⟨before, foundBefore, effect⟩ := pointwise.backward foundAfter
    rw [effect.addressProducers] at isProducer
    rw [pointwise.length]
    exact pipeline.addresses before (List.mem_of_getElem? foundBefore) p
      isProducer

theorem since_issues (pipeline : Pipeline core timer)
    (within : idx < timer.numInRob) (found : timer.entryAt idx = some entry)
    (waiting : entry.done = ⊤) (ready : entry.ready ≤ timer.now)
    (issues : RobTimer.Issues core timer next (timer.popped + idx) entry latency
      done known) : Since core.period timer next := by
  have samePopped : next.popped = timer.popped := by
    rw [issues.rest]
  constructor
  case now => rw [issues.rest]
  case entries =>
    apply (pipeline.pointwise_issues found waiting issues).mono
    intro place before after effect
    refine ⟨effect.origin, effect.lowest, Or.inl effect.dispatched, ?_⟩
    by_cases same : place = timer.popped + idx
    · obtain ⟨-, -, dispatched⟩ := pipeline.ready_entry within found ready
      rw [effect.itself same]
      exact Or.inr ⟨(pipeline.timed found).done_iff.mp waiting,
        effect.issued_of_eq same, dispatched⟩
    · exact Or.inl (effect.issued_of_ne same)
  case popped => exact samePopped.ge
  case committed =>
    intro n low high
    omega

end Issue

/-! ## Commit and time -/

/-- The entry at the front that is done is in the window. -/
theorem numInRob_pos (pipeline : Pipeline core timer) {entry : RobEntry lastReg}
    (found : timer.entryAt 0 = some entry) (done : entry.done ≤ timer.now) :
    0 < timer.numInRob := by
  by_contra empty
  obtain ⟨waiting, -⟩ := pipeline.base.undispatched (n := timer.popped) found
    (by change timer.popped + timer.numInRob ≤ timer.popped; omega)
  rw [waiting, top_le_iff] at done
  exact WithTop.coe_ne_top done

theorem pop (pipeline : Pipeline core timer) {entry : RobEntry lastReg}
    (found : timer.entryAt 0 = some entry) (done : entry.done ≤ timer.now) :
    Pipeline core timer.pop := by
  have positive := pipeline.numInRob_pos found done
  have samePopped : timer.pop.popped = timer.popped + 1 := rfl
  have sameNumber : timer.pop.numInRob = timer.numInRob - 1 := rfl
  constructor
  case base => exact pipeline.base.commit found done
  case window => exact (Nat.sub_le _ _).trans pipeline.window
  case inside =>
    have inside := pipeline.inside
    change timer.pop.popped + timer.pop.numInRob ≤ timer.entries.length
    omega
  case dispatched =>
    intro n other foundOther inWindow
    exact pipeline.dispatched foundOther (by omega)
  case committed =>
    intro n other foundOther early
    by_cases front : n = timer.popped
    · rw [front] at foundOther
      have same := foundOther.symm.trans found
      cases same
      exact done
    · exact pipeline.committed foundOther (by omega)
  case used => exact pipeline.used
  case stations => exact pipeline.stations
  case timed => exact pipeline.timed
  case addresses => exact pipeline.addresses

theorem since_pop (pipeline : Pipeline core timer) {entry : RobEntry lastReg}
    (found : timer.entryAt 0 = some entry) (done : entry.done ≤ timer.now) :
    Since core.period timer timer.pop where
  now := rfl
  entries := Library.Pointwise.refl (fun _ other => Advances.refl other) _
  popped := Nat.le_succ _
  committed := by
    intro n low high
    have high : n < timer.popped + 1 := high
    have front : n = timer.popped := by omega
    obtain ⟨i, issued, earlier⟩ := (pipeline.timed found).issued_of_done done
    rw [front]
    exact ⟨entry, i, found, issued, earlier⟩

theorem tick (pipeline : Pipeline core timer) {time : Nat}
    (later : timer.now ≤ time) : Pipeline core { timer with now := time } where
  base := pipeline.base.tick later
  window := pipeline.window
  inside := pipeline.inside
  dispatched := pipeline.dispatched
  committed found early :=
    (pipeline.committed found early).trans (WithTop.coe_le_coe.mpr later)
  used := pipeline.used
  stations := pipeline.stations
  timed found := (pipeline.timed found).mono later
  addresses := pipeline.addresses

end Pipeline

end ChipletSniper.Rob
