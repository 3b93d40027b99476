import ChipletSniper.Interval.Windows
import ChipletSniper.Rob.RobInsertion

/-!
# The resolution time of a branch

The entry of a number lies at that number modulo the size of the array. In
every state that the windows can reach the loop over the old window is a sweep
over a graph without cycles.
-/

namespace ChipletSniper.Interval

open Library Rob Function

namespace Windows

variable {lastReg : Nat}

/-! ## Where the entries are -/

/-- The number of the micro-operation to dispatch. -/
def headNumber (windows : Windows lastReg) : Nat :=
  windows.nextSequenceNumber - windows.windowLength

/-- The number of the oldest micro-operation. -/
def lowestNumber (windows : Windows lastReg) : Nat :=
  windows.headNumber - windows.oldWindowLength

theorem eq_of_mod_eq {first second size : Nat}
    (same : first % size = second % size) (ordered : first ≤ second)
    (near : second < first + size) : first = second := by
  have divides := Nat.dvd_of_mod_eq_zero
    (Nat.sub_mod_eq_zero_of_mod_eq same.symm)
  have := Nat.eq_zero_of_dvd_of_lt divides (by omega)
  omega

/-- What holds of the windows between any two calls. -/
structure Valid (windows : Windows lastReg) : Prop where
  lengthLe : windows.windowLength ≤ windows.windowSize
  oldLengthLe : windows.oldWindowLength ≤ windows.windowSize
  enough : windows.windowLength + windows.oldWindowLength ≤
    windows.nextSequenceNumber
  tail : windows.windowTail =
    windows.nextSequenceNumber % windows.doubleWindowSize
  head : windows.windowHead = windows.headNumber % windows.doubleWindowSize
  oldHead : windows.oldWindowHead =
    windows.lowestNumber % windows.doubleWindowSize
  stored : ∀ number : Nat, number < windows.nextSequenceNumber →
    windows.nextSequenceNumber ≤ number + windows.doubleWindowSize →
      ∃ uop : DynamicMicroOp lastReg,
        windows.doubleWindow (number % windows.doubleWindowSize) = some uop ∧
          uop.sequenceNumber = number
  empty : ∀ index, windows.execTimeMap index = 0

theorem valid_start (windowSize : Nat) :
    Valid (start windowSize : Windows lastReg) where
  lengthLe := Nat.zero_le _
  oldLengthLe := Nat.zero_le _
  enough := Nat.le_refl _
  tail := (Nat.zero_mod _).symm
  head := (Nat.zero_mod _).symm
  oldHead := (Nat.zero_mod _).symm
  stored := fun _ before _ => absurd before (Nat.not_lt_zero _)
  empty := fun _ => rfl

theorem valid_clear (windows : Windows lastReg) : Valid windows.clear where
  lengthLe := Nat.zero_le _
  oldLengthLe := Nat.zero_le _
  enough := Nat.le_refl _
  tail := (Nat.zero_mod _).symm
  head := (Nat.zero_mod _).symm
  oldHead := (Nat.zero_mod _).symm
  stored := fun _ before _ => absurd before (Nat.not_lt_zero _)
  empty := fun _ => rfl

variable {windows next : Windows lastReg}

theorem Valid.clearOldWindow (valid : Valid windows) :
    Valid windows.clearOldWindow where
  lengthLe := valid.lengthLe
  oldLengthLe := Nat.zero_le _
  enough := (Nat.le_add_right _ _).trans valid.enough
  tail := valid.tail
  head := valid.head
  oldHead := valid.head
  stored := valid.stored
  empty := valid.empty

theorem Valid.setExecLatency (valid : Valid windows) (index latency : Nat) :
    Valid (windows.setExecLatency index latency) where
  lengthLe := valid.lengthLe
  oldLengthLe := valid.oldLengthLe
  enough := valid.enough
  tail := valid.tail
  head := valid.head
  oldHead := valid.oldHead
  empty := valid.empty
  stored := by
    intro number before recent
    obtain ⟨uop, found, same⟩ := valid.stored _ before recent
    by_cases here : number % windows.doubleWindowSize = index
    · refine ⟨{ uop with execLatency := latency }, ?_, same⟩
      change update windows.doubleWindow index _
        (number % windows.doubleWindowSize) = _
      rw [here] at found ⊢
      rw [update_self, found]
      rfl
    · exact ⟨uop, (update_of_ne here _ _).trans found, same⟩

theorem Valid.incrementIndex {number index : Nat}
    (place : index = number % windows.doubleWindowSize) :
    windows.incrementIndex index = (number + 1) % windows.doubleWindowSize := by
  rw [Windows.incrementIndex, place, Nat.mod_add_mod]

theorem Valid.shrinkOldWindow (valid : Valid windows)
    (nonempty : windows.windowLength ≠ 0) :
    Valid windows.shrinkOldWindow ∧
      windows.shrinkOldWindow.oldWindowLength < windows.windowSize := by
  have full := valid.lengthLe
  by_cases reached : windows.oldWindowLength = windows.windowSize
  · rw [Windows.shrinkOldWindow, if_pos reached]
    have enough := valid.enough
    refine ⟨⟨valid.lengthLe, ?_, ?_, valid.tail, valid.head, ?_, valid.stored,
      valid.empty⟩, ?_⟩
    · exact (Nat.sub_le _ _).trans valid.oldLengthLe
    · change windows.windowLength + (windows.oldWindowLength - 1) ≤
        windows.nextSequenceNumber
      omega
    · change windows.incrementIndex windows.oldWindowHead =
        (windows.headNumber - (windows.oldWindowLength - 1)) %
          windows.doubleWindowSize
      rw [Valid.incrementIndex valid.oldHead, lowestNumber, headNumber]
      congr 1
      omega
    · change windows.oldWindowLength - 1 < windows.windowSize
      omega
  · rw [Windows.shrinkOldWindow, if_neg reached]
    exact ⟨valid, lt_of_le_of_ne valid.oldLengthLe reached⟩

theorem Valid.moveHead (valid : Valid windows)
    (nonempty : windows.windowLength ≠ 0)
    (room : windows.oldWindowLength < windows.windowSize) :
    Valid windows.moveHead := by
  have enough := valid.enough
  have moved : windows.moveHead.headNumber = windows.headNumber + 1 := by
    change windows.nextSequenceNumber - (windows.windowLength - 1) =
      windows.nextSequenceNumber - windows.windowLength + 1
    omega
  refine ⟨?_, room, ?_, valid.tail, ?_, ?_, valid.stored, valid.empty⟩
  · exact (Nat.sub_le _ _).trans valid.lengthLe
  · change windows.windowLength - 1 + (windows.oldWindowLength + 1) ≤
      windows.nextSequenceNumber
    omega
  · rw [moved]
    exact Valid.incrementIndex valid.head
  · rw [lowestNumber, moved]
    change windows.oldWindowHead =
      (windows.headNumber + 1 - (windows.oldWindowLength + 1)) %
        windows.doubleWindowSize
    rw [Nat.add_sub_add_right]
    exact valid.oldHead

theorem Valid.dispatchInstruction (valid : Valid windows)
    (nonempty : windows.windowLength ≠ 0) :
    Valid windows.dispatchInstruction := by
  obtain ⟨shrunk, room⟩ := valid.shrinkOldWindow nonempty
  have kept : windows.shrinkOldWindow.windowLength = windows.windowLength ∧
      windows.shrinkOldWindow.windowSize = windows.windowSize := by
    unfold Windows.shrinkOldWindow
    split
    · exact ⟨rfl, rfl⟩
    · exact ⟨rfl, rfl⟩
  refine shrunk.moveHead ?_ ?_
  · rw [kept.1]
    exact nonempty
  · rw [kept.2]
    exact room

/-- The tables change nothing but the dependencies. -/
theorem extended_of_setDependencies {tables after : Dependencies lastReg}
    {uop tracked : DynamicMicroOp lastReg} {lowest : Nat}
    (run : tables.setDependencies ⟨uop, lowest⟩ = .ok (after, tracked)) :
    Extended uop tracked := by
  obtain ⟨⟨registers, read⟩, registerRun, run⟩ := bind_eq_ok.mp run
  obtain ⟨⟨memory, result⟩, memoryRun, run⟩ := bind_eq_ok.mp run
  cases run
  obtain ⟨⟨table, added⟩, sources, registerRun⟩ := bind_eq_ok.mp registerRun
  cases registerRun
  refine (addSources_ok sources).trans ?_
  unfold MemoryDependencies.setDependencies at memoryRun
  dsimp only at memoryRun
  split at memoryRun
  · obtain ⟨found, addStore, memoryRun⟩ := bind_eq_ok.mp memoryRun
    obtain ⟨last, addMembar, memoryRun⟩ := bind_eq_ok.mp memoryRun
    cases memoryRun
    exact (Extended.of_addProducer addStore).trans
      (Extended.of_addProducer addMembar)
  · split at memoryRun
    · obtain ⟨grown, _, memoryRun⟩ := bind_eq_ok.mp memoryRun
      obtain ⟨last, addMembar, memoryRun⟩ := bind_eq_ok.mp memoryRun
      cases memoryRun
      exact Extended.of_addProducer addMembar
    · split at memoryRun
      · obtain ⟨last, addMembar, memoryRun⟩ := bind_eq_ok.mp memoryRun
        cases memoryRun
        exact Extended.of_addProducer addMembar
      · cases memoryRun
        exact Extended.refl _

/-- What `add` does. -/
theorem add_ok {microOp : DynamicMicroOp lastReg}
    (run : windows.add microOp = .ok next) :
    windows.windowLength ≠ windows.windowSize ∧
      ∃ (uop tracked : DynamicMicroOp lastReg) (tables : Dependencies lastReg),
        tracked.sequenceNumber = windows.nextSequenceNumber ∧
          next =
            (windows.store uop).settle windows.windowTail tables tracked := by
  unfold add at run
  split at run
  next => cases run
  next notFull =>
    split at run
    next =>
      refine ⟨fun full => notFull (decide_eq_true full), ?_⟩
      obtain ⟨lowest, _, run⟩ := bind_eq_ok.mp run
      obtain ⟨⟨tables, tracked⟩, mapped, run⟩ := bind_eq_ok.mp run
      cases run
      refine ⟨_, tracked, tables, ?_, rfl⟩
      have depends := mapError_eq_ok.mp mapped
      exact (extended_of_setDependencies depends).same.sequenceNumber
    next => cases run

theorem Valid.add (valid : Valid windows) {microOp : DynamicMicroOp lastReg}
    (run : windows.add microOp = .ok next) : Valid next := by
  obtain ⟨notFull, uop, tracked, tables, number, rfl⟩ := add_ok run
  have room : windows.windowLength < windows.windowSize :=
    lt_of_le_of_ne valid.lengthLe notFull
  have enough := valid.enough
  have head : ((windows.store uop).settle windows.windowTail tables
      tracked).headNumber = windows.headNumber := by
    change windows.nextSequenceNumber + 1 - (windows.windowLength + 1) = _
    exact Nat.add_sub_add_right _ _ _
  refine ⟨room, valid.oldLengthLe, ?_, ?_, ?_, ?_, ?_, valid.empty⟩
  · change windows.windowLength + 1 + windows.oldWindowLength ≤
      windows.nextSequenceNumber + 1
    omega
  · exact Valid.incrementIndex valid.tail
  · rw [head]
    exact valid.head
  · rw [lowestNumber, head]
    exact valid.oldHead
  · intro other before recent
    have before : other < windows.nextSequenceNumber + 1 := before
    have recent : windows.nextSequenceNumber + 1 ≤
        other + windows.doubleWindowSize := recent
    by_cases new : other = windows.nextSequenceNumber
    · refine ⟨tracked, ?_, number.trans new.symm⟩
      change update _ windows.windowTail _
        (other % windows.doubleWindowSize) = _
      rw [new, ← valid.tail]
      exact update_self _ _ _
    · obtain ⟨stored, found, same⟩ :=
        valid.stored other (by omega) (by omega)
      have apart : other % windows.doubleWindowSize ≠ windows.windowTail := by
        rw [valid.tail]
        exact fun same => new (eq_of_mod_eq same (by omega) (by omega))
      refine ⟨stored, ?_, same⟩
      change update (update windows.doubleWindow _ _) _ _
        (other % windows.doubleWindowSize) = _
      rw [update_of_ne apart, update_of_ne apart]
      exact found

/-! ## Looking entries up -/

theorem Valid.size_pos (valid : Valid windows)
    (nonempty : windows.windowLength ≠ 0) : 0 < windows.doubleWindowSize := by
  have length := valid.lengthLe
  change 0 < 2 * windows.windowSize
  omega

theorem Valid.entry (valid : Valid windows) (number : Nat)
    (size : 0 < windows.doubleWindowSize)
    (before : number < windows.nextSequenceNumber)
    (recent : windows.nextSequenceNumber ≤ number + windows.doubleWindowSize) :
    ∃ uop, windows.doubleWindow (number % windows.doubleWindowSize) = some uop ∧
      uop.sequenceNumber = number ∧
      windows.getInstructionByIndex (number % windows.doubleWindowSize) =
        .ok ⟨number % windows.doubleWindowSize, uop⟩ := by
  obtain ⟨uop, found, same⟩ := valid.stored _ before recent
  refine ⟨uop, found, same, ?_⟩
  rw [getInstructionByIndex, if_pos (Nat.mod_lt _ size), found]

/-- The two roundings make a remainder that is not negative. -/
theorem tmod_add_tmod (value : Int) {size : Int} (positive : 0 < size) :
    (value.tmod size + size).tmod size = value % size := by
  have least : 0 ≤ value.tmod size + size := by
    have := Int.lt_tmod_of_pos value positive
    omega
  rw [Int.tmod_eq_emod_of_nonneg least, Int.add_emod_right, Int.tmod_eq_emod]
  split
  · exact (congrArg (· % size) (Int.sub_zero _)).trans (Int.emod_emod _ _)
  · rw [Int.natAbs_of_nonneg (by omega), Int.sub_emod_right, Int.emod_emod]

theorem windowIndex_sub (size : 0 < windows.doubleWindowSize)
    {number distance : Nat} (reach : distance ≤ number) :
    windows.windowIndex
        ((number % windows.doubleWindowSize : Nat) - (distance : Int)) =
      (number - distance) % windows.doubleWindowSize := by
  have positive : (0 : Int) < windows.doubleWindowSize := Int.ofNat_lt.mpr size
  rw [windowIndex, tmod_add_tmod _ positive, Int.natCast_emod,
    Int.emod_sub_emod, ← Int.ofNat_sub reach]
  rfl

theorem backward_eq (size : 0 < windows.doubleWindowSize)
    {count number : Nat} (reach : count ≤ number) :
    windows.backward count
        ((number % windows.doubleWindowSize : Nat) - (1 : Int)) =
      (List.range count).map fun distance =>
        (number - 1 - distance) % windows.doubleWindowSize := by
  induction count generalizing number with
  | zero => rfl
  | succ count ih =>
      have index : windows.windowIndex
          ((number % windows.doubleWindowSize : Nat) - (1 : Int)) =
            (number - 1) % windows.doubleWindowSize :=
        windowIndex_sub size (Nat.one_le_iff_ne_zero.mpr (by omega))
      rw [backward, index, ih (by omega),
        List.range_succ_eq_map, List.map_cons, List.map_map]
      congr 1
      refine List.map_congr_left fun distance _ => ?_
      simp only [comp_apply]
      congr 1
      omega

theorem Valid.oldWindow_eq (valid : Valid windows)
    (nonempty : windows.windowLength ≠ 0) :
    windows.oldWindow =
      (List.range windows.oldWindowLength).map fun distance =>
        (windows.headNumber - 1 - distance) % windows.doubleWindowSize := by
  have enough := valid.enough
  rw [oldWindow, valid.head]
  refine backward_eq (valid.size_pos nonempty) ?_
  change windows.oldWindowLength ≤
    windows.nextSequenceNumber - windows.windowLength
  omega

theorem Valid.mem_oldWindow (valid : Valid windows)
    (nonempty : windows.windowLength ≠ 0) {index : Nat} :
    index ∈ windows.oldWindow ↔
      ∃ number, windows.lowestNumber ≤ number ∧ number < windows.headNumber ∧
        number % windows.doubleWindowSize = index := by
  have enough := valid.enough
  have lowest : windows.lowestNumber =
      windows.headNumber - windows.oldWindowLength := rfl
  have head : windows.headNumber =
      windows.nextSequenceNumber - windows.windowLength := rfl
  rw [valid.oldWindow_eq nonempty, List.mem_map]
  constructor
  · rintro ⟨distance, inside, rfl⟩
    have := List.mem_range.mp inside
    exact ⟨windows.headNumber - 1 - distance, by omega, by omega, rfl⟩
  · rintro ⟨number, least, before, rfl⟩
    refine ⟨windows.headNumber - 1 - number, List.mem_range.mpr (by omega), ?_⟩
    congr 1
    omega

/-- The entries of the old window, by their numbers. -/
theorem Valid.old_entry (valid : Valid windows)
    (nonempty : windows.windowLength ≠ 0) {number : Nat}
    (least : windows.lowestNumber ≤ number)
    (before : number < windows.headNumber) :
    ∃ uop, windows.doubleWindow (number % windows.doubleWindowSize) = some uop ∧
      uop.sequenceNumber = number ∧
      windows.getInstructionByIndex (number % windows.doubleWindowSize) =
        .ok ⟨number % windows.doubleWindowSize, uop⟩ := by
  have lowest : windows.lowestNumber =
      windows.headNumber - windows.oldWindowLength := rfl
  have head : windows.headNumber =
      windows.nextSequenceNumber - windows.windowLength := rfl
  have size : windows.doubleWindowSize = 2 * windows.windowSize := rfl
  have length := valid.lengthLe
  have oldLength := valid.oldLengthLe
  exact valid.entry number (valid.size_pos nonempty) (by omega) (by omega)

theorem Valid.oldProducer_eq (valid : Valid windows)
    (nonempty : windows.windowLength ≠ 0) (number : Nat) :
    windows.oldProducer number =
      if windows.lowestNumber ≤ number ∧ number < windows.headNumber then
        some (number % windows.doubleWindowSize)
      else
        none := by
  have unique : ∀ index, windows.oldProducer number = some index →
      windows.lowestNumber ≤ number ∧ number < windows.headNumber ∧
        number % windows.doubleWindowSize = index := by
    intro index found
    obtain ⟨other, least, before, rfl⟩ :=
      (valid.mem_oldWindow nonempty).mp (List.mem_of_find?_eq_some found)
    have matching := List.find?_some found
    obtain ⟨uop, stored, same, -⟩ := valid.old_entry nonempty least before
    rw [stored, Option.any_some, decide_eq_true_eq, same] at matching
    subst matching
    exact ⟨least, before, rfl⟩
  split
  next inside =>
    obtain ⟨uop, stored, same, -⟩ :=
      valid.old_entry nonempty inside.1 inside.2
    have found : (windows.oldProducer number).isSome := by
      refine List.find?_isSome.mpr ⟨number % windows.doubleWindowSize,
        (valid.mem_oldWindow nonempty).mpr ⟨number, inside.1, inside.2, rfl⟩,
        ?_⟩
      rw [stored, Option.any_some, same]
      exact decide_eq_true rfl
    obtain ⟨index, isIndex⟩ := Option.isSome_iff_exists.mp found
    obtain ⟨-, -, rfl⟩ := unique index isIndex
    exact isIndex
  next outside =>
    cases found : windows.oldProducer number with
    | none => rfl
    | some index =>
        obtain ⟨least, before, -⟩ := unique index found
        exact absurd ⟨least, before⟩ outside

theorem Valid.oldWindowContains_eq (valid : Valid windows)
    (nonempty : windows.windowLength ≠ 0) (started : 0 < windows.headNumber)
    (number : Nat) :
    windows.oldWindowContains number =
      .ok (windows.lowestNumber ≤ number ∧ number < windows.headNumber) := by
  have lowest : windows.lowestNumber =
      windows.headNumber - windows.oldWindowLength := rfl
  have head : windows.headNumber =
      windows.nextSequenceNumber - windows.windowLength := rfl
  have size : windows.doubleWindowSize = 2 * windows.windowSize := rfl
  have length := valid.lengthLe
  have oldLength := valid.oldLengthLe
  have positive := valid.size_pos nonempty
  obtain ⟨oldest, -, oldestNumber, oldestEntry⟩ :=
    valid.entry windows.lowestNumber positive (by omega) (by omega)
  obtain ⟨newest, -, newestNumber, newestEntry⟩ :=
    valid.entry (windows.headNumber - 1) positive (by omega)
      (by omega)
  have previous : windows.decrementIndex windows.windowHead =
      (windows.headNumber - 1) % windows.doubleWindowSize := by
    rw [decrementIndex, valid.head, Nat.add_sub_assoc positive,
      Nat.mod_add_mod, ← Nat.add_sub_assoc positive,
      Nat.sub_add_comm started, Nat.add_mod_right]
  rw [oldWindowContains, valid.oldHead, oldestEntry, previous, newestEntry]
  change Except.ok (decide (oldest.sequenceNumber ≤ number ∧
    number ≤ newest.sequenceNumber)) = _
  rw [oldestNumber, newestNumber]
  congr 2
  rw [eq_iff_iff]
  omega

theorem Valid.getInstruction_eq (valid : Valid windows)
    (nonempty : windows.windowLength ≠ 0) {number : Nat}
    (least : windows.lowestNumber ≤ number)
    (before : number < windows.headNumber) :
    ∃ uop, windows.doubleWindow (number % windows.doubleWindowSize) = some uop ∧
      windows.getInstruction number =
        .ok ⟨number % windows.doubleWindowSize, uop⟩ := by
  have head : windows.headNumber =
      windows.nextSequenceNumber - windows.windowLength := rfl
  have size : windows.doubleWindowSize = 2 * windows.windowSize := rfl
  have length := valid.lengthLe
  have enough := valid.enough
  have positive := valid.size_pos nonempty
  obtain ⟨first, -, firstNumber, firstEntry⟩ :=
    valid.entry windows.headNumber positive (by omega) (by omega)
  obtain ⟨uop, stored, same, entry⟩ := valid.old_entry nonempty least before
  have distance : (windows.headNumber : Int) - number =
      ((windows.headNumber - number : Nat) : Int) := by
    omega
  have index : windows.windowIndex
      ((windows.headNumber % windows.doubleWindowSize : Nat) -
        ((windows.headNumber : Int) - number)) =
          number % windows.doubleWindowSize := by
    rw [distance, windowIndex_sub positive (Nat.sub_le _ _)]
    congr 1
    omega
  refine ⟨uop, stored, ?_⟩
  rw [getInstruction, valid.head, firstEntry]
  change (windows.getInstructionByIndex
    (windows.windowIndex
      ((windows.headNumber % windows.doubleWindowSize : Nat) -
        ((first.sequenceNumber : Int) - number))) >>= _) = _
  rw [firstNumber, index, entry]
  exact if_pos same

/-! ## The loops -/

/-- One dependency on an earlier number: the entry of the producer is updated
if the old window has it. -/
theorem Valid.visitProducer_eq (valid : Valid windows)
    (nonempty : windows.windowLength ≠ 0)
    {update : (Nat → Nat) → WindowEntry lastReg → Nat → Nat}
    (change : (Nat → Nat) → Nat → Nat → Nat)
    (agree : ∀ {times index uop}, windows.doubleWindow index = some uop →
      update times ⟨index, uop⟩ = change times index)
    {number : Nat} (before : number < windows.headNumber) (times : Nat → Nat) :
    windows.visitProducer update times number =
      .ok ((windows.oldProducer number).elim times (change times)) := by
  rw [visitProducer, valid.oldWindowContains_eq nonempty (by omega),
    valid.oldProducer_eq nonempty]
  by_cases least : windows.lowestNumber ≤ number
  · obtain ⟨uop, stored, found⟩ :=
      valid.getInstruction_eq nonempty least before
    rw [if_pos ⟨least, before⟩, decide_eq_true ⟨least, before⟩, Option.elim]
    change (windows.getInstruction number >>= fun producer =>
      pure (update times producer)) = _
    rw [found]
    exact congrArg Except.ok (agree stored)
  · rw [if_neg fun both => least both.1,
      decide_eq_false fun both => least both.1]
    rfl

theorem Valid.foldlM_visitProducer (valid : Valid windows)
    (nonempty : windows.windowLength ≠ 0)
    {update : (Nat → Nat) → WindowEntry lastReg → Nat → Nat}
    (change : (Nat → Nat) → Nat → Nat → Nat)
    (agree : ∀ {times index uop}, windows.doubleWindow index = some uop →
      update times ⟨index, uop⟩ = change times index)
    {numbers : List Nat}
    (before : ∀ number ∈ numbers, number < windows.headNumber)
    (times : Nat → Nat) :
    numbers.foldlM (windows.visitProducer update) times =
      .ok ((numbers.filterMap windows.oldProducer).foldl change times) := by
  induction numbers generalizing times with
  | nil => rfl
  | cons number rest ih =>
      rw [List.foldlM_cons, valid.visitProducer_eq nonempty change agree
        (before number List.mem_cons_self)]
      change rest.foldlM _ _ = _
      rw [ih fun other member =>
        before other (List.mem_cons_of_mem number member)]
      cases producer : windows.oldProducer number with
      | none => rw [List.filterMap_cons_none producer, Option.elim]
      | some index => rw [List.filterMap_cons_some producer, Option.elim,
          List.foldl_cons]

theorem execLatencyAt_eq {index : Nat} {uop : DynamicMicroOp lastReg}
    (stored : windows.doubleWindow index = some uop) :
    windows.execLatencyAt index = uop.execLatency := by
  rw [execLatencyAt, stored]

theorem producersAt_eq {index : Nat} {uop : DynamicMicroOp lastReg}
    (stored : windows.doubleWindow index = some uop) :
    windows.producersAt index = windows.producers uop := by
  rw [producersAt, stored]

/-- A turn of the loop is a visit of the sweep. -/
theorem Valid.resolve_eq (valid : Valid windows)
    (nonempty : windows.windowLength ≠ 0)
    (earlier : windows.DependenciesEarlier)
    {index : Nat} (member : index ∈ windows.oldWindow) (state : Sweep Nat) :
    windows.resolve state index =
      .ok (state.visit (2 ^ 32) windows.execLatencyAt windows.producersAt
        index) := by
  obtain ⟨number, least, before, rfl⟩ :=
    (valid.mem_oldWindow nonempty).mp member
  obtain ⟨uop, stored, same, entry⟩ := valid.old_entry nonempty least before
  rw [resolve, Sweep.visit]
  split
  · rfl
  · rw [entry]
    change (uop.dependencyList.foldlM (windows.visitProducer (markProducer
      (number % windows.doubleWindowSize))) state.times >>= _) = _
    rw [valid.foldlM_visitProducer nonempty
      (Sweep.relax (2 ^ 32) windows.execLatencyAt
        (number % windows.doubleWindowSize)), producersAt_eq stored]
    · rfl
    · intro times index other found
      rw [markProducer, Sweep.relax, execLatencyAt_eq found]
    · intro dependency listed
      have := earlier.old member stored dependency listed
      omega

theorem Valid.foldlM_resolve (valid : Valid windows)
    (nonempty : windows.windowLength ≠ 0)
    (earlier : windows.DependenciesEarlier)
    {indices : List Nat} (inside : ∀ index ∈ indices, index ∈ windows.oldWindow)
    (state : Sweep Nat) :
    indices.foldlM windows.resolve state =
      .ok (indices.foldl (Sweep.visit (2 ^ 32) windows.execLatencyAt
        windows.producersAt) state) := by
  induction indices generalizing state with
  | nil => rfl
  | cons index rest ih =>
      rw [List.foldlM_cons, valid.resolve_eq nonempty earlier
        (inside index List.mem_cons_self)]
      exact ih
        (fun other member => inside other (List.mem_cons_of_mem index member)) _

theorem mem_oldWindow_of_producers {uop : DynamicMicroOp lastReg} {index : Nat}
    (produces : index ∈ windows.producers uop) :
    index ∈ windows.oldWindow := by
  obtain ⟨number, -, found⟩ := List.mem_filterMap.mp produces
  exact List.mem_of_find?_eq_some found

/-- Producers have earlier numbers. -/
theorem Valid.producer_earlier (valid : Valid windows)
    (nonempty : windows.windowLength ≠ 0)
    (earlier : windows.DependenciesEarlier)
    {number index : Nat} (least : windows.lowestNumber ≤ number)
    (before : number < windows.headNumber)
    (produces : index ∈
      windows.producersAt (number % windows.doubleWindowSize)) :
    ∃ producer, windows.lowestNumber ≤ producer ∧ producer < number ∧
      producer % windows.doubleWindowSize = index := by
  obtain ⟨uop, stored, same, -⟩ := valid.old_entry nonempty least before
  rw [producersAt_eq stored] at produces
  obtain ⟨producer, listed, found⟩ := List.mem_filterMap.mp produces
  have less := earlier.old
    ((valid.mem_oldWindow nonempty).mpr ⟨number, least, before, rfl⟩) stored
    producer listed
  rw [valid.oldProducer_eq nonempty] at found
  split at found
  next inside =>
    exact ⟨producer, inside.1, same ▸ less, Option.some_inj.mp found⟩
  next => cases found

/-- Two numbers of the old window with one index are equal. -/
theorem Valid.number_unique (valid : Valid windows)
    (nonempty : windows.windowLength ≠ 0) {first second : Nat}
    (firstLeast : windows.lowestNumber ≤ first)
    (firstBefore : first < windows.headNumber)
    (secondLeast : windows.lowestNumber ≤ second)
    (secondBefore : second < windows.headNumber)
    (same : first % windows.doubleWindowSize =
      second % windows.doubleWindowSize) : first = second := by
  have lowest : windows.lowestNumber =
      windows.headNumber - windows.oldWindowLength := rfl
  have size : windows.doubleWindowSize = 2 * windows.windowSize := rfl
  have positive := valid.size_pos nonempty
  have oldLength := valid.oldLengthLe
  rcases Nat.le_total first second with ordered | ordered
  · exact eq_of_mod_eq same ordered (by omega)
  · exact (eq_of_mod_eq same.symm ordered (by omega)).symm

/-- The order of the loop visits the consumers first. -/
theorem Valid.consumersFirst (valid : Valid windows)
    (nonempty : windows.windowLength ≠ 0)
    (earlier : windows.DependenciesEarlier) :
    ConsumersFirst windows.producersAt windows.oldWindow := by
  have lowest : windows.lowestNumber =
      windows.headNumber - windows.oldWindowLength := rfl
  have head : windows.headNumber =
      windows.nextSequenceNumber - windows.windowLength := rfl
  have enough := valid.enough
  refine ⟨?_, ?_, ?_, ?_⟩
  · rw [valid.oldWindow_eq nonempty]
    refine List.Nodup.map_on ?_ List.nodup_range
    intro first firstInside second secondInside same
    have := List.mem_range.mp firstInside
    have := List.mem_range.mp secondInside
    have := valid.number_unique nonempty (by omega) (by omega) (by omega)
      (by omega) same
    omega
  · rw [valid.oldWindow_eq nonempty, List.pairwise_map]
    refine List.Pairwise.imp_of_mem ?_ List.pairwise_lt_range
    intro newer older newerInside olderInside less produces
    have := List.mem_range.mp newerInside
    have := List.mem_range.mp olderInside
    obtain ⟨producer, least, before, same⟩ :=
      valid.producer_earlier nonempty earlier (by omega) (by omega) produces
    have := valid.number_unique nonempty least (by omega) (by omega) (by omega)
      same
    omega
  · intro index member produces
    obtain ⟨number, least, before, rfl⟩ :=
      (valid.mem_oldWindow nonempty).mp member
    obtain ⟨producer, producerLeast, less, same⟩ :=
      valid.producer_earlier nonempty earlier least before produces
    have := valid.number_unique nonempty producerLeast (by omega) least before
      same
    omega
  · intro index member producer produces
    obtain ⟨number, least, before, rfl⟩ :=
      (valid.mem_oldWindow nonempty).mp member
    obtain ⟨other, otherLeast, less, same⟩ :=
      valid.producer_earlier nonempty earlier least before produces
    exact (valid.mem_oldWindow nonempty).mpr
      ⟨other, otherLeast, by omega, same⟩

/-- The call succeeds, and is a sweep from the direct producers. -/
theorem Valid.calculate_eq (valid : Valid windows)
    (nonempty : windows.windowLength ≠ 0)
    (earlier : windows.DependenciesEarlier) :
    ∃ uop, windows.doubleWindow windows.windowHead = some uop ∧
      windows.calculateBranchResolutionLatency =
        .ok (toInt (windows.oldWindow.foldl (Sweep.visit (2 ^ 32)
          windows.execLatencyAt windows.producersAt)
          (Sweep.start (windows.producers uop) windows.execLatencyAt)).longest,
          windows) := by
  have head : windows.headNumber =
      windows.nextSequenceNumber - windows.windowLength := rfl
  have size : windows.doubleWindowSize = 2 * windows.windowSize := rfl
  have length := valid.lengthLe
  have enough := valid.enough
  have positive := valid.size_pos nonempty
  obtain ⟨uop, stored, same, entry⟩ :=
    valid.entry windows.headNumber positive (by omega) (by omega)
  rw [← valid.head] at stored entry
  refine ⟨uop, stored, ?_⟩
  have marked : ((windows.producers uop).foldl (fun times index =>
      update times index (windows.execLatencyAt index))
        windows.execTimeMap) =
      (Sweep.start (windows.producers uop) windows.execLatencyAt).times := by
    funext index
    rw [Sweep.foldl_mark, valid.empty]
    rfl
  have swept : (windows.oldWindow.foldl (Sweep.visit (2 ^ 32)
      windows.execLatencyAt windows.producersAt)
      (Sweep.start (windows.producers uop) windows.execLatencyAt)).times =
        fun _ => 0 :=
    Sweep.foldl_visit_times (valid.consumersFirst nonempty earlier)
      fun index outside => if_neg fun produces =>
        outside (mem_oldWindow_of_producers produces)
  have unchanged : windows.execTimeMap = fun _ => 0 :=
    funext valid.empty
  rw [calculateBranchResolutionLatency, getInstructionToDispatch, entry]
  change (uop.dependencyList.foldlM (windows.visitProducer markDirect)
    windows.execTimeMap >>= _) = _
  rw [valid.foldlM_visitProducer nonempty (fun times index =>
    update times index (windows.execLatencyAt index))]
  · change (windows.oldWindow.foldlM windows.resolve
      ⟨(windows.producers uop).foldl _ windows.execTimeMap, 0⟩ >>= _) = _
    rw [marked, valid.foldlM_resolve nonempty earlier fun _ member => member]
    refine congrArg (fun times => Except.ok (toInt _,
      { windows with execTimeMap := times })) (swept.trans unchanged.symm)
  · intro times index other found
    rw [markDirect, execLatencyAt_eq found]
  · intro number listed
    rw [← same]
    exact earlier.dispatched stored number listed

/-! ## Every run -/

theorem Valid.step (valid : Valid windows) (step : Step windows next) :
    Valid next := by
  cases step with
  | add microOp run => exact valid.add run
  | dispatchInstruction nonempty =>
      exact valid.dispatchInstruction fun empty =>
        nonempty (decide_eq_true empty)
  | clearOldWindow => exact valid.clearOldWindow
  | clear => exact valid_clear windows
  | setExecLatency index latency => exact valid.setExecLatency index latency
  | resolved nonempty earlier run =>
      obtain ⟨uop, -, result⟩ := valid.calculate_eq
        (fun empty => nonempty (decide_eq_true empty)) earlier
      rw [result] at run
      cases run
      exact valid

theorem Reachable.valid {windowSize : Nat}
    (reachable : Reachable windowSize windows) : Valid windows :=
  invariant_of_reflTransGen Valid Valid.step (valid_start windowSize) reachable

/-- The latencies of the old window are at least one. -/
def LatenciesPositive (windows : Windows lastReg) : Prop :=
  ∀ {index : Nat} {uop : DynamicMicroOp lastReg}, index ∈ windows.oldWindow →
    windows.doubleWindow index = some uop → 1 ≤ uop.execLatency

theorem toInt_of_lt {value : Nat} (small : value < 2 ^ 31) :
    toInt value = value :=
  if_pos small

/-- In every state that can be reached the call succeeds and leaves the map
as it has to be for the next one, and if all paths are shorter than what an
`int` can hold the result is the longest of them. -/
theorem branchResolutionLatency_longest {windowSize : Nat}
    (reachable : Reachable windowSize windows) (nonempty : ¬ windows.wIsEmpty)
    (earlier : windows.DependenciesEarlier)
    (positive : windows.LatenciesPositive) :
    ∃ (uop : DynamicMicroOp lastReg) (latency : Int) (next : Windows lastReg),
      windows.doubleWindow windows.windowHead = some uop ∧
        windows.calculateBranchResolutionLatency = .ok (latency, next) ∧
        (∀ index, windows.execTimeMap index = 0 ∧ next.execTimeMap index = 0) ∧
        ((∀ index total, PathTo (windows.producers uop) windows.producersAt
            windows.execLatencyAt index total → total < 2 ^ 31) →
          ∃ longest : Nat, latency = longest ∧
            IsLongest (windows.producers uop) windows.producersAt
              windows.execLatencyAt longest) := by
  have valid := reachable.valid
  have filled : windows.windowLength ≠ 0 := fun empty =>
    nonempty (decide_eq_true empty)
  obtain ⟨uop, stored, result⟩ := valid.calculate_eq filled earlier
  refine ⟨uop, _, windows, stored, result, fun index =>
    ⟨valid.empty index, valid.empty index⟩, fun short => ?_⟩
  have ordered := valid.consumersFirst filled earlier
  have inside : ∀ index ∈ windows.producers uop, index ∈ windows.oldWindow :=
    fun _ produces => mem_oldWindow_of_producers produces
  have someTime : ∀ index total, PathTo (windows.producers uop)
      windows.producersAt windows.execLatencyAt index total → 0 < total := by
    intro index total path
    have member := mem_of_pathTo ordered inside path
    obtain ⟨number, least, before, rfl⟩ :=
      (valid.mem_oldWindow filled).mp member
    obtain ⟨entry, found, -⟩ := valid.old_entry filled least before
    have weight := positive member found
    rw [← execLatencyAt_eq found] at weight
    cases path with
    | direct _ => exact weight
    | producer _ _ => omega
  have isLongest := Sweep.isLongest_foldl_visit ordered inside someTime
    fun index total path => Nat.lt_trans (m := 2 ^ 31) (k := 2 ^ 32)
      (short index total path) (by decide)
  refine ⟨_, toInt_of_lt ?_, isLongest⟩
  rcases isLongest.attained with none | ⟨index, path⟩
  · rw [none]
    decide
  · exact short index _ path

/-! ## Two producers -/

def lowReg : Fin 2 := ⟨0, Nat.two_pos⟩

def highReg : Fin 2 := ⟨1, Nat.one_lt_two⟩

/-- An execution that writes one register. -/
def chainOp (latency number : Nat) (sources : List (Fin 2))
    (dependencies : List Nat) (destination : Fin 2) : DynamicMicroOp 2 where
  microOp := {
    uopType := .execute
    sourceRegisters := sources
    destinationRegisters := [destination] }
  sequenceNumber := number
  dependencies := dependencies
  execLatency := latency

/-- A branch that reads both registers. -/
def chainBranch (dependencies : List Nat) : DynamicMicroOp 2 where
  microOp := {
    uopType := .execute, branch := true
    sourceRegisters := [lowReg, highReg] }
  sequenceNumber := 2
  dependencies := dependencies
  branchMispredicted := true

/-- The second producer reads what the first one writes, and the branch reads
what both write. -/
def branchThird : Windows 2 where
  windowSize := 3
  doubleWindow := update (update (update (update (update (update
    (fun _ => none)
      0 (chainOp 3 0 [] [] lowReg)) 0 (chainOp 3 0 [] [] lowReg))
      1 (chainOp 5 1 [lowReg] [] highReg))
      1 (chainOp 5 1 [lowReg] [0] highReg))
      2 (chainBranch [])) 2 (chainBranch [0, 1])
  execTimeMap := fun _ => 0
  nextSequenceNumber := 3
  dependencies := {
    registers := ⟨update (update (fun _ => none)
      lowReg (some 0)) highReg (some 1)⟩
    memory := MemoryDependencies.start }
  windowHead := 2
  windowTail := 3
  oldWindowHead := 0
  windowLength := 1
  oldWindowLength := 2

theorem reachable_branchThird : Reachable 3 branchThird := by
  have first : Step (start 3) _ := .add (chainOp 3 0 [] [] lowReg) rfl
  have second : Reachable 3 _ :=
    .tail (.single first) (.dispatchInstruction Bool.false_ne_true)
  have third : Reachable 3 _ :=
    .tail (.tail second (.add (chainOp 5 1 [lowReg] [] highReg) rfl))
      (.dispatchInstruction Bool.false_ne_true)
  exact .tail third (.add (chainBranch []) rfl)

theorem oldWindow_branchThird : branchThird.oldWindow = [1, 0] := by
  simp [oldWindow, backward, windowIndex, doubleWindowSize, branchThird]

theorem dependenciesEarlier_branchThird :
    branchThird.DependenciesEarlier where
  dispatched := by
    intro uop stored
    cases stored
    decide
  old := by
    intro index uop member stored number listed
    rw [oldWindow_branchThird] at member
    simp only [List.mem_cons, List.not_mem_nil, or_false] at member
    rcases member with rfl | rfl
    · obtain rfl : chainOp 5 1 [lowReg] [0] highReg = uop :=
        Option.some_inj.mp stored
      obtain rfl := List.mem_singleton.mp listed
      decide
    · obtain rfl : chainOp 3 0 [] [] lowReg = uop := Option.some_inj.mp stored
      cases listed

theorem latenciesPositive_branchThird : branchThird.LatenciesPositive := by
  intro index uop member stored
  rw [oldWindow_branchThird] at member
  simp only [List.mem_cons, List.not_mem_nil, or_false] at member
  rcases member with rfl | rfl
  · obtain rfl : chainOp 5 1 [lowReg] [0] highReg = uop :=
      Option.some_inj.mp stored
    decide
  · obtain rfl : chainOp 3 0 [] [] lowReg = uop := Option.some_inj.mp stored
    decide

/-- The paths have the lengths 3, 5 and 8. -/
theorem total_le_branchThird {index total : Nat}
    (path : PathTo (branchThird.producers (chainBranch [0, 1]))
      branchThird.producersAt branchThird.execLatencyAt index total) :
    (index = 0 ∧ total ≤ 8) ∨ (index = 1 ∧ total = 5) := by
  induction path with
  | direct member =>
      have listed : _ ∈ [0, 1] := member
      simp only [List.mem_cons, List.not_mem_nil, or_false] at listed
      rcases listed with rfl | rfl
      · exact .inl ⟨rfl, by decide⟩
      · exact .inr ⟨rfl, rfl⟩
  | producer _ produces ih =>
      rcases ih with ⟨rfl, -⟩ | ⟨rfl, rfl⟩
      · cases produces
      · obtain rfl := List.mem_singleton.mp produces
        exact .inl ⟨rfl, by decide⟩

/-- The longest path goes through both producers. -/
theorem branchResolutionLatency_branchThird :
    ∃ next, branchThird.calculateBranchResolutionLatency = .ok (8, next) ∧
      (∀ index, branchThird.execTimeMap index = 0 ∧
        next.execTimeMap index = 0) ∧
      IsLongest (branchThird.producers (chainBranch [0, 1]))
        branchThird.producersAt branchThird.execLatencyAt 8 := by
  obtain ⟨uop, latency, next, stored, run, empty, longest⟩ :=
    branchResolutionLatency_longest reachable_branchThird (by decide)
      dependenciesEarlier_branchThird latenciesPositive_branchThird
  obtain rfl : chainBranch [0, 1] = uop := Option.some_inj.mp stored
  have eight : ∃ after,
      branchThird.calculateBranchResolutionLatency = .ok (8, after) :=
    ⟨_, rfl⟩
  obtain ⟨after, found⟩ := eight
  rw [found] at run
  cases run
  obtain ⟨value, same, isLongest⟩ := longest fun index total path => by
    rcases total_le_branchThird path with ⟨-, least⟩ | ⟨-, rfl⟩ <;> omega
  obtain rfl : 8 = value := Int.ofNat_inj.mp same
  exact ⟨_, found, empty, isLongest⟩

/-! ## One producer -/

def producerOp (latency : Nat) : DynamicMicroOp 1 where
  microOp := { uopType := .execute, destinationRegisters := [0] }
  sequenceNumber := 0
  execLatency := latency

/-- A branch that was not predicted. -/
def branchOp : DynamicMicroOp 1 where
  microOp := { uopType := .execute, branch := true, sourceRegisters := [0] }
  sequenceNumber := 1
  dependencies := [0]
  branchMispredicted := true

/-- The producer was dispatched, the branch comes next. -/
def branchNext (latency : Nat) : Windows 1 where
  windowSize := 2
  doubleWindow := update (update (update
    (update (fun _ => none) 0 (producerOp latency)) 0
      (producerOp latency)) 1 (some { branchOp with dependencies := [] })) 1
        branchOp
  execTimeMap := fun _ => 0
  nextSequenceNumber := 2
  dependencies := {
    registers := ⟨update (fun _ => none) 0 (some 0)⟩
    memory := MemoryDependencies.start }
  windowHead := 1
  windowTail := 2
  oldWindowHead := 0
  windowLength := 1
  oldWindowLength := 1

theorem reachable_branchNext (latency : Nat) :
    Reachable 2 (branchNext latency) := by
  have first : Step (start 2) _ :=
    .add (producerOp latency) rfl
  refine .tail (.tail (.single first)
    (.dispatchInstruction Bool.false_ne_true)) ?_
  exact .add { branchOp with dependencies := [] } rfl

theorem oldWindow_branchNext (latency : Nat) :
    (branchNext latency).oldWindow = [0] := by
  simp [oldWindow, backward, windowIndex, doubleWindowSize, branchNext]

theorem dependenciesEarlier_branchNext (latency : Nat) :
    (branchNext latency).DependenciesEarlier where
  dispatched := by
    intro uop stored
    cases stored
    decide
  old := by
    intro index uop member stored
    rw [oldWindow_branchNext] at member
    obtain rfl := List.mem_singleton.mp member
    obtain rfl : producerOp latency = uop := Option.some_inj.mp stored
    intro number listed
    cases listed

theorem latenciesPositive_branchNext {latency : Nat} (positive : 1 ≤ latency) :
    (branchNext latency).LatenciesPositive := by
  intro index uop member stored
  rw [oldWindow_branchNext] at member
  obtain rfl := List.mem_singleton.mp member
  obtain rfl : producerOp latency = uop := Option.some_inj.mp stored
  exact positive

/-- A latency that an `int` cannot hold is returned as a negative number. -/
theorem branchResolutionLatency_negative :
    ∃ windows : Windows 1, Reachable 2 windows ∧ ¬ windows.wIsEmpty ∧
      windows.DependenciesEarlier ∧ windows.LatenciesPositive ∧
      ∃ uop, windows.doubleWindow windows.windowHead = some uop ∧
        (∃ next, windows.calculateBranchResolutionLatency =
          .ok (-2 ^ 31, next)) ∧
        IsLongest (windows.producers uop) windows.producersAt
          windows.execLatencyAt (2 ^ 31) := by
  refine ⟨branchNext (2 ^ 31), reachable_branchNext _, by decide,
    dependenciesEarlier_branchNext _, latenciesPositive_branchNext (by decide),
    branchOp, rfl, ⟨_, rfl⟩, ?_⟩
  have only : ∀ {index total},
      PathTo ((branchNext (2 ^ 31)).producers branchOp)
        (branchNext (2 ^ 31)).producersAt (branchNext (2 ^ 31)).execLatencyAt
        index total → index = 0 ∧ total = 2 ^ 31 := by
    intro index total path
    induction path with
    | direct member =>
        obtain rfl := List.mem_singleton.mp member
        exact ⟨rfl, rfl⟩
    | producer _ produces ih =>
        obtain ⟨rfl, -⟩ := ih
        cases produces
  exact ⟨fun path => (only path).2.le,
    .inr ⟨0, .direct List.mem_cons_self⟩⟩

end Windows

end ChipletSniper.Interval
