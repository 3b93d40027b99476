import ChipletSniper.Library.Runs
import Mathlib.Data.List.Nodup

/-!
# The spin loop detector

A backward branch that finds the registers as they were at its last execution
ends an iteration of a spin loop. The detector keeps one old value for each
register that has changed, and the loops for which it has changed as bits.
-/

namespace ChipletSniper.Misc

open Function
open Library (Throughout)

structure SdtEntry where
  eip : UInt64
  id : Nat
  icount : UInt64
  tcount : UInt64
  deriving DecidableEq, Repr

/-- An old value, and the loops for which the register differs. -/
structure RubEntry where
  old : UInt64
  mask : BitVec 16
  deriving DecidableEq, Repr

/-- `SpinLoopDetector`. The Register Update Buffer is a list of registers with
their entries. -/
structure SpinLoopDetector where
  rub : List (UInt16 × RubEntry)
  sdt : List SdtEntry
  sdtBitmask : BitVec 16
  sdtNextId : Nat
  deriving DecidableEq, Repr

namespace SpinLoopDetector

def sdtMaxSize : Nat := 16

def initial : SpinLoopDetector := ⟨[], [], 0, 0⟩

variable (detector : SpinLoopDetector)

/-- The bit of a loop id. -/
def bit (id : Nat) : BitVec 16 :=
  1#16 <<< id

/-- The first entry of the branch gets new counts. -/
def touch (eip icount tcount : UInt64) : List SdtEntry → List SdtEntry
  | [] => []
  | entry :: rest =>
      if entry.eip = eip then
        { entry with
          icount := icount
          tcount := tcount } :: rest
      else
        entry :: touch eip icount tcount rest

/-- The entries that are kept when one more has been pushed. -/
def keep (sdt : List SdtEntry) : List SdtEntry :=
  if sdtMaxSize < sdt.length then sdt.tail else sdt

def bitmask (sdt : List SdtEntry) : BitVec 16 :=
  sdt.foldl (fun mask entry => mask ||| bit entry.id) 0

def reset (id : Nat) (entry : RubEntry) : RubEntry :=
  if entry.mask &&& bit id ≠ 0 then
    { entry with mask := entry.mask &&& ~~~ bit id }
  else
    entry

/-- `commitBCT` at an instruction count and a time of the core, and what it
hands to `updateSpinCount`. -/
def commitBCT (eip icount tcount : UInt64) :
    Option (UInt64 × UInt64) × SpinLoopDetector :=
  match detector.sdt.find? fun entry => entry.eip == eip with
  | none =>
      let sdt := keep
        (detector.sdt ++ [⟨eip, detector.sdtNextId, icount, tcount⟩])
      (none,
        { detector with
          sdt := sdt
          sdtBitmask := bitmask sdt
          sdtNextId := (detector.sdtNextId + 1) % sdtMaxSize })
  | some entry =>
      let spinning := detector.rub.all fun register =>
        register.2.mask &&& bit entry.id == 0
      (if spinning then some (icount - entry.icount, tcount - entry.tcount)
        else none,
        { detector with
          rub := detector.rub.map fun register =>
            (register.1, reset entry.id register.2)
          sdt := touch eip icount tcount detector.sdt })

def commitNonSilentStore : SpinLoopDetector :=
  { detector with
    sdt := []
    rub := [] }

def commitRegisterWrite (reg : UInt16) (oldValue value : UInt64) :
    SpinLoopDetector :=
  match detector.rub.lookup reg with
  | none =>
      if value ≠ oldValue then
        { detector with
          rub := (reg, ⟨oldValue, detector.sdtBitmask⟩) :: detector.rub }
      else
        detector
  | some entry =>
      if value = entry.old then
        { detector with
          rub := detector.rub.filter fun register => register.1 != reg }
      else if value ≠ oldValue then
        { detector with
          rub := detector.rub.map fun register =>
            (register.1,
              if register.1 = reg then
                { register.2 with
                  mask := register.2.mask ||| detector.sdtBitmask }
              else register.2) }
      else
        detector

/-! ## Bits and entries -/

theorem getLsbD_bit {id : Nat} (small : id < 16) (other : Nat) :
    (bit id).getLsbD other = decide (id = other) := by
  unfold bit
  rw [← BitVec.twoPow_eq, BitVec.getLsbD_twoPow, decide_eq_true small,
    Bool.true_and]

/-- The test for the bit of a loop. -/
theorem and_bit_eq_zero_iff {id : Nat} (small : id < 16)
    (mask : BitVec 16) :
    mask &&& bit id = 0 ↔ mask.getLsbD id = false := by
  constructor
  · intro clear
    have here := congrArg (fun word => word.getLsbD id) clear
    rw [BitVec.getLsbD_and, getLsbD_bit small, decide_eq_true rfl,
      Bool.and_true] at here
    exact here.trans BitVec.getLsbD_zero
  · intro clear
    refine BitVec.eq_of_getLsbD_eq fun other _ => ?_
    rw [BitVec.getLsbD_and, getLsbD_bit small]
    refine Eq.trans ?_ BitVec.getLsbD_zero.symm
    by_cases same : id = other
    · rw [← same, clear, Bool.false_and]
    · rw [decide_eq_false same, Bool.and_false]

/-- A reset changes no bit of another loop. -/
theorem getLsbD_reset {id other : Nat} (small : id < 16)
    (different : id ≠ other) (otherSmall : other < 16) (entry : RubEntry) :
    (reset id entry).mask.getLsbD other = entry.mask.getLsbD other := by
  unfold reset
  split
  · dsimp only
    rw [BitVec.getLsbD_and, BitVec.getLsbD_not, getLsbD_bit small,
      decide_eq_false different, decide_eq_true otherSmall]
    exact Bool.and_true _
  · rfl

theorem getLsbD_foldl_bit {sdt : List SdtEntry} {other : Nat} :
    ∀ {mask : BitVec 16},
      (mask.getLsbD other = true ∨
        ∃ loop ∈ sdt, loop.id < 16 ∧ loop.id = other) →
      (sdt.foldl (fun mask entry => mask ||| bit entry.id)
        mask).getLsbD other = true := by
  induction sdt with
  | nil =>
      intro mask held
      exact held.resolve_right fun ⟨_, member, _⟩ =>
        absurd member List.not_mem_nil
  | cons entry rest ih =>
      intro mask held
      refine ih ?_
      rw [BitVec.getLsbD_or]
      rcases held with held | ⟨loop, member, small, same⟩
      · exact Or.inl (by rw [held, Bool.true_or])
      · rcases List.mem_cons.mp member with rfl | member
        · refine Or.inl ?_
          rw [getLsbD_bit small, decide_eq_true same, Bool.or_true]
        · exact Or.inr ⟨loop, member, small, same⟩

/-- The mask of the table has the bits of all its loops. -/
theorem getLsbD_bitmask {sdt : List SdtEntry} {loop : SdtEntry}
    (member : loop ∈ sdt) (small : loop.id < 16) :
    (bitmask sdt).getLsbD loop.id = true :=
  getLsbD_foldl_bit (Or.inr ⟨loop, member, small, rfl⟩)

theorem lookup_map (change : UInt16 → RubEntry → RubEntry) (reg : UInt16)
    (rub : List (UInt16 × RubEntry)) :
    (rub.map fun register =>
      (register.1, change register.1 register.2)).lookup reg =
        (rub.lookup reg).map (change reg) := by
  induction rub with
  | nil => rfl
  | cons register rest ih =>
      obtain ⟨key, entry⟩ := register
      rw [List.map_cons, List.lookup_cons, List.lookup_cons]
      by_cases same : reg = key
      · rw [same, beq_self_eq_true]
        rfl
      · rw [beq_false_of_ne same]
        exact ih

theorem lookup_filter {reg other : UInt16} (different : other ≠ reg)
    (rub : List (UInt16 × RubEntry)) :
    (rub.filter fun register => register.1 != reg).lookup other =
      rub.lookup other := by
  induction rub with
  | nil => rfl
  | cons register rest ih =>
      obtain ⟨key, entry⟩ := register
      rw [List.filter_cons]
      by_cases same : key = reg
      · rw [if_neg (by rw [same, bne_self_eq_false]; exact Bool.false_ne_true),
          ih, List.lookup_cons,
          beq_false_of_ne (same ▸ different)]
      · rw [if_pos (bne_iff_ne.mpr same), List.lookup_cons, List.lookup_cons,
          ih]

/-! ## The ids of the loops -/

/-- The loops of the table have consecutive ids, up to the next one. -/
structure Numbered : Prop where
  size : detector.sdt.length ≤ 16
  next : detector.sdtNextId < 16
  ids : detector.sdt.map SdtEntry.id =
    (List.range detector.sdt.length).map fun place =>
      (detector.sdtNextId + (16 - detector.sdt.length) + place) % 16

variable {detector}

theorem Numbered.nodup (numbered : detector.Numbered) :
    (detector.sdt.map SdtEntry.id).Nodup := by
  have size := numbered.size
  rw [numbered.ids]
  refine List.Nodup.map_on ?_ List.nodup_range
  intro first here second there same
  have := List.mem_range.mp here
  have := List.mem_range.mp there
  omega

theorem Numbered.id_lt (numbered : detector.Numbered) {loop : SdtEntry}
    (member : loop ∈ detector.sdt) : loop.id < 16 := by
  have listed := List.mem_map_of_mem (f := SdtEntry.id) member
  rw [numbered.ids] at listed
  obtain ⟨place, _, same⟩ := List.mem_map.mp listed
  rw [← same]
  exact Nat.mod_lt _ (by decide)

theorem touch_ids (eip icount tcount : UInt64) (sdt : List SdtEntry) :
    (touch eip icount tcount sdt).map SdtEntry.id = sdt.map SdtEntry.id := by
  induction sdt with
  | nil => rfl
  | cons entry rest ih =>
      rw [touch]
      split
      · rfl
      · rw [List.map_cons, List.map_cons, ih]

/-- A loop of the table is the one it was, apart from its counts. -/
theorem exists_of_mem_touch {eip icount tcount : UInt64}
    {sdt : List SdtEntry} {loop : SdtEntry}
    (member : loop ∈ touch eip icount tcount sdt) :
    ∃ before ∈ sdt, before.eip = loop.eip ∧ before.id = loop.id := by
  induction sdt with
  | nil => cases member
  | cons entry rest ih =>
      rw [touch] at member
      split at member
      · rcases List.mem_cons.mp member with rfl | member
        · exact ⟨entry, List.mem_cons_self, rfl, rfl⟩
        · exact ⟨loop, List.mem_cons_of_mem _ member, rfl, rfl⟩
      · rcases List.mem_cons.mp member with rfl | member
        · exact ⟨loop, List.mem_cons_self, rfl, rfl⟩
        · obtain ⟨before, found, same⟩ := ih member
          exact ⟨before, List.mem_cons_of_mem _ found, same⟩

theorem keep_of_lt {sdt : List SdtEntry} (room : sdt.length < 16)
    (entry : SdtEntry) : keep (sdt ++ [entry]) = sdt ++ [entry] := by
  unfold keep sdtMaxSize
  rw [List.length_append, List.length_singleton, if_neg (by omega)]

theorem keep_of_full {sdt : List SdtEntry} (full : sdt.length = 16)
    (entry : SdtEntry) : keep (sdt ++ [entry]) = sdt.tail ++ [entry] := by
  unfold keep sdtMaxSize
  rw [List.length_append, List.length_singleton, full,
    if_pos (by decide), List.tail_append_of_ne_nil]
  exact List.ne_nil_of_length_eq_add_one full

/-- A new loop takes the next id. -/
theorem Numbered.push (numbered : detector.Numbered)
    (eip icount tcount : UInt64) (mask : BitVec 16) :
    Numbered
      { detector with
        sdt := keep
          (detector.sdt ++ [⟨eip, detector.sdtNextId, icount, tcount⟩])
        sdtBitmask := mask
        sdtNextId := (detector.sdtNextId + 1) % sdtMaxSize } := by
  obtain ⟨size, next, ids⟩ := numbered
  by_cases full : detector.sdt.length = 16
  · rw [keep_of_full full]
    have length : (detector.sdt.tail ++ [(⟨eip, detector.sdtNextId, icount,
        tcount⟩ : SdtEntry)]).length = 16 := by
      rw [List.length_append, List.length_tail, full]
      rfl
    refine ⟨Nat.le_of_eq length, Nat.mod_lt _ (by decide), ?_⟩
    dsimp only
    rw [length, List.range_succ, List.map_append, List.map_append,
      List.map_tail, ids, full, List.range_succ_eq_map, List.map_cons,
      List.tail_cons, List.map_map, List.map_singleton, List.map_singleton]
    congr 1
    · refine List.map_congr_left fun place _ => ?_
      dsimp only [comp_apply, sdtMaxSize]
      omega
    · refine congrArg (fun id => [id]) ?_
      dsimp only [sdtMaxSize]
      omega
  · rw [keep_of_lt (by omega)]
    have length : (detector.sdt ++ [(⟨eip, detector.sdtNextId, icount,
        tcount⟩ : SdtEntry)]).length = detector.sdt.length + 1 :=
      List.length_append
    refine ⟨Nat.le_trans (Nat.le_of_eq length) (by omega),
      Nat.mod_lt _ (by decide), ?_⟩
    dsimp only
    rw [length, List.range_succ, List.map_append, List.map_append, ids,
      List.map_singleton, List.map_singleton]
    congr 1
    · refine List.map_congr_left fun place inside => ?_
      have := List.mem_range.mp inside
      dsimp only [sdtMaxSize]
      omega
    · refine congrArg (fun id => [id]) ?_
      dsimp only [sdtMaxSize]
      omega

theorem mem_of_mem_keep {sdt : List SdtEntry} {loop : SdtEntry}
    (member : loop ∈ keep sdt) : loop ∈ sdt := by
  unfold keep at member
  split at member
  · exact List.mem_of_mem_tail member
  · exact member

/-! ## Register writes -/

/-- A register write changes the buffer only. -/
theorem commitRegisterWrite_rub (detector : SpinLoopDetector) (reg : UInt16)
    (oldValue value : UInt64) :
    detector.commitRegisterWrite reg oldValue value =
      { detector with
        rub := (detector.commitRegisterWrite reg oldValue value).rub } := by
  unfold commitRegisterWrite
  split
  · split <;> rfl
  · split
    · rfl
    · split <;> rfl

theorem lookup_commitRegisterWrite_other {reg other : UInt16}
    (different : other ≠ reg) (oldValue value : UInt64) :
    (detector.commitRegisterWrite reg oldValue value).rub.lookup other =
      detector.rub.lookup other := by
  unfold commitRegisterWrite
  split
  next =>
      split
      next => rw [List.lookup_cons, beq_false_of_ne different]
      next => rfl
  next entry found =>
      split
      next => exact lookup_filter different _
      next =>
          split
          next =>
              rw [lookup_map fun key entry =>
                if key = reg then
                  { entry with mask := entry.mask ||| detector.sdtBitmask }
                else entry]
              cases detector.rub.lookup other with
              | none => rfl
              | some entry => exact congrArg some (if_neg different)
          next => rfl

/-- A changed register that stays in the buffer has the bits of all loops. -/
theorem lookup_commitRegisterWrite {reg : UInt16} {oldValue value : UInt64}
    (changed : value ≠ oldValue)
    (stays : ∀ entry, detector.rub.lookup reg = some entry →
      value ≠ entry.old) :
    ∃ entry,
      (detector.commitRegisterWrite reg oldValue value).rub.lookup reg =
          some entry ∧
        ∀ id, detector.sdtBitmask.getLsbD id = true →
          entry.mask.getLsbD id = true := by
  unfold commitRegisterWrite
  split
  next =>
      rw [if_pos changed]
      exact ⟨⟨oldValue, detector.sdtBitmask⟩, List.lookup_cons_self,
        fun _ marked => marked⟩
  next entry found =>
      rw [if_neg (stays entry found), if_pos changed]
      refine ⟨{ entry with mask := entry.mask ||| detector.sdtBitmask },
        ?_, fun id marked => ?_⟩
      · rw [lookup_map fun key entry =>
          if key = reg then
            { entry with mask := entry.mask ||| detector.sdtBitmask }
          else entry]
        rw [found]
        exact congrArg some (if_pos rfl)
      · rw [BitVec.getLsbD_or, marked, Bool.or_true]

/-- A silent write that erases nothing. -/
theorem commitRegisterWrite_silent {reg : UInt16} {value : UInt64}
    (stays : ∀ entry, detector.rub.lookup reg = some entry →
      value ≠ entry.old) :
    detector.commitRegisterWrite reg value value = detector := by
  unfold commitRegisterWrite
  split
  next => exact if_neg fun changed => changed rfl
  next entry found =>
      rw [if_neg (stays entry found)]
      exact if_neg fun changed => changed rfl

end SpinLoopDetector

/-! ## Runs -/

inductive CommitEvent where
  | branch (eip icount tcount : UInt64)
  | nonSilentStore
  | registerWrite (reg : UInt16) (value : UInt64)
  deriving DecidableEq, Repr

/-- The detector of a thread, the registers of the thread, and the registers as
each branch has left them when it was last executed after the last non-silent
store. -/
structure SpinningThread where
  detector : SpinLoopDetector
  registers : UInt16 → UInt64
  seen : UInt64 → Option (UInt16 → UInt64)

namespace SpinningThread

def initial (registers : UInt16 → UInt64) : SpinningThread :=
  ⟨.initial, registers, fun _ => none⟩

def step (thread : SpinningThread) : CommitEvent → SpinningThread
  | .branch eip icount tcount =>
      { thread with
        detector := (thread.detector.commitBCT eip icount tcount).2
        seen := update thread.seen eip (some thread.registers) }
  | .nonSilentStore =>
      { thread with
        detector := thread.detector.commitNonSilentStore
        seen := fun _ => none }
  | .registerWrite reg value =>
      { thread with
        detector := thread.detector.commitRegisterWrite reg
          (thread.registers reg) value
        registers := update thread.registers reg value }

/-- A spin is reported only where the branch was executed before, without a
non-silent store since, and all registers are as they were then. -/
def Sound (thread : SpinningThread) : CommitEvent → Prop
  | .branch eip icount tcount =>
      (thread.detector.commitBCT eip icount tcount).1 ≠ none →
        thread.seen eip = some thread.registers
  | .nonSilentStore => True
  | .registerWrite _ _ => True

/-- A register that leaves the buffer is for all loops of the table as they
have last seen it. -/
def Meets (thread : SpinningThread) : CommitEvent → Prop
  | .registerWrite reg value =>
      ∀ entry, thread.detector.rub.lookup reg = some entry →
        value = entry.old →
        ∀ loop ∈ thread.detector.sdt, ∀ registers,
          thread.seen loop.eip = some registers → registers reg = value
  | .branch _ _ _ => True
  | .nonSilentStore => True

variable {thread : SpinningThread}

/-- Every loop of the table was seen, and a register that is no longer as the
loop has seen it is in the buffer with the bit of the loop. -/
structure Tracks (thread : SpinningThread) : Prop where
  numbered : thread.detector.Numbered
  masked : ∀ loop ∈ thread.detector.sdt,
    thread.detector.sdtBitmask.getLsbD loop.id = true
  tracked : ∀ loop ∈ thread.detector.sdt, ∃ registers,
    thread.seen loop.eip = some registers ∧
      ∀ reg, registers reg ≠ thread.registers reg →
        ∃ entry, thread.detector.rub.lookup reg = some entry ∧
          entry.mask.getLsbD loop.id = true

theorem Tracks.of_initial (registers : UInt16 → UInt64) :
    (initial registers).Tracks where
  numbered := ⟨Nat.zero_le _, Nat.zero_lt_succ 15, rfl⟩
  masked := fun _ member => absurd member List.not_mem_nil
  tracked := fun _ member => absurd member List.not_mem_nil

/-- A loop without a bit in the buffer has seen the registers as they are. -/
theorem Tracks.reported (tracks : thread.Tracks)
    (eip icount tcount : UInt64) :
    thread.Sound (.branch eip icount tcount) := by
  intro reported
  unfold SpinLoopDetector.commitBCT at reported
  split at reported
  next => exact absurd rfl reported
  next entry found =>
      have member := List.mem_of_find?_eq_some found
      have same : entry.eip = eip := beq_iff_eq.mp (List.find?_some found :)
      have small := tracks.numbered.id_lt member
      have spinning : (thread.detector.rub.all fun register =>
          register.2.mask &&& SpinLoopDetector.bit entry.id == 0) = true := by
        by_contra busy
        exact reported (if_neg busy)
      obtain ⟨registers, seen, tracked⟩ := tracks.tracked entry member
      rw [← same, seen]
      refine congrArg some (funext fun reg => by_contra fun changed => ?_)
      obtain ⟨kept, listed, marked⟩ := tracked reg changed
      obtain ⟨front, back, split, _⟩ := List.lookup_eq_some_iff.mp listed
      have clear := List.all_eq_true.mp spinning (reg, kept)
        (split ▸ List.mem_append_right _ List.mem_cons_self)
      rw [(SpinLoopDetector.and_bit_eq_zero_iff small kept.mask).mp
        (beq_iff_eq.mp clear)] at marked
      exact Bool.false_ne_true marked

theorem Tracks.branch (tracks : thread.Tracks)
    (eip icount tcount : UInt64) :
    (thread.step (.branch eip icount tcount)).Tracks := by
  obtain ⟨numbered, masked, tracked⟩ := tracks
  have current : ∀ loop : SdtEntry, loop.eip = eip →
      update thread.seen eip (some thread.registers) loop.eip =
        some thread.registers := by
    intro loop same
    rw [same, update_self]
  dsimp only [step, SpinLoopDetector.commitBCT]
  split
  next unknown =>
      have others : ∀ loop ∈ thread.detector.sdt, loop.eip ≠ eip :=
        fun loop member same => List.find?_eq_none.mp unknown loop member
          (beq_iff_eq.mpr same)
      have pushed := numbered.push eip icount tcount
        (SpinLoopDetector.bitmask (SpinLoopDetector.keep
          (thread.detector.sdt ++
            [⟨eip, thread.detector.sdtNextId, icount, tcount⟩])))
      refine ⟨pushed, fun loop member => ?_, fun loop member => ?_⟩
      · exact SpinLoopDetector.getLsbD_bitmask member (pushed.id_lt member)
      · rcases List.mem_append.mp (SpinLoopDetector.mem_of_mem_keep member)
          with old | new
        · obtain ⟨registers, seen, kept⟩ := tracked loop old
          exact ⟨registers, (update_of_ne (others loop old) _ _).trans
            seen, kept⟩
        · exact ⟨thread.registers, current loop
            (congrArg SdtEntry.eip (List.mem_singleton.mp new)),
            fun _ changed => absurd rfl changed⟩
  next entry found =>
      have place := List.mem_of_find?_eq_some found
      have itself : entry.eip = eip :=
        beq_iff_eq.mp (List.find?_some found :)
      have ids := SpinLoopDetector.touch_ids eip icount tcount
        thread.detector.sdt
      have length := congrArg List.length ids
      rw [List.length_map, List.length_map] at length
      refine ⟨⟨Nat.le_trans (Nat.le_of_eq length) numbered.size,
        numbered.next, ?_⟩,
        fun loop member => ?_, fun loop member => ?_⟩
      · dsimp only
        rw [ids, length, numbered.ids]
      · obtain ⟨before, listed, _, same⟩ :=
          SpinLoopDetector.exists_of_mem_touch member
        exact same ▸ masked before listed
      · obtain ⟨before, listed, sameEip, same⟩ :=
          SpinLoopDetector.exists_of_mem_touch member
        by_cases here : loop.eip = eip
        · exact ⟨thread.registers, current loop here,
            fun _ changed => absurd rfl changed⟩
        · have apart : entry.id ≠ loop.id := by
            intro sameId
            have one := List.inj_on_of_nodup_map numbered.nodup place listed
              (sameId.trans same.symm)
            exact here (sameEip.symm.trans (one ▸ itself))
          obtain ⟨registers, seen, kept⟩ := tracked before listed
          refine ⟨registers, (update_of_ne here _ _).trans
            (sameEip ▸ seen), fun reg changed => ?_⟩
          obtain ⟨other, found, marked⟩ := kept reg changed
          refine ⟨SpinLoopDetector.reset entry.id other, ?_, ?_⟩
          · dsimp only
            rw [SpinLoopDetector.lookup_map
              fun _ => SpinLoopDetector.reset entry.id, found]
            rfl
          · rw [SpinLoopDetector.getLsbD_reset (numbered.id_lt place) apart
              (same ▸ numbered.id_lt listed), ← same]
            exact marked

theorem Tracks.nonSilentStore (tracks : thread.Tracks) :
    (thread.step .nonSilentStore).Tracks where
  numbered := ⟨Nat.zero_le _, tracks.numbered.next, rfl⟩
  masked := fun _ member => absurd member List.not_mem_nil
  tracked := fun _ member => absurd member List.not_mem_nil

theorem Tracks.registerWrite (tracks : thread.Tracks) {reg : UInt16}
    {value : UInt64} (meets : thread.Meets (.registerWrite reg value)) :
    (thread.step (.registerWrite reg value)).Tracks := by
  obtain ⟨numbered, masked, tracked⟩ := tracks
  dsimp only [step]
  rw [SpinLoopDetector.commitRegisterWrite_rub]
  refine ⟨⟨numbered.size, numbered.next, numbered.ids⟩, masked,
    fun loop member => ?_⟩
  obtain ⟨registers, seen, kept⟩ := tracked loop member
  refine ⟨registers, seen, fun other changed => ?_⟩
  dsimp only at changed ⊢
  by_cases here : other = reg
  · rw [here, update_self] at changed
    rw [here]
    -- An erased register would be as the loop has seen it.
    have stays : ∀ entry, thread.detector.rub.lookup reg = some entry →
        value ≠ entry.old := fun entry found erased =>
      changed (meets entry found erased loop member registers seen)
    by_cases silent : value = thread.registers reg
    · rw [← silent, SpinLoopDetector.commitRegisterWrite_silent stays]
      exact kept reg (silent ▸ changed)
    · obtain ⟨entry, found, marked⟩ :=
        SpinLoopDetector.lookup_commitRegisterWrite silent stays
      exact ⟨entry, found, marked loop.id (masked loop member)⟩
  · rw [update_of_ne here] at changed
    rw [SpinLoopDetector.lookup_commitRegisterWrite_other here]
    exact kept other changed

/-- Over a run in which no register leaves the buffer that a loop has seen
otherwise, every spin that is reported is one. -/
theorem spins_sound {events : List CommitEvent}
    {registers : UInt16 → UInt64}
    (meets : Throughout step Meets events (initial registers)) :
    Throughout step Sound events (initial registers) := by
  refine Throughout.induction Tracks (fun {thread event} tracks met => ?_)
    meets (.of_initial registers)
  cases event with
  | branch eip icount tcount =>
      exact ⟨tracks.reported eip icount tcount,
        tracks.branch eip icount tcount⟩
  | nonSilentStore => exact ⟨trivial, tracks.nonSilentStore⟩
  | registerWrite reg value => exact ⟨trivial, tracks.registerWrite met⟩

/-- A register that changes and returns within one iteration. -/
theorem spins_sound_return :
    Throughout step Sound
      [.branch 100 0 0, .registerWrite 3 7, .registerWrite 3 0,
        .branch 100 4 20] (initial fun _ => 0) := by
  refine spins_sound ⟨trivial, ?_, ?_, trivial, trivial⟩
  · intro entry found
    cases found
  · intro entry found _ loop member registers seen
    cases List.mem_singleton.mp member
    cases seen
    cases found
    rfl

/-- A register that changes in every iteration between two values. -/
theorem toggling_reported :
    ¬ Throughout step Sound
      [.branch 100 0 0, .registerWrite 3 7, .branch 100 4 20,
        .registerWrite 3 0, .branch 100 8 40] (initial fun _ => 0) := by
  intro sound
  have third := sound.2.2.2.2.1 (by decide)
  exact absurd (congrFun (Option.some.inj third) 3) (by decide)

end SpinningThread

end ChipletSniper.Misc
