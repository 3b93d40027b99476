import ChipletSniper.Library.Matching
import ChipletSniper.Traces.Delay

/-!
# Delays of some of the messages

popnet stops at `sim_length`, so that the delays of some messages may be
missing.  `readDelayFile` takes the next record of the session for every line
and does not compare the sent times: once a delay is missing, the later ones of
its session are counted against the records before them.
-/

namespace ChipletSniper.Traces

open Library

/-- The lines that `readDelayFile` consumes, each with the record it takes. -/
def consumed (msgInfoMap : MsgInfoMap) (lines : List SDelayInfo) :
    List (SMsgPhysicalInfo ℚ × SDelayInfo) :=
  pairUp SDelayInfo.session msgInfoMap lines

/-- What a consumed line adds to the total of its destination. -/
def charge (pair : SMsgPhysicalInfo ℚ × SDelayInfo) : ℚ :=
  max 0 (pair.2.sentTime + pair.2.delay - pair.1.recvTime)

/-- A consumed line for a destination. -/
def chargedTo (chiplet core : ℤ) (pair : SMsgPhysicalInfo ℚ × SDelayInfo) :
    Bool :=
  pair.2.desChiplet = chiplet && pair.2.desCore = core

/-- The totals are the charges of the consumed lines. -/
theorem readDelayFile_consumed {chipletCnt coreCnt : ℤ}
    {lines : List SDelayInfo} :
    ∀ {totals last : Totals},
      readDelayFile chipletCnt coreCnt totals lines = some last →
      ∀ chiplet core, last.totalDelay (chiplet, core) =
        totals.totalDelay (chiplet, core) +
          (((consumed totals.msgInfoMap lines).filter
            (chargedTo chiplet core)).map charge).sum := by
  induction lines with
  | nil =>
      intro totals last run chiplet core
      cases run
      simp [consumed, pairUp]
  | cons line rest ih =>
      intro totals last run chiplet core
      rw [readDelayFile, List.foldlM_cons] at run
      obtain ⟨next, step, later⟩ := Option.bind_eq_some_iff.mp run
      rw [ih later chiplet core]
      unfold readDelay at step
      cases waiting : totals.msgInfoMap line.session with
      | nil =>
          rw [waiting] at step
          cases step
          rw [consumed, consumed, pairUp_cons_of_nil _ rest waiting]
      | cons front others =>
          rw [waiting] at step
          dsimp only at step
          split_ifs at step
          cases step
          have tail : consumed totals.msgInfoMap (line :: rest) =
              (front, line) ::
                consumed (totals.count line front others).msgInfoMap rest :=
            pairUp_cons_of_cons _ rest waiting
          rw [tail]
          by_cases isFor : chargedTo chiplet core (front, line) = true
          · have place : (chiplet, core) = (line.desChiplet, line.desCore) := by
              simp only [chargedTo, Bool.and_eq_true,
                decide_eq_true_eq] at isFor
              rw [isFor.1, isFor.2]
            rw [List.filter_cons_of_pos isFor, List.map_cons, List.sum_cons,
              ← add_assoc]
            congr 1
            rw [place]
            exact Function.update_self _ _ _
          · have place : (chiplet, core) ≠ (line.desChiplet, line.desCore) := by
              intro same
              obtain ⟨chipletIs, coreIs⟩ := Prod.mk.injEq .. ▸ same
              exact isFor (by simp [chargedTo, chipletIs, coreIs])
            rw [List.filter_cons_of_neg isFor]
            congr 1
            exact Function.update_of_ne place _ _

/-- The lines report, in the order of their sent times, some of the messages.
-/
structure Reports (records : List (SMsgPhysicalInfo ℚ))
    (lines : List SDelayInfo) : Prop where
  distinct : ∀ session,
    ((records.filter (·.session = session)).map
      SMsgPhysicalInfo.sentTime).Nodup
  ordered : Ordered SDelayInfo.sentTime lines
  reported :
    (lines.map fun line => (line.session, line.sentTime)).Subperm
      (records.map fun record => (record.session, record.sentTime))

/-- Every consumed line is combined with the record of its message. -/
def ChargedRight (records : List (SMsgPhysicalInfo ℚ))
    (lines : List SDelayInfo) : Prop :=
  ∀ pair ∈ consumed (readMsgFile records) lines,
    pair.1 ∈ records ∧ pair.1.session = pair.2.session ∧
      pair.1.sentTime = pair.2.sentTime

/-- In every session, the reported messages are those whose records come
first. -/
def FirstReported (records : List (SMsgPhysicalInfo ℚ))
    (lines : List SDelayInfo) : Prop :=
  ∀ session,
    (lines.filter (·.session = session)).map SDelayInfo.sentTime <+:
      (records.filter (·.session = session)).map SMsgPhysicalInfo.sentTime

/-- A session has no more lines than records. -/
theorem Reports.length_le {records : List (SMsgPhysicalInfo ℚ)}
    {lines : List SDelayInfo} (reports : Reports records lines)
    (session : SSession) :
    (lines.filter (·.session = session)).length ≤
      (records.filter (·.session = session)).length := by
  have within := (reports.reported.filter
    fun key => decide (key.1 = session)).length_le
  simpa only [List.filter_map, List.length_map, Function.comp_def] using within

/-- No delay is charged to another message exactly if in every session the
reported messages are those whose records come first, in the same order. -/
theorem charged_right_iff {records : List (SMsgPhysicalInfo ℚ)}
    {lines : List SDelayInfo} (reports : Reports records lines) :
    ChargedRight records lines ↔ FirstReported records lines := by
  unfold ChargedRight consumed
  rw [forall_mem_pairUp_iff]
  refine forall_congr' fun session => ?_
  rw [readMsgFile_apply,
    ← forall_mem_zip_iff_prefix (reports.length_le session)]
  refine forall₂_congr fun pair member => ?_
  obtain ⟨first, second⟩ := List.of_mem_zip member
  obtain ⟨inRecords, ofSession⟩ := List.mem_filter.mp first
  obtain ⟨_, lineSession⟩ := List.mem_filter.mp second
  have same : pair.1.session = pair.2.session :=
    (of_decide_eq_true ofSession).trans (of_decide_eq_true lineSession).symm
  simp [inRecords, same]

/-- The line of the later of the two messages. -/
def laterLine : SDelayInfo :=
  ⟨10, 0, 0, 1, 0, 5⟩

/-- The line of the earlier one. -/
def earlierLine : SDelayInfo :=
  ⟨5, 0, 0, 1, 0, 3⟩

theorem reports_of_line {line : SDelayInfo}
    (message : (line.session, line.sentTime) ∈
      (sortedMessages.map Message.record).map
        fun record => (record.session, record.sentTime)) :
    Reports (sortedMessages.map Message.record) [line] where
  distinct session := by
    have all : ((sortedMessages.map Message.record).map
        SMsgPhysicalInfo.sentTime).Nodup := by
      decide +kernel
    exact all.sublist (List.Sublist.map _ List.filter_sublist)
  ordered := List.pairwise_singleton _ _
  reported := List.singleton_subperm_iff.mpr message

/-- The line of the later message is counted against the earlier record. -/
theorem not_chargedRight_laterLine :
    ¬ ChargedRight (sortedMessages.map Message.record) [laterLine] := by
  intro right
  have shifted :
      (⟨0, 0, 1, 0, 5, 6⟩, laterLine) ∈
        consumed (readMsgFile (sortedMessages.map Message.record))
          [laterLine] := by
    decide +kernel
  have same := (right _ shifted).2.2
  revert same
  decide +kernel

/-- The delay of the earlier message alone, and that of the later one. -/
theorem charged_right_earlier :
    FirstReported (sortedMessages.map Message.record) [earlierLine] ∧
      ¬ FirstReported (sortedMessages.map Message.record) [laterLine] := by
  constructor
  · apply (charged_right_iff (reports_of_line (by decide +kernel))).mp
    unfold ChargedRight
    decide +kernel
  · intro first
    exact not_chargedRight_laterLine
      ((charged_right_iff (reports_of_line (by decide +kernel))).mpr first)

/-- When the delay of the earlier message is missing, the later one is counted
against the earlier record. -/
theorem missing_delay_shifts :
    Reports (sortedMessages.map Message.record) [laterLine] ∧
      ¬ ChargedRight (sortedMessages.map Message.record) [laterLine] :=
  ⟨reports_of_line (by decide +kernel), not_chargedRight_laterLine⟩

end ChipletSniper.Traces
