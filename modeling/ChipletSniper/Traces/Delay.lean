import Mathlib.Algebra.BigOperators.Group.List.Basic
import Mathlib.Algebra.Order.Field.Rat
import ChipletSniper.Traces.Combine

/-!
# The delays of the messages

`popnet_trace_transfer` turns the records of the messages into a trace of
popnet, `popnet_delay_info_transfer` turns the delays that popnet reports back
into physical addresses and nanoseconds, and `delay_analyze` adds them up for
every core.  A message is found again by its place among the messages of its
session.  Times are rational numbers.
-/

namespace ChipletSniper.Traces

open Library Function

/-! ## From records to a trace -/

/-- `SPopnetRecord`. -/
structure SPopnetRecord where
  timeSent : ℚ
  srcChipletX : ℤ
  srcChipletY : ℤ
  srcCoreX : ℤ
  srcCoreY : ℤ
  desChipletX : ℤ
  desChipletY : ℤ
  desCoreX : ℤ
  desCoreY : ℤ
  size : ℕ
  deriving DecidableEq

section Programs

variable (chipletPerLineCnt corePerLineCnt : ℤ) (frequency : ℚ)

/-- The body of `readAndTransferRecords`.  The quotients and remainders are
those of `ldiv`. -/
def transferRecord (r : SMsgPhysicalInfo ℚ) : SPopnetRecord where
  timeSent := r.sentTime * 1 * frequency
  srcChipletX := r.srcChiplet.tmod chipletPerLineCnt
  srcChipletY := r.srcChiplet.tdiv chipletPerLineCnt
  srcCoreX := r.srcCore.tmod corePerLineCnt
  srcCoreY := r.srcCore.tdiv corePerLineCnt
  desChipletX := r.desChiplet.tmod chipletPerLineCnt
  desChipletY := r.desChiplet.tdiv chipletPerLineCnt
  desCoreX := r.desCore.tmod corePerLineCnt
  desCoreY := r.desCore.tdiv corePerLineCnt
  size := 1

/-! ## From the trace to delays -/

/-- A line of `delayInfo.txt`, which popnet writes for every packet that
arrives: the sent time, the addresses and the delay. -/
structure DelayLine where
  sentTime : ℚ
  srcChipletX : ℤ
  srcChipletY : ℤ
  srcCoreX : ℤ
  srcCoreY : ℤ
  desChipletX : ℤ
  desChipletY : ℤ
  desCoreX : ℤ
  desCoreY : ℤ
  delay : ℚ
  deriving DecidableEq

/-- The line for a packet with a network delay. -/
def SPopnetRecord.report (r : SPopnetRecord) (delay : ℚ) : DelayLine :=
  ⟨r.timeSent, r.srcChipletX, r.srcChipletY, r.srcCoreX, r.srcCoreY,
    r.desChipletX, r.desChipletY, r.desCoreX, r.desCoreY, delay⟩

structure SDelayInfo where
  sentTime : ℚ
  srcChiplet : ℤ
  srcCore : ℤ
  desChiplet : ℤ
  desCore : ℤ
  delay : ℚ
  deriving DecidableEq

/-- The body of `readFile`. -/
def delayInfo (line : DelayLine) : SDelayInfo where
  sentTime := line.sentTime / 1 / frequency
  srcChiplet := line.srcChipletX + chipletPerLineCnt * line.srcChipletY
  srcCore := line.srcCoreX + corePerLineCnt * line.srcCoreY
  desChiplet := line.desChipletX + chipletPerLineCnt * line.desChipletY
  desCore := line.desCoreX + corePerLineCnt * line.desCoreY
  delay := line.delay / 1 / frequency

/-- `readFile`: what is in the priority queue. -/
def readFile (lines : List DelayLine) : List SDelayInfo :=
  lines.map (delayInfo chipletPerLineCnt corePerLineCnt frequency)

/-- `writeFile`: the priority queue is emptied from the earliest sent time on.
Ties may be broken in any way. -/
def WriteFile (pq output : List SDelayInfo) : Prop :=
  SortOf SDelayInfo.sentTime pq output

/-! ## Adding up -/

structure SSession where
  srcChiplet : ℤ
  srcCore : ℤ
  desChiplet : ℤ
  desCore : ℤ
  deriving DecidableEq

def SMsgPhysicalInfo.session {Time : Type} (msg : SMsgPhysicalInfo Time) :
    SSession :=
  ⟨msg.srcChiplet, msg.srcCore, msg.desChiplet, msg.desCore⟩

def SDelayInfo.session (line : SDelayInfo) : SSession :=
  ⟨line.srcChiplet, line.srcCore, line.desChiplet, line.desCore⟩

/-- `msgInfoMap`.  A session that is missing is treated like one with an empty
queue. -/
abbrev MsgInfoMap := SSession → List (SMsgPhysicalInfo ℚ)

/-- `readMsgFile`. -/
def readMsgFile (records : List (SMsgPhysicalInfo ℚ)) : MsgInfoMap :=
  records.foldl
    (fun msgInfoMap msg =>
      update msgInfoMap msg.session
        (msgInfoMap msg.session ++ [msg]))
    fun _ => []

/-- `totalDelay` and `msgInfoMap` during `readDelayFile`. -/
structure Totals where
  msgInfoMap : MsgInfoMap
  totalDelay : ℤ × ℤ → ℚ

/-- The message at the front of the session of a line is counted. -/
def Totals.count (totals : Totals) (line : SDelayInfo)
    (front : SMsgPhysicalInfo ℚ) (rest : List (SMsgPhysicalInfo ℚ)) :
    Totals where
  msgInfoMap := update totals.msgInfoMap line.session rest
  totalDelay :=
    update totals.totalDelay (line.desChiplet, line.desCore)
      (totals.totalDelay (line.desChiplet, line.desCore) +
        max 0 (line.sentTime + line.delay - front.recvTime))

variable (chipletCnt coreCnt : ℤ)

/-- The body of `readDelayFile`.  A message that is not found is reported and
left out; an index outside `totalDelay` has no result. -/
def readDelay (totals : Totals) (line : SDelayInfo) : Option Totals :=
  match totals.msgInfoMap line.session with
  | [] => some totals
  | front :: rest =>
      if (0 ≤ line.desChiplet ∧ line.desChiplet < chipletCnt) ∧
          0 ≤ line.desCore ∧ line.desCore < coreCnt then
        some (totals.count line front rest)
      else none

/-- `readDelayFile`. -/
def readDelayFile (totals : Totals) (lines : List SDelayInfo) :
    Option Totals :=
  lines.foldlM (readDelay chipletCnt coreCnt) totals

/-- `main` of `delay_analyze`, up to the output. -/
def delayAnalyze (records : List (SMsgPhysicalInfo ℚ))
    (lines : List SDelayInfo) : Option Totals :=
  readDelayFile chipletCnt coreCnt ⟨readMsgFile records, fun _ => 0⟩ lines

end Programs

/-! ## Addresses and units -/

section Messages

variable {chipletPerLineCnt corePerLineCnt : ℤ} {frequency : ℚ}

/-- A message with its network delay in cycles. -/
structure Message where
  record : SMsgPhysicalInfo ℚ
  delay : ℚ

/-- The line of `delayPhyInfo.txt` that belongs to a message. -/
def Message.line (frequency : ℚ) (message : Message) : SDelayInfo where
  sentTime := message.record.sentTime
  srcChiplet := message.record.srcChiplet
  srcCore := message.record.srcCore
  desChiplet := message.record.desChiplet
  desCore := message.record.desCore
  delay := message.delay / frequency

/-- The two transfers undo each other. -/
theorem delayInfo_report (positive : 0 < frequency) (message : Message) :
    delayInfo chipletPerLineCnt corePerLineCnt frequency
        ((transferRecord chipletPerLineCnt corePerLineCnt frequency
          message.record).report message.delay) =
      message.line frequency := by
  simp only [delayInfo, SPopnetRecord.report, transferRecord, Message.line,
    Int.tmod_add_mul_tdiv, mul_one, div_one,
    mul_div_cancel_right₀ _ (ne_of_gt positive)]

/-- How much later than in the simulation a message arrives. -/
def Message.excess (frequency : ℚ) (message : Message) : ℚ :=
  max 0 (message.record.sentTime + message.delay / frequency -
    message.record.recvTime)

def Message.isFor (chiplet core : ℤ) (message : Message) : Bool :=
  message.record.desChiplet = chiplet && message.record.desCore = core

/-- The destination of a message is in the table. -/
def Message.Counted (chipletCnt coreCnt : ℤ) (message : Message) : Prop :=
  (0 ≤ message.record.desChiplet ∧ message.record.desChiplet < chipletCnt) ∧
    0 ≤ message.record.desCore ∧ message.record.desCore < coreCnt

theorem readMsgFile_apply (records : List (SMsgPhysicalInfo ℚ))
    (session : SSession) :
    readMsgFile records session = records.filter (·.session = session) := by
  refine (collect_apply SMsgPhysicalInfo.session id records (fun _ => [])
    session).trans ?_
  rw [List.map_id]
  rfl

/-- Every line finds its own message if the queues hold the messages in the
order of the lines. -/
theorem readDelayFile_eq {chipletCnt coreCnt : ℤ} :
    ∀ {messages : List Message} {totals : Totals},
      (∀ message ∈ messages, message.Counted chipletCnt coreCnt) →
      (∀ session, totals.msgInfoMap session =
        (messages.map Message.record).filter (·.session = session)) →
      ∃ last,
        readDelayFile chipletCnt coreCnt totals
            (messages.map (Message.line frequency)) = some last ∧
          ∀ chiplet core, last.totalDelay (chiplet, core) =
            totals.totalDelay (chiplet, core) +
              ((messages.filter (Message.isFor chiplet core)).map
                (Message.excess frequency)).sum := by
  intro messages
  induction messages with
  | nil =>
      intro totals _ _
      exact ⟨totals, rfl, by simp⟩
  | cons message rest ih =>
      intro totals counted queues
      have here := queues message.record.session
      rw [List.map_cons, List.filter_cons_of_pos (by simp)] at here
      set behind := (rest.map Message.record).filter
        (·.session = message.record.session)
      set next := totals.count (message.line frequency) message.record behind
        with isNext
      have step : readDelay chipletCnt coreCnt totals
          (message.line frequency) = some next := by
        have found : totals.msgInfoMap (message.line frequency).session =
            message.record :: behind := here
        unfold readDelay
        rw [found]
        exact if_pos (counted message List.mem_cons_self)
      have nextQueues : ∀ session, next.msgInfoMap session =
          (rest.map Message.record).filter (·.session = session) := by
        intro session
        show update totals.msgInfoMap message.record.session behind
          session = _
        by_cases same : session = message.record.session
        · rw [same, update_self]
        · rw [update_of_ne same, queues session, List.map_cons,
            List.filter_cons_of_neg (by simpa using Ne.symm same)]
      obtain ⟨last, run, total⟩ := ih
        (fun other member => counted other (List.mem_cons_of_mem _ member))
        nextQueues
      refine ⟨last, ?_, ?_⟩
      · rw [readDelayFile, List.map_cons, List.foldlM_cons, step]
        exact run
      · intro chiplet core
        rw [total]
        show update totals.totalDelay
          (message.record.desChiplet, message.record.desCore)
          (totals.totalDelay
              (message.record.desChiplet, message.record.desCore) +
            message.excess frequency) (chiplet, core) + _ = _
        by_cases isFor : message.isFor chiplet core = true
        · have place : (chiplet, core) =
              (message.record.desChiplet, message.record.desCore) := by
            simp only [Message.isFor, Bool.and_eq_true,
              decide_eq_true_eq] at isFor
            rw [isFor.1, isFor.2]
          rw [List.filter_cons_of_pos isFor, List.map_cons, List.sum_cons,
            place, update_self, add_assoc]
        · have place : (chiplet, core) ≠
              (message.record.desChiplet, message.record.desCore) := by
            intro same
            obtain ⟨chipletIs, coreIs⟩ := Prod.mk.injEq .. ▸ same
            exact isFor (by simp [Message.isFor, chipletIs, coreIs])
          rw [update_of_ne place, List.filter_cons_of_neg isFor]

/-- If the records of every session are in the order of their sent times, the
delay of every message is counted for that message. -/
theorem delay_attributed {chipletCnt coreCnt : ℤ} {messages : List Message}
    {delayLines : List DelayLine} {phyLines : List SDelayInfo}
    (positive : 0 < frequency)
    (sorted : ∀ session,
      ((messages.map Message.record).filter (·.session = session)).Pairwise
        fun first second => first.sentTime < second.sentTime)
    (counted : ∀ message ∈ messages, message.Counted chipletCnt coreCnt)
    (reported : delayLines.Perm (messages.map fun message =>
      (transferRecord chipletPerLineCnt corePerLineCnt frequency
        message.record).report message.delay))
    (written : WriteFile
      (readFile chipletPerLineCnt corePerLineCnt frequency delayLines)
      phyLines) :
    ∃ totals,
      delayAnalyze chipletCnt coreCnt (messages.map Message.record) phyLines =
          some totals ∧
        ∀ chiplet core, totals.totalDelay (chiplet, core) =
          ((messages.filter (Message.isFor chiplet core)).map
            (Message.excess frequency)).sum := by
  obtain ⟨permuted, ordered⟩ := written
  have lines : phyLines.Perm (messages.map (Message.line frequency)) := by
    refine permuted.trans ((reported.map _).trans ?_)
    rw [List.map_map]
    refine List.Perm.of_eq (List.map_congr_left ?_)
    intro message _
    exact delayInfo_report positive message
  obtain ⟨others, reordered, rfl⟩ := exists_perm_of_perm_map lines
  have queues : ∀ session, readMsgFile (messages.map Message.record) session =
      (others.map Message.record).filter (·.session = session) := by
    intro session
    rw [readMsgFile_apply]
    refine (eq_of_perm_of_sorted (reordered.map _ |>.filter _) ?_
      (sorted session)).symm
    refine List.Pairwise.filter _ ?_
    rw [List.pairwise_map]
    have inOrder := ordered
    unfold Ordered at inOrder
    rw [List.pairwise_map] at inOrder
    exact inOrder
  have start : ∀ session,
      (⟨readMsgFile (messages.map Message.record), fun _ => 0⟩ :
        Totals).msgInfoMap session =
      (others.map Message.record).filter (·.session = session) := queues
  obtain ⟨last, run, total⟩ :=
    readDelayFile_eq
      (fun message member => counted message (reordered.subset member)) start
  refine ⟨last, run, ?_⟩
  intro chiplet core
  rw [total, zero_add]
  exact ((reordered.filter _).map _).sum_eq

end Messages

/-! ## Two messages of one session -/

/-- Two messages from chiplet 0 to chiplet 1, the earlier one first. -/
def sortedMessages : List Message :=
  [⟨⟨0, 0, 1, 0, 5, 6⟩, 3⟩, ⟨⟨0, 0, 1, 0, 10, 20⟩, 5⟩]

/-- The lines of `delayInfo.txt` for some messages. -/
def reportedLines (messages : List Message) : List DelayLine :=
  messages.map fun message =>
    (transferRecord 2 1 1 message.record).report message.delay

theorem delay_attributed_sorted :
    ∃ totals,
      delayAnalyze 2 1 (sortedMessages.map Message.record)
          (readFile 2 1 1 (reportedLines sortedMessages)) = some totals ∧
        totals.totalDelay (1, 0) =
          ((sortedMessages.filter (Message.isFor 1 0)).map
            (Message.excess 1)).sum := by
  have sorted : ∀ session,
      ((sortedMessages.map Message.record).filter
        (·.session = session)).Pairwise
          fun first second => first.sentTime < second.sentTime :=
    fun _ => List.Pairwise.filter _ (by decide +kernel)
  have counted : ∀ message ∈ sortedMessages, message.Counted 2 1 := by
    unfold Message.Counted
    decide +kernel
  have written : WriteFile (readFile 2 1 1 (reportedLines sortedMessages))
      (readFile 2 1 1 (reportedLines sortedMessages)) :=
    ⟨List.Perm.refl _, by unfold Ordered; decide +kernel⟩
  obtain ⟨totals, run, total⟩ :=
    delay_attributed (by decide +kernel) sorted counted (List.Perm.refl _)
      written
  exact ⟨totals, run, total 1 0⟩

/-- The same messages with the later one first. -/
def unsortedMessages : List Message :=
  sortedMessages.reverse

/-- The delay of every message is counted for the other one. -/
theorem unsorted_records_misattributed :
    (∀ session,
      ((unsortedMessages.map Message.record).filter
        (·.session = session)).Pairwise
          fun first second => first.sentTime ≠ second.sentTime) ∧
      ∃ phyLines totals,
        WriteFile (readFile 2 1 1 (reportedLines unsortedMessages))
            phyLines ∧
          delayAnalyze 2 1 (unsortedMessages.map Message.record) phyLines =
            some totals ∧
          totals.totalDelay (1, 0) ≠
            ((unsortedMessages.filter (Message.isFor 1 0)).map
              (Message.excess 1)).sum := by
  refine ⟨fun _ => List.Pairwise.filter _ (by decide +kernel), ?_⟩
  have computed : (delayAnalyze 2 1 (unsortedMessages.map Message.record)
      (readFile 2 1 1 (reportedLines sortedMessages))).map
        (fun totals => totals.totalDelay (1, 0)) = some 9 := by
    decide +kernel
  obtain ⟨totals, run, total⟩ := Option.map_eq_some_iff.mp computed
  refine ⟨readFile 2 1 1 (reportedLines sortedMessages), totals,
    ⟨?_, by unfold Ordered; decide +kernel⟩, run, ?_⟩
  · unfold unsortedMessages reportedLines readFile
    rw [List.map_reverse, List.map_reverse]
    exact (List.reverse_perm _).symm
  · rw [total]
    decide +kernel

end ChipletSniper.Traces
