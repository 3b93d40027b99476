import ChipletSniper.Library.Runs
import ChipletSniper.Interchiplet.Recorder
import ChipletSniper.Traces.Combine

/-!
# The port tables of the recorder and of the simulator

A call of an application thread first updates `bufMap` of the recorder, with
the mutex of `lockInter` held, and then sends a message to the simulator,
where `runEnter` updates `des_addr_map` and writes `message_record.txt`.  The
mutex is released between the two, so that messages of different threads may
be consumed in another order than their calls.
-/

namespace ChipletSniper.Interchiplet

open Library Relation Function
open Traces (MessageLine)

/-! ## Calls -/

/-- The calls that use the tables. -/
inductive Syscall where
  | connect (localPort remoteAddr remotePort : Int)
  | disconnect (localPort : Int)
  | remoteRead (localPort : Int)
  | remoteWrite (localPort datum : Int)
deriving DecidableEq

namespace Syscall

def localPort : Syscall → Int
  | .connect localPort _ _ => localPort
  | .disconnect localPort => localPort
  | .remoteRead localPort => localPort
  | .remoteWrite localPort _ => localPort

/-- The call changes the table. -/
def changes : Syscall → Bool
  | .connect _ _ _ | .disconnect _ => true
  | .remoteRead _ | .remoteWrite _ _ => false

/-- The first word of the line that the call writes. -/
def command : Syscall → Option String
  | .remoteRead _ => some "recv"
  | .remoteWrite _ _ => some "send"
  | .connect _ _ _ | .disconnect _ => none

end Syscall

/-- What the relay does at a turn of the loop of `readMsgUntil`; when there
are no more turns, `fscanf` returns `EOF`. -/
inductive Turn where
  | sendFailed
  | message (msg : SMsg)

/-- What the relay does during a call: the turns of a read, and the result of
`sendLine` in a write. -/
structure Relay where
  turns : List Turn
  sent : Int

namespace Recorder

/-- `readMsgUntil` with its return value. -/
def readMsgUntil (localPort : Int) :
    Int → List Turn → Recorder → Int × Recorder
  | cnt, [], recorder => (cnt, recorder)
  | _, .sendFailed :: _, recorder => (-1, recorder)
  | cnt, .message msg :: rest, recorder =>
      if msg.desAddr = recorder.subnetId then
        if msg.desPort = localPort then (cnt + 1, recorder.classify msg)
        else readMsgUntil localPort (cnt + 1) rest (recorder.classify msg)
      else readMsgUntil localPort cnt rest recorder

/-- `readMsg`; `none` is the return value `-1`, and the front of an empty list
has no value. -/
def readMsg (recorder : Recorder) (localPort : Int) (turns : List Turn) :
    Option (Option Int) × Recorder :=
  match recorder.bufMap localPort with
  | none => (none, recorder)
  | some conn =>
      if conn.msgs = [] then
        let read := readMsgUntil localPort 0 turns recorder
        if read.1 ≤ 0 then (none, read.2)
        else
          match read.2.bufMap localPort with
          | none => (none, read.2)
          | some conn =>
              let front := read.2.popFront localPort conn
              (some front.1, front.2)
      else
        let front := recorder.popFront localPort conn
        (some front.1, front.2)

/-- `writeMsg`. -/
def writeMsg (recorder : Recorder) (msg : SMsg) (sent : Int) : Int :=
  match recorder.bufMap msg.srcPort with
  | none => -1
  | some _ => sent

/-- The part of `emulateSyscallFunc` with the mutex held; the first component
is `last_syscall_emulated`. -/
def emulateSyscallFunc (recorder : Recorder) (syscall : Syscall)
    (relay : Relay) : Bool × Recorder :=
  match syscall with
  | .connect localPort remoteAddr remotePort =>
      let result := recorder.connectInter localPort remoteAddr remotePort
      (result.1 == 0, result.2)
  | .disconnect localPort =>
      let result := recorder.disconnectInter localPort
      (result.1 == 0, result.2)
  | .remoteRead localPort =>
      let result := recorder.readMsg localPort relay.turns
      (result.1.isSome, result.2)
  | .remoteWrite localPort datum =>
      match recorder.getMsgSentFromLocalPort localPort datum with
      | none => (false, recorder)
      | some msg => (decide (0 < recorder.writeMsg msg relay.sent), recorder)

end Recorder

/-! ## The simulator -/

structure SPortInfo where
  localPort : Int
  remoteAddr : Int
  remotePort : Int
deriving DecidableEq

abbrev DesAddrMap := Int → Option SPortInfo

/-- What `runEnter` does with `des_addr_map`. -/
def enterTable (desAddrMap : DesAddrMap) : Syscall → DesAddrMap
  | .connect localPort remoteAddr remotePort =>
      match desAddrMap localPort with
      | none =>
          update desAddrMap localPort
            (some ⟨localPort, remoteAddr, remotePort⟩)
      | some _ => desAddrMap
  | .disconnect localPort => update desAddrMap localPort none
  | .remoteRead _ | .remoteWrite _ _ => desAddrMap

/-- The lines that `runEnter` writes. -/
def enterLines (desAddrMap : DesAddrMap) (syscall : Syscall) (core : Int)
    (time : Nat) : List MessageLine :=
  match syscall.command, desAddrMap syscall.localPort with
  | some cmd, some info =>
      [⟨cmd, syscall.localPort, info.remoteAddr, info.remotePort, core, time⟩]
  | _, _ => []

/-! ## Threads -/

/-- A call whose message has been sent.  But for the thread and the call the
fields are history: the number of the call, whether it succeeded, and the
entry of its port in `bufMap`. -/
structure Entered (Thread : Type) where
  thread : Thread
  syscall : Syscall
  number : Nat
  success : Bool
  connection : Option SPortInfo

/-- The entry of a port in `bufMap`, as far as the tables have it in common. -/
def Recorder.portInfo (recorder : Recorder) (localPort : Int) :
    Option SPortInfo :=
  (recorder.bufMap localPort).map fun conn =>
    ⟨localPort, conn.remoteAddr, conn.remotePort⟩

/-- The recorder, the simulator and the messages between them, in the order of
the calls.  Every line of `message_record.txt` is listed with the number of
its call; `calls` is history. -/
structure Tables (Thread : Type) where
  recorder : Recorder
  inFlight : List (Entered Thread)
  desAddrMap : DesAddrMap
  msgRecord : List (Nat × MessageLine)
  calls : List (Entered Thread)

/-- A step of a thread or of the simulator. -/
inductive Tables.Action (Thread : Type) where
  /-- A thread makes a call. -/
  | call (thread : Thread) (syscall : Syscall) (relay : Relay)
  /-- The message of a thread is consumed. -/
  | runEnter (thread : Thread) (core : Int) (time : Nat)

namespace Tables

variable {Thread : Type} [DecidableEq Thread]

omit [DecidableEq Thread] in
def start (subnetId : Int) : Tables Thread where
  recorder := Recorder.start subnetId
  inFlight := []
  desAddrMap := fun _ => none
  msgRecord := []
  calls := []

/-- A thread waits until its message is consumed. -/
def call (tables : Tables Thread) (thread : Thread) (syscall : Syscall)
    (relay : Relay) : Option (Tables Thread) :=
  if tables.inFlight.any fun entered => entered.thread = thread then none
  else
    let result := tables.recorder.emulateSyscallFunc syscall relay
    let entered : Entered Thread :=
      ⟨thread, syscall, tables.calls.length, result.1,
        tables.recorder.portInfo syscall.localPort⟩
    some { tables with
      recorder := result.2
      inFlight := tables.inFlight ++ [entered]
      calls := tables.calls ++ [entered] }

def runEnter (tables : Tables Thread) (thread : Thread) (core : Int)
    (time : Nat) : Option (Tables Thread) :=
  (tables.inFlight.find? fun entered => entered.thread = thread).map
    fun entered =>
      { tables with
        inFlight :=
          tables.inFlight.eraseP fun entered => entered.thread = thread
        desAddrMap := enterTable tables.desAddrMap entered.syscall
        msgRecord := tables.msgRecord ++
          (enterLines tables.desAddrMap entered.syscall core time).map
            fun line => (entered.number, line) }

def step (tables : Tables Thread) : Action Thread → Option (Tables Thread)
  | .call thread syscall relay => tables.call thread syscall relay
  | .runEnter thread core time => tables.runEnter thread core time

/-- A message is consumed before the message of an earlier call only if they
are for different ports or neither changes the table. -/
def Orderly (tables : Tables Thread) : Action Thread → Prop
  | .call _ _ _ => True
  | .runEnter thread _ _ =>
      ∀ before entered after,
        tables.inFlight = before ++ entered :: after →
        entered.thread = thread →
        ∀ earlier ∈ before,
          earlier.syscall.localPort = entered.syscall.localPort →
          earlier.syscall.changes = false ∧
            entered.syscall.changes = false

/-- The states that are reached by steps that meet a condition. -/
def ReachedWhile (Condition : Tables Thread → Action Thread → Prop)
    (subnetId : Int) : Tables Thread → Prop :=
  ReflTransGen
    (fun tables next => ∃ action,
      Condition tables action ∧ tables.step action = some next)
    (start subnetId)

end Tables

/-! ## One port -/

/-- What `runEnter` does with the entry of one port. -/
def enterPort (localPort : Int) (entry : Option SPortInfo)
    (syscall : Syscall) : Option SPortInfo :=
  if syscall.localPort = localPort then
    match syscall with
    | .connect localPort remoteAddr remotePort =>
        entry.or (some ⟨localPort, remoteAddr, remotePort⟩)
    | .disconnect _ => none
    | .remoteRead _ | .remoteWrite _ _ => entry
  else entry

theorem enterPort_of_ne {localPort : Int} {entry : Option SPortInfo}
    {syscall : Syscall} (other : syscall.localPort ≠ localPort) :
    enterPort localPort entry syscall = entry :=
  if_neg other

theorem enterPort_of_same {localPort : Int} {entry : Option SPortInfo}
    {syscall : Syscall} (same : syscall.changes = false) :
    enterPort localPort entry syscall = entry := by
  unfold enterPort
  split
  · cases syscall with
    | connect | disconnect => cases same
    | remoteRead | remoteWrite => rfl
  · rfl

theorem enterTable_apply (desAddrMap : DesAddrMap) (syscall : Syscall)
    (localPort : Int) :
    enterTable desAddrMap syscall localPort =
      enterPort localPort (desAddrMap localPort) syscall := by
  unfold enterTable enterPort
  cases syscall with
  | connect port remoteAddr remotePort =>
      by_cases same : port = localPort
      · subst same
        simp only [Syscall.localPort, if_true]
        cases found : desAddrMap port with
        | none => exact update_self port _ desAddrMap
        | some info => exact found
      · simp only [Syscall.localPort, same, if_false]
        cases desAddrMap port with
        | none => exact update_of_ne (Ne.symm same) _ _
        | some info => rfl
  | disconnect port =>
      by_cases same : port = localPort
      · subst same
        simp [Syscall.localPort]
      · simp only [Syscall.localPort, same, if_false]
        exact update_of_ne (Ne.symm same) _ _
  | remoteRead | remoteWrite =>
      dsimp only
      split <;> rfl

/-- Changing the buffers of a connection. -/
theorem portInfo_update_msgs {recorder : Recorder} {port localPort : Int}
    {conn : SConnection} (found : recorder.bufMap port = some conn)
    (msgs : List SMsg) :
    Recorder.portInfo { recorder with
        bufMap := update recorder.bufMap port
          (some { conn with msgs := msgs }) } localPort =
      recorder.portInfo localPort := by
  unfold Recorder.portInfo
  dsimp only
  by_cases same : localPort = port
  · rw [same, update_self, found]
    rfl
  · rw [update_of_ne same]

theorem portInfo_classify (recorder : Recorder) (msg : SMsg)
    (localPort : Int) :
    (recorder.classify msg).portInfo localPort =
      recorder.portInfo localPort := by
  unfold Recorder.classify
  split
  case h_1 conn found =>
    split
    · exact portInfo_update_msgs found _
    · rfl
  case h_2 => rfl

theorem portInfo_readMsgUntil (localPort port : Int) (turns : List Turn) :
    ∀ (cnt : Int) (recorder : Recorder),
      (Recorder.readMsgUntil port cnt turns recorder).2.portInfo localPort =
        recorder.portInfo localPort := by
  induction turns with
  | nil => exact fun _ _ => rfl
  | cons turn rest ih =>
      intro cnt recorder
      cases turn with
      | sendFailed => rfl
      | message msg =>
          unfold Recorder.readMsgUntil
          split
          · split
            · exact portInfo_classify recorder msg localPort
            · rw [ih, portInfo_classify]
          · exact ih cnt recorder

theorem portInfo_readMsg (recorder : Recorder) (port localPort : Int)
    (turns : List Turn) :
    (recorder.readMsg port turns).2.portInfo localPort =
      recorder.portInfo localPort := by
  unfold Recorder.readMsg
  split
  case h_1 => rfl
  case h_2 conn found =>
    split
    · dsimp only
      split
      · exact portInfo_readMsgUntil localPort port turns 0 recorder
      · split
        case h_1 => exact portInfo_readMsgUntil localPort port turns 0 recorder
        case h_2 conn found =>
          exact (portInfo_update_msgs found _).trans
            (portInfo_readMsgUntil localPort port turns 0 recorder)
    · exact portInfo_update_msgs found _

/-- The recorder and the simulator treat a port alike. -/
theorem portInfo_emulate (recorder : Recorder) (syscall : Syscall)
    (relay : Relay) (localPort : Int) :
    (recorder.emulateSyscallFunc syscall relay).2.portInfo localPort =
      enterPort localPort (recorder.portInfo localPort) syscall := by
  cases syscall with
  | connect port remoteAddr remotePort =>
      unfold Recorder.emulateSyscallFunc Recorder.connectInter enterPort
        Recorder.portInfo
      by_cases same : port = localPort
      · subst same
        simp only [Syscall.localPort, if_true]
        cases found : recorder.bufMap port with
        | none => simp
        | some conn => simp [found]
      · simp only [Syscall.localPort, same, if_false]
        cases found : recorder.bufMap port with
        | none =>
            dsimp only
            rw [update_of_ne (Ne.symm same)]
        | some conn => rfl
  | disconnect port =>
      unfold Recorder.emulateSyscallFunc Recorder.disconnectInter enterPort
        Recorder.portInfo
      by_cases same : port = localPort
      · subst same
        simp [Syscall.localPort]
      · simp only [Syscall.localPort, same, if_false]
        rw [update_of_ne (Ne.symm same)]
  | remoteRead port =>
      rw [enterPort_of_same rfl]
      exact portInfo_readMsg recorder port localPort relay.turns
  | remoteWrite port datum =>
      rw [enterPort_of_same rfl]
      unfold Recorder.emulateSyscallFunc
      dsimp only
      split <;> rfl

/-- A read or write succeeds on an open port only. -/
theorem portInfo_of_success {recorder : Recorder} {syscall : Syscall}
    {relay : Relay} (reads : syscall.changes = false)
    (success : (recorder.emulateSyscallFunc syscall relay).1 = true) :
    ∃ info, recorder.portInfo syscall.localPort = some info := by
  unfold Recorder.portInfo
  cases syscall with
  | connect | disconnect => cases reads
  | remoteRead port =>
      simp only [Recorder.emulateSyscallFunc, Recorder.readMsg] at success
      cases found : recorder.bufMap port with
      | none => simp [found] at success
      | some conn =>
          exact ⟨⟨port, conn.remoteAddr, conn.remotePort⟩,
            by simp [Syscall.localPort, found]⟩
  | remoteWrite port datum =>
      simp only [Recorder.emulateSyscallFunc,
        Recorder.getMsgSentFromLocalPort] at success
      cases found : recorder.bufMap port with
      | none => simp [found] at success
      | some conn =>
          exact ⟨⟨port, conn.remoteAddr, conn.remotePort⟩,
            by simp [Syscall.localPort, found]⟩

section Messages

variable {Thread : Type}

/-- The entry of a port after some messages. -/
def enterAll (localPort : Int) (entry : Option SPortInfo)
    (messages : List (Entered Thread)) : Option SPortInfo :=
  messages.foldl
    (fun entry entered => enterPort localPort entry entered.syscall) entry

@[simp]
theorem enterAll_nil (localPort : Int) (entry : Option SPortInfo) :
    enterAll localPort entry ([] : List (Entered Thread)) = entry :=
  rfl

theorem enterAll_append (localPort : Int) (entry : Option SPortInfo)
    (before after : List (Entered Thread)) :
    enterAll localPort entry (before ++ after) =
      enterAll localPort (enterAll localPort entry before) after :=
  List.foldl_append

theorem enterAll_cons (localPort : Int) (entry : Option SPortInfo)
    (entered : Entered Thread) (after : List (Entered Thread)) :
    enterAll localPort entry (entered :: after) =
      enterAll localPort (enterPort localPort entry entered.syscall) after :=
  rfl

/-- Messages that do not change a port. -/
theorem enterAll_eq_self {localPort : Int} {messages : List (Entered Thread)}
    (same : ∀ entered ∈ messages,
      entered.syscall.localPort = localPort →
        entered.syscall.changes = false)
    (entry : Option SPortInfo) :
    enterAll localPort entry messages = entry := by
  refine foldl_fixed fun entered mem => ?_
  by_cases port : entered.syscall.localPort = localPort
  · exact enterPort_of_same (same entered mem port)
  · exact enterPort_of_ne port

/-- A message that may overtake the messages of a list. -/
def Overtakes (entered : Entered Thread)
    (before : List (Entered Thread)) : Prop :=
  ∀ earlier ∈ before,
    earlier.syscall.localPort = entered.syscall.localPort →
    earlier.syscall.changes = false ∧ entered.syscall.changes = false

/-- Overtaking does not change the outcome. -/
theorem enterAll_overtake {entered : Entered Thread}
    {before : List (Entered Thread)} (overtakes : Overtakes entered before)
    (localPort : Int) (entry : Option SPortInfo) :
    enterAll localPort entry (before ++ [entered]) =
      enterAll localPort (enterPort localPort entry entered.syscall)
        before := by
  rw [enterAll_append, enterAll_cons, enterAll_nil]
  by_cases changed : entered.syscall.localPort = localPort ∧
      entered.syscall.changes = true
  · obtain ⟨rfl, changes⟩ := changed
    have others : ∀ earlier ∈ before,
        earlier.syscall.localPort = entered.syscall.localPort →
          earlier.syscall.changes = false :=
      fun earlier mem port => (overtakes earlier mem port).1
    rw [enterAll_eq_self others, enterAll_eq_self others]
  · have fixed : ∀ entry,
        enterPort localPort entry entered.syscall = entry := by
      intro entry
      by_cases port : entered.syscall.localPort = localPort
      · exact enterPort_of_same (by simpa [port] using changed)
      · exact enterPort_of_ne port
    rw [fixed, fixed]

end Messages

/-! ## The invariant -/

namespace Tables

variable {Thread : Type}

/-- The messages in flight explain the difference of the tables, every call
has seen the table of the simulator after the messages before it, and the
lines of a consumed message are those of its connection. -/
structure Agreement (tables : Tables Thread) : Prop where
  ports : ∀ localPort,
    enterAll localPort (tables.desAddrMap localPort) tables.inFlight =
      tables.recorder.portInfo localPort
  seen : ∀ before entered after,
    tables.inFlight = before ++ entered :: after →
      entered.connection =
        enterAll entered.syscall.localPort
          (tables.desAddrMap entered.syscall.localPort) before
  numbered : tables.calls.map Entered.number = List.range tables.calls.length
  pending : tables.inFlight.Sublist tables.calls
  opened : ∀ entered ∈ tables.calls,
    entered.syscall.changes = false → entered.success = true →
      ∃ info, entered.connection = some info
  known : ∀ line ∈ tables.msgRecord, line.1 < tables.calls.length
  unwritten : ∀ entered ∈ tables.inFlight,
    tables.msgRecord.filter (fun line => line.1 = entered.number) = []
  written : ∀ entered ∈ tables.calls, entered ∉ tables.inFlight →
    ∃ core time,
      tables.msgRecord.filter (fun line => line.1 = entered.number) =
        (enterLines (fun _ => entered.connection) entered.syscall core
          time).map fun line => (entered.number, line)

theorem agreement_start (subnetId : Int) :
    Agreement (start subnetId : Tables Thread) where
  ports := fun _ => rfl
  seen := fun before entered after split => by
    simp [start] at split
  numbered := rfl
  pending := List.Sublist.refl _
  opened := fun entered mem => by simp [start] at mem
  known := fun line mem => by simp [start] at mem
  unwritten := fun entered mem => by simp [start] at mem
  written := fun entered mem => by simp [start] at mem

/-- Calls with the same number are the same. -/
theorem Agreement.number_inj {tables : Tables Thread}
    (agreement : Agreement tables) {first second : Entered Thread}
    (mem : first ∈ tables.calls) (mem' : second ∈ tables.calls)
    (same : first.number = second.number) :
    first = second := by
  refine List.inj_on_of_nodup_map ?_ mem mem' same
  rw [agreement.numbered]
  exact List.nodup_range

theorem Agreement.number_lt {tables : Tables Thread}
    (agreement : Agreement tables) {entered : Entered Thread}
    (mem : entered ∈ tables.calls) :
    entered.number < tables.calls.length := by
  have mapped := List.mem_map_of_mem (f := Entered.number) mem
  rw [agreement.numbered] at mapped
  exact List.mem_range.mp mapped

/-- What a call appends. -/
theorem agreement_call [DecidableEq Thread] {tables next : Tables Thread}
    (agreement : Agreement tables) {thread : Thread} {syscall : Syscall}
    {relay : Relay} (called : tables.call thread syscall relay = some next) :
    Agreement next := by
  unfold call at called
  split at called
  · cases called
  · obtain rfl := Option.some.inj called
    let result := tables.recorder.emulateSyscallFunc syscall relay
    set last : Entered Thread :=
      ⟨thread, syscall, tables.calls.length, result.1,
        tables.recorder.portInfo syscall.localPort⟩ with lastEq
    constructor
    case ports =>
      intro localPort
      dsimp only
      rw [enterAll_append, agreement.ports, enterAll_cons, enterAll_nil,
        portInfo_emulate]
    case seen =>
      intro before entered after split
      rcases List.eq_nil_or_concat' after with rfl | ⟨rest, end', rfl⟩
      · obtain ⟨rfl, same⟩ := List.append_inj' split rfl
        obtain rfl := List.singleton_inj.mp same
        exact (agreement.ports syscall.localPort).symm
      · have longer : tables.inFlight ++ [last] =
            (before ++ entered :: rest) ++ [end'] := by
          simpa using split
        exact agreement.seen before entered rest
          (List.append_inj' longer rfl).1
    case numbered =>
      dsimp only
      rw [List.map_append, agreement.numbered, List.length_append,
        List.length_singleton, List.range_succ]
      rfl
    case pending =>
      exact agreement.pending.append_right [last]
    case opened =>
      intro entered mem reads success
      rcases List.mem_append.mp mem with old | new
      · exact agreement.opened entered old reads success
      · obtain rfl := List.mem_singleton.mp new
        exact portInfo_of_success reads success
    case known =>
      intro line mem
      have := agreement.known line mem
      simp only [List.length_append, List.length_singleton]
      omega
    case unwritten =>
      intro entered mem
      rcases List.mem_append.mp mem with old | new
      · exact agreement.unwritten entered old
      · obtain rfl := List.mem_singleton.mp new
        refine List.filter_eq_nil_iff.mpr fun line lineMem same => ?_
        have := agreement.known line lineMem
        simp only [lastEq, decide_eq_true_eq] at same
        omega
    case written =>
      intro entered mem absent
      rcases List.mem_append.mp mem with old | new
      · exact agreement.written entered old fun inside =>
          absent (List.mem_append_left _ inside)
      · exact absurd (List.mem_append_right _ new) absent

/-- What a consumed message leaves behind. -/
theorem runEnter_cases [DecidableEq Thread] {tables next : Tables Thread}
    {thread : Thread} {core : Int} {time : Nat}
    (entering : tables.runEnter thread core time = some next) :
    ∃ before entered after,
      tables.inFlight = before ++ entered :: after ∧
      entered.thread = thread ∧
      next = { tables with
        inFlight := before ++ after
        desAddrMap := enterTable tables.desAddrMap entered.syscall
        msgRecord := tables.msgRecord ++
          (enterLines tables.desAddrMap entered.syscall core time).map
            fun line => (entered.number, line) } := by
  obtain ⟨entered, found, rfl⟩ := Option.map_eq_some_iff.mp entering
  obtain ⟨own, before, after, split, others⟩ :=
    List.find?_eq_some_iff_append.mp found
  refine ⟨before, entered, after, split, by simpa using own, ?_⟩
  have erased : tables.inFlight.eraseP
      (fun entered => decide (entered.thread = thread)) = before ++ after := by
    rw [split, List.eraseP_append_right _ (by simpa using others),
      List.eraseP_cons_of_pos (p := fun entered : Entered Thread =>
        decide (entered.thread = thread)) own]
  rw [erased]

/-- The table of the simulator at a message that overtakes. -/
theorem Agreement.connection_eq {tables : Tables Thread}
    (agreement : Agreement tables) {entered : Entered Thread}
    {before after : List (Entered Thread)}
    (split : tables.inFlight = before ++ entered :: after)
    (overtakes : Overtakes entered before) :
    entered.connection = tables.desAddrMap entered.syscall.localPort := by
  rw [agreement.seen before entered after split]
  exact enterAll_eq_self
    (fun earlier mem port => (overtakes earlier mem port).1) _

/-- The entries that the later messages have seen. -/
theorem Agreement.seen_runEnter {tables : Tables Thread}
    (agreement : Agreement tables) {entered : Entered Thread}
    {before after : List (Entered Thread)}
    (split : tables.inFlight = before ++ entered :: after)
    (overtakes : Overtakes entered before)
    {earlier later : List (Entered Thread)} {other : Entered Thread}
    (rest : before ++ after = earlier ++ other :: later) :
    other.connection =
      enterAll other.syscall.localPort
        (enterTable tables.desAddrMap entered.syscall
          other.syscall.localPort) earlier := by
  rw [enterTable_apply]
  rcases List.append_eq_append_iff.mp rest with
    ⟨middle, rfl, afterEq⟩ | ⟨middle, beforeEq, laterEq⟩
  · have position : tables.inFlight =
        (before ++ entered :: middle) ++ other :: later := by
      rw [split, afterEq, List.append_assoc, List.cons_append]
    rw [agreement.seen _ other later position, enterAll_append, enterAll_append,
      ← enterAll_overtake overtakes, enterAll_append]
    rfl
  · rcases List.append_eq_cons_iff.mp laterEq.symm with
      ⟨rfl, afterEq⟩ | ⟨kept, rfl, laterEq⟩
    · have position : tables.inFlight =
          (before ++ [entered]) ++ other :: later := by
        rw [split, ← afterEq, List.append_assoc]
        rfl
      rw [agreement.seen _ other later position, enterAll_overtake overtakes,
        beforeEq, List.append_nil]
    · have position : tables.inFlight =
          earlier ++ other :: (kept ++ entered :: after) := by
        rw [split, beforeEq, List.append_assoc]
        rfl
      rw [agreement.seen earlier other _ position]
      have member : other ∈ before := by simp [beforeEq]
      by_cases port : entered.syscall.localPort = other.syscall.localPort
      · rw [enterPort_of_same (overtakes other member port.symm).2]
      · rw [enterPort_of_ne port]

theorem agreement_runEnter [DecidableEq Thread] {tables next : Tables Thread}
    (agreement : Agreement tables) {thread : Thread} {core : Int} {time : Nat}
    (orderly : Orderly tables (.runEnter thread core time))
    (entering : tables.runEnter thread core time = some next) :
    Agreement next := by
  obtain ⟨before, entered, after, split, own, rfl⟩ := runEnter_cases entering
  have overtakes : Overtakes entered before :=
    orderly before entered after split own
  have pending := agreement.pending
  rw [split] at pending
  have called : entered ∈ tables.calls := pending.subset (by simp)
  have distinct : (before ++ entered :: after).Nodup := by
    refine pending.nodup (List.Nodup.of_map Entered.number ?_)
    rw [agreement.numbered]
    exact List.nodup_range
  have absent : entered ∉ before ++ after :=
    (List.nodup_middle.mp distinct).notMem
  have others : ∀ other ∈ tables.calls, other ≠ entered →
      ((enterLines tables.desAddrMap entered.syscall core time).map
        fun line => (entered.number, line)).filter
          (fun line => line.1 = other.number) = [] := by
    intro other mem different
    refine List.filter_eq_nil_iff.mpr fun line lineMem same => ?_
    obtain ⟨_, _, rfl⟩ := List.mem_map.mp lineMem
    exact different
      (agreement.number_inj called mem (by simpa using same)).symm
  have kept : (before ++ after).Sublist (before ++ entered :: after) :=
    (List.Sublist.refl before).append (List.sublist_cons_self entered after)
  constructor
  case ports =>
    intro localPort
    dsimp only
    rw [enterTable_apply, enterAll_append, ← enterAll_overtake overtakes,
      ← enterAll_append, ← agreement.ports, split]
    simp
  case seen =>
    intro earlier other later rest
    exact agreement.seen_runEnter split overtakes rest
  case numbered => exact agreement.numbered
  case pending => exact kept.trans pending
  case opened => exact agreement.opened
  case known =>
    intro line mem
    rcases List.mem_append.mp mem with old | new
    · exact agreement.known line old
    · obtain ⟨_, _, rfl⟩ := List.mem_map.mp new
      exact agreement.number_lt called
  case unwritten =>
    intro other mem
    have different : other ≠ entered := by
      rintro rfl
      exact absent mem
    have member : other ∈ tables.inFlight := by
      rw [split]
      exact kept.subset mem
    dsimp only
    rw [List.filter_append, agreement.unwritten other member,
      others other (agreement.pending.subset member) different]
    rfl
  case written =>
    intro other mem gone
    dsimp only
    rw [List.filter_append]
    by_cases same : other = entered
    · subst same
      refine ⟨core, time, ?_⟩
      rw [agreement.unwritten other (by simp [split]), List.nil_append,
        List.filter_eq_self.mpr, enterLines, enterLines,
        agreement.connection_eq split overtakes]
      intro line lineMem
      obtain ⟨_, _, rfl⟩ := List.mem_map.mp lineMem
      simp
    · have outside : other ∉ tables.inFlight := by
        rw [split]
        intro inside
        refine gone ?_
        rcases List.mem_append.mp inside with left | right
        · exact List.mem_append_left _ left
        · exact List.mem_append_right _
            ((List.mem_cons.mp right).resolve_left same)
      rw [others other mem same, List.append_nil]
      exact agreement.written other mem outside

/-- The invariant along a run. -/
theorem agreement_of_reachedWhile [DecidableEq Thread] {subnetId : Int}
    {tables : Tables Thread} (reached : ReachedWhile Orderly subnetId tables) :
    Agreement tables := by
  refine invariant_of_reflTransGen Agreement ?_ (agreement_start subnetId)
    reached
  rintro tables next agreement ⟨action, orderly, stepped⟩
  cases action with
  | call thread syscall relay => exact agreement_call agreement stepped
  | runEnter thread core time =>
      exact agreement_runEnter agreement orderly stepped

/-! ## Agreement of the tables -/

/-- The tables agree, and every successful read or write has its line. -/
def InStep (tables : Tables Thread) : Prop :=
  (∀ localPort,
    tables.desAddrMap localPort = tables.recorder.portInfo localPort) ∧
  ∀ entered ∈ tables.calls, ∀ cmd,
    entered.syscall.command = some cmd → entered.success = true →
    ∃ info core time,
      entered.connection = some info ∧
      tables.msgRecord.filter (fun line => line.1 = entered.number) =
        [(entered.number,
          ⟨cmd, entered.syscall.localPort, info.remoteAddr, info.remotePort,
            core, time⟩)]

/-- When messages for one port do not overtake each other, the tables agree
whenever all messages have been consumed. -/
theorem tables_agree [DecidableEq Thread] {subnetId : Int}
    {tables : Tables Thread} (reached : ReachedWhile Orderly subnetId tables)
    (consumed : tables.inFlight = []) :
    InStep tables := by
  have agreement := agreement_of_reachedWhile reached
  constructor
  · intro localPort
    have ports := agreement.ports localPort
    rwa [consumed, enterAll_nil] at ports
  · intro entered mem cmd command success
    have reads : entered.syscall.changes = false := by
      cases same : entered.syscall with
      | connect | disconnect => simp [same, Syscall.command] at command
      | remoteRead | remoteWrite => rfl
    obtain ⟨info, connection⟩ := agreement.opened entered mem reads success
    obtain ⟨core, time, lines⟩ :=
      agreement.written entered mem (by simp [consumed])
    refine ⟨info, core, time, connection, ?_⟩
    rw [lines]
    simp [enterLines, command, connection]

section Runs

variable [DecidableEq Thread]

/-- A run while the messages in flight are for different ports. -/
def runApart (tables : Tables Thread) (actions : List (Action Thread)) :
    Option (Tables Thread) :=
  actions.foldlM
    (fun tables action =>
      if (tables.inFlight.map (·.syscall.localPort)).Nodup then
        tables.step action
      else none)
    tables

theorem reachedWhile_of_runApart {subnetId : Int}
    {actions : List (Action Thread)} {tables : Tables Thread}
    (run : (start subnetId).runApart actions = some tables) :
    ReachedWhile Orderly subnetId tables := by
  refine reflTransGen_of_foldlM (fun tables action next stepped => ?_) run
  split at stepped
  case isFalse => cases stepped
  case isTrue apart =>
    refine ⟨action, ?_, stepped⟩
    cases action with
    | call => trivial
    | runEnter thread core time =>
        intro before entered after split own earlier mem same
        rw [split, List.map_append, List.map_cons] at apart
        exact absurd same ((List.nodup_append.mp apart).2.2 _
          (List.mem_map_of_mem mem) _ List.mem_cons_self)

end Runs

/-- Two threads connect a port each and then write to it. Both times the message
of the second thread overtakes the other one. -/
theorem tables_agree_connect_write :
    ∃ tables : Tables Bool,
      ReachedWhile Orderly 0 tables ∧ tables.inFlight = [] ∧
      tables.calls.map Entered.success = [true, true, true, true] ∧
      tables.msgRecord.map (·.2.t) = [30, 40] ∧
      InStep tables := by
  have run : ∃ tables : Tables Bool,
      (start 0).runApart
        [.call false (.connect 1 5 6) ⟨[], 0⟩,
          .call true (.connect 2 5 7) ⟨[], 0⟩,
          .runEnter true 1 10, .runEnter false 0 20,
          .call false (.remoteWrite 1 42) ⟨[], 3⟩,
          .call true (.remoteWrite 2 43) ⟨[], 3⟩,
          .runEnter true 1 30, .runEnter false 0 40] = some tables ∧
      tables.inFlight = [] ∧
      tables.calls.map Entered.success = [true, true, true, true] ∧
      tables.msgRecord.map (·.2.t) = [30, 40] :=
    ⟨_, rfl, rfl, rfl, rfl⟩
  obtain ⟨tables, run, consumed, successes, lines⟩ := run
  have reached := reachedWhile_of_runApart run
  exact ⟨tables, reached, consumed, successes, lines,
    tables_agree reached consumed⟩

/-- Two threads connect the same port, and the message of the call that fails
is consumed first. -/
theorem tables_differ :
    ∃ tables : Tables Bool,
      ReachedWhile (fun _ _ => True) 0 tables ∧ tables.inFlight = [] ∧
      ¬ InStep tables := by
  have run : ∃ tables : Tables Bool,
      [Action.call false (.connect 1 5 6) ⟨[], 0⟩,
        .call true (.connect 1 7 8) ⟨[], 0⟩, .runEnter true 1 10,
        .runEnter false 0 10].foldlM step (start 0) = some tables ∧
      tables.inFlight = [] ∧
      tables.desAddrMap 1 = some ⟨1, 7, 8⟩ ∧
      tables.recorder.portInfo 1 = some ⟨1, 5, 6⟩ :=
    ⟨_, rfl, rfl, rfl, rfl⟩
  obtain ⟨tables, run, consumed, simulator, recorder⟩ := run
  refine ⟨tables, ?_, consumed, fun agree => ?_⟩
  · exact reflTransGen_of_foldlM
      (fun _ action _ stepped => ⟨action, trivial, stepped⟩) run
  · have same := agree.1 1
    rw [simulator, recorder] at same
    exact absurd same (by decide)

end Tables

end ChipletSniper.Interchiplet
