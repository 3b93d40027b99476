import Mathlib.Logic.Function.Basic

/-!
# The recorder of a chiplet

The recorder of `syscall_modeling.cc` keeps one buffer of messages for every
opened port, and a list of the messages that belong to no opened port.  The
functions below are the parts of `connectInter`, `readMsgUntil`, `readMsg` and
`writeMsg` between two accesses to the relay.
-/

namespace ChipletSniper.Interchiplet

structure SMsg where
  srcAddr : Int
  srcPort : Int
  desAddr : Int
  desPort : Int
  datum : Int
deriving DecidableEq

structure SConnection where
  localAddr : Int
  localPort : Int
  remoteAddr : Int
  remotePort : Int
  msgs : List SMsg
deriving DecidableEq

def isCorrectMsg (conn : SConnection) (msg : SMsg) : Bool :=
  conn.localAddr == msg.desAddr &&
    conn.localPort == msg.desPort &&
    conn.remoteAddr == msg.srcAddr &&
    conn.remotePort == msg.srcPort

/-- The variables `subnetId`, `bufMap` and `notClassifiedMsg`. -/
structure Recorder where
  subnetId : Int
  bufMap : Int → Option SConnection
  notClassifiedMsg : List SMsg

namespace Recorder

def start (subnetId : Int) : Recorder where
  subnetId := subnetId
  bufMap := fun _ => none
  notClassifiedMsg := []

/-- `connectInter` with its return value.  A new connection takes its messages
out of `notClassifiedMsg`, in their order. -/
def connectInter (recorder : Recorder)
    (localPort remoteAddr remotePort : Int) : Int × Recorder :=
  match recorder.bufMap localPort with
  | some _ => (-1, recorder)
  | none =>
      let connection : SConnection :=
        ⟨recorder.subnetId, localPort, remoteAddr, remotePort, []⟩
      let mine := isCorrectMsg connection
      (0, { recorder with
        bufMap := Function.update recorder.bufMap localPort
          (some { connection with
            msgs := recorder.notClassifiedMsg.filter mine })
        notClassifiedMsg :=
          recorder.notClassifiedMsg.filter fun msg => !mine msg })

/-- `disconnectInter` with its return value. -/
def disconnectInter (recorder : Recorder) (localPort : Int) : Int × Recorder :=
  (if (recorder.bufMap localPort).isSome then 0 else -1,
    { recorder with
      bufMap := Function.update recorder.bufMap localPort none })

/-- What `readMsgUntil` does with a message for this chiplet. -/
def classify (recorder : Recorder) (msg : SMsg) : Recorder :=
  match recorder.bufMap msg.desPort with
  | some conn =>
      if isCorrectMsg conn msg then
        { recorder with
          bufMap := Function.update recorder.bufMap msg.desPort
            (some { conn with msgs := conn.msgs ++ [msg] }) }
      else
        { recorder with
          notClassifiedMsg := recorder.notClassifiedMsg ++ [msg] }
  | none =>
      { recorder with
        notClassifiedMsg := recorder.notClassifiedMsg ++ [msg] }

/-- The last two statements of `readMsg`: `front()` and `pop_front()`.  The
front of an empty list has no value. -/
def popFront (recorder : Recorder) (localPort : Int) (conn : SConnection) :
    Option Int × Recorder :=
  (conn.msgs.head?.map SMsg.datum,
    { recorder with
      bufMap := Function.update recorder.bufMap localPort
        (some { conn with msgs := conn.msgs.tail }) })

/-- `getMsgSentFromLocalPort`; `none` is the return value `-1`. -/
def getMsgSentFromLocalPort (recorder : Recorder) (localPort datum : Int) :
    Option SMsg :=
  (recorder.bufMap localPort).map fun conn =>
    { srcAddr := recorder.subnetId
      srcPort := localPort
      desAddr := conn.remoteAddr
      desPort := conn.remotePort
      datum := datum }

end Recorder

/-! ## The messages of a connection -/

@[simp]
theorem isCorrectMsg_iff (conn : SConnection) (msg : SMsg) :
    isCorrectMsg conn msg = true ↔
      conn.localAddr = msg.desAddr ∧ conn.localPort = msg.desPort ∧
        conn.remoteAddr = msg.srcAddr ∧ conn.remotePort = msg.srcPort := by
  simp [isCorrectMsg, and_assoc]

/-- The buffer of a connection plays no part in what it accepts. -/
theorem isCorrectMsg_withMsgs (conn : SConnection) (msgs : List SMsg) :
    isCorrectMsg { conn with msgs := msgs } = isCorrectMsg conn :=
  rfl

end ChipletSniper.Interchiplet
