import ChipletSniper.Library.Runs
import ChipletSniper.Interchiplet.Hub
import ChipletSniper.Interchiplet.Recorder

/-!
# Chiplets, relays and the hub as one system

Every chiplet has a recorder, whose calls hold a mutex, and a relay process
(`zmq_pro`).  A call writes lines to its relay and waits for the answers; the
relay passes lines to the hub and answers with `send_ret` or with the next
message of the hub.  The four channels of a chiplet are queues, and every step
of a recorder, of a relay or of the hub is an action of the system.
-/

namespace ChipletSniper.Interchiplet

/-- A line on its way to the hub. -/
inductive Line where
  | recv
  | send (msg : SMsg)
deriving DecidableEq

/-- A line on its way from the relay to the recorder. -/
inductive Reply where
  | message (msg : SMsg)
  | sendRet
deriving DecidableEq

/-- The call that holds the mutex of a recorder. -/
inductive Call where
  | idle
  | reading (localPort : Int)
  | writing
deriving DecidableEq

/-- A chiplet with the channels between its recorder, its relay and the hub.
The socket from the hub holds the messages the hub has written, less the first
`taken`.  The histories record every message that `writeMsg` sent, every
message that was fetched, and the data that the successful calls of `readMsg`
returned on each port. -/
structure Chiplet where
  recorder : Recorder
  call : Call
  toRelay : List Line
  relayWaiting : Bool
  toHub : List Line
  taken : Nat
  toRecorder : List Reply
  sent : List SMsg
  fetched : List SMsg
  returned : Int → List (Option Int)

namespace Chiplet

def start (subnetId : Int) : Chiplet where
  recorder := Recorder.start subnetId
  call := .idle
  toRelay := []
  relayWaiting := false
  toHub := []
  taken := 0
  toRecorder := []
  sent := []
  fetched := []
  returned := fun _ => []

/-- The end of a successful `readMsg` on a port. -/
def finishRead (chiplet : Chiplet) (localPort : Int) (conn : SConnection) :
    Chiplet :=
  let front := chiplet.recorder.popFront localPort conn
  { chiplet with
    recorder := front.2
    call := .idle
    returned := Function.update chiplet.returned localPort
      (chiplet.returned localPort ++ [front.1]) }

def openPort (chiplet : Chiplet) (localPort remoteAddr remotePort : Int) :
    Option Chiplet :=
  if chiplet.call = .idle then
    some { chiplet with
      recorder :=
        (chiplet.recorder.connectInter localPort remoteAddr remotePort).2 }
  else none

/-- `getMsgSentFromLocalPort` and the first half of `writeMsg`. -/
def sendMessage (chiplet : Chiplet) (localPort datum : Int) :
    Option Chiplet :=
  if chiplet.call = .idle then
    match chiplet.recorder.getMsgSentFromLocalPort localPort datum with
    | none => some chiplet
    | some msg =>
        some { chiplet with
          call := .writing
          toRelay := chiplet.toRelay ++ [.send msg]
          sent := chiplet.sent ++ [msg] }
  else none

/-- `readMsg` up to its first wait. -/
def receiveMessage (chiplet : Chiplet) (localPort : Int) : Option Chiplet :=
  if chiplet.call = .idle then
    match chiplet.recorder.bufMap localPort with
    | none => some chiplet
    | some conn =>
        if conn.msgs = [] then
          some { chiplet with
            call := .reading localPort
            toRelay := chiplet.toRelay ++ [.recv] }
        else
          some (chiplet.finishRead localPort conn)
  else none

/-- The second half of `writeMsg`. -/
def finishWrite (chiplet : Chiplet) : Option Chiplet :=
  match chiplet.call, chiplet.toRecorder with
  | .writing, .sendRet :: rest =>
      some { chiplet with call := .idle, toRecorder := rest }
  | _, _ => none

/-- A turn of the loop of `readMsgUntil`.  A message for the port that is read
ends the loop, and with it the call of `readMsg`. -/
def fetch (chiplet : Chiplet) : Option Chiplet :=
  match chiplet.call, chiplet.toRecorder with
  | .reading localPort, .message msg :: rest =>
      let read : Chiplet :=
        { chiplet with
          toRecorder := rest
          fetched := chiplet.fetched ++ [msg] }
      if msg.desAddr = chiplet.recorder.subnetId then
        let recorder := chiplet.recorder.classify msg
        if msg.desPort = localPort then
          (recorder.bufMap localPort).map fun conn =>
            Chiplet.finishRead { read with recorder := recorder }
              localPort conn
        else
          some { read with
            recorder := recorder
            toRelay := chiplet.toRelay ++ [.recv] }
      else some read
  | _, _ => none

/-- The relay takes a line of its recorder. -/
def relayLine (chiplet : Chiplet) : Option Chiplet :=
  match chiplet.relayWaiting, chiplet.toRelay with
  | false, .send msg :: rest =>
      some { chiplet with
        toRelay := rest
        toHub := chiplet.toHub ++ [.send msg]
        toRecorder := chiplet.toRecorder ++ [.sendRet] }
  | false, .recv :: rest =>
      some { chiplet with
        toRelay := rest
        toHub := chiplet.toHub ++ [.recv]
        relayWaiting := true }
  | _, _ => none

/-- The relay takes the next message of the hub. -/
def relayReply (chiplet : Chiplet) (written : List SMsg) : Option Chiplet :=
  match chiplet.relayWaiting, written.drop chiplet.taken with
  | true, msg :: _ =>
      some { chiplet with
        taken := chiplet.taken + 1
        toRecorder := chiplet.toRecorder ++ [.message msg]
        relayWaiting := false }
  | _, _ => none

end Chiplet

/-- A call of a program on a chiplet, or a step of a recorder, of a relay or
of the hub. -/
inductive Action where
  | openPort (localPort remoteAddr remotePort : Int)
  | sendMessage (localPort datum : Int)
  | receiveMessage (localPort : Int)
  | finishWrite
  | fetch
  | relayLine
  | relayReply
  | poll
deriving DecidableEq

/-- The steps that leave the hub alone.  `written` is what the hub has written
to this chiplet. -/
def Chiplet.perform (chiplet : Chiplet) (written : List SMsg) :
    Action → Option Chiplet
  | .openPort localPort remoteAddr remotePort =>
      chiplet.openPort localPort remoteAddr remotePort
  | .sendMessage localPort datum => chiplet.sendMessage localPort datum
  | .receiveMessage localPort => chiplet.receiveMessage localPort
  | .finishWrite => chiplet.finishWrite
  | .fetch => chiplet.fetch
  | .relayLine => chiplet.relayLine
  | .relayReply => chiplet.relayReply written
  | .poll => none

/-- The hub handles a line of subnet `i`. -/
def Hub.handleLine (hub : Hub SMsg SMsg) (subnetCount : UInt16) (i : Nat) :
    Line → Hub SMsg SMsg
  | .recv => hub.onRecv id i
  | .send msg => hub.onSend id subnetCount msg.desAddr msg

/-- The hub and the chiplets. -/
structure System where
  hub : Hub SMsg SMsg
  chiplet : Nat → Chiplet

namespace System

def start : System where
  hub := Hub.start
  chiplet := fun i => Chiplet.start i

/-- Replaces the state of chiplet `i`. -/
def put (system : System) (i : Nat) (chiplet : Chiplet) : System :=
  { system with chiplet := Function.update system.chiplet i chiplet }

/-- The hub handles the next line of chiplet `i`. -/
def poll (system : System) (subnetCount : UInt16) (i : Nat) :
    Option System :=
  match (system.chiplet i).toHub with
  | [] => none
  | line :: rest =>
      some
        { hub := system.hub.handleLine subnetCount i line
          chiplet := Function.update system.chiplet i
            { system.chiplet i with toHub := rest } }

/-- An action of chiplet `i`; `none` when the action has to wait. -/
def perform (system : System) (subnetCount : UInt16) (i : Nat)
    (action : Action) : Option System :=
  match action with
  | .poll => system.poll subnetCount i
  | other =>
      ((system.chiplet i).perform (system.hub.written i) other).map
        (system.put i)

/-- Some chiplet takes a step. -/
def Next (subnetCount : UInt16) (system next : System) : Prop :=
  ∃ i action, i < subnetCount.toNat ∧
    system.perform subnetCount i action = some next

/-- The run of a list of actions. -/
def run (subnetCount : UInt16) (actions : List (Nat × Action)) :
    Option System :=
  actions.foldlM
    (fun system entry =>
      if entry.1 < subnetCount.toNat then
        system.perform subnetCount entry.1 entry.2
      else none)
    System.start

theorem run_path {subnetCount : UInt16} {actions : List (Nat × Action)}
    {system : System} (reached : run subnetCount actions = some system) :
    Relation.ReflTransGen (Next subnetCount) System.start system := by
  refine Library.reflTransGen_of_foldlM ?_ reached
  rintro state ⟨i, action⟩ next step
  rw [Option.ite_none_right_eq_some] at step
  exact ⟨i, action, step.1, step.2⟩

/-- The data that `source` sent from `sourcePort` to `port` of `target`. -/
def sentData (system : System) (source : Nat) (sourcePort : Int)
    (target : Nat) (port : Int) : List Int :=
  ((system.chiplet source).sent.filter fun msg =>
    msg.srcPort == sourcePort && msg.desAddr == (target : Int) &&
      msg.desPort == port).map SMsg.datum

end System

end ChipletSniper.Interchiplet
