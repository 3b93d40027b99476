import Mathlib.Data.List.TakeWhile
import Mathlib.Logic.Function.Basic
import ChipletSniper.Interchiplet.Text

/-!
# The interchiplet hub

`run()` of `interchiplet.cpp` polls one pair socket per subnet and handles one
line at a time.  A `recv` line asks for the next message addressed to the
subnet that sent it, a `send` line carries such a message.  Requests that
arrive before a message are counted in `reading`, messages that arrive before
a request wait in `routerBuf`.
-/

namespace ChipletSniper.Interchiplet

/-- `MSG_LEN`. -/
def msgLen : Nat := 1024

/-- The text of `readMsg`: the frame is copied into a zeroed buffer and read
back as a C string. -/
def readMsg (frame : Text) : Text :=
  cString frame

/-- The frame `writeMsg` hands to the socket: at most `MSG_LEN` bytes are
copied into a zeroed buffer, of which `str.size() + 1` bytes are sent. -/
def writeMsg (str : Text) : Text :=
  (str.take msgLen ++
    List.replicate (msgLen + 1 - str.length) '\x00').take (str.length + 1)

/-- The variables of `run()` that its branches work on, with the frames
written to each socket so far.  `reading` holds `unsigned` values and the
counters are `size_t`.  A queued `Payload` is written as a `Frame`. -/
structure Hub (Payload Frame : Type) where
  routerBuf : Nat → List Payload
  reading : Nat → UInt32
  forwardCnt : UInt64
  getRecvCnt : UInt64
  getSendCnt : UInt64
  written : Nat → List Frame

namespace Hub

variable {Payload Frame : Type}

/-- The state in which the `while (running)` loop starts. -/
def start : Hub Payload Frame where
  routerBuf := fun _ => []
  reading := fun _ => 0
  forwardCnt := 0
  getRecvCnt := 0
  getSendCnt := 0
  written := fun _ => []

section Branches

variable (encode : Payload → Frame) (hub : Hub Payload Frame)

/-- `writeMsg(*(zmqSocketArray[i]), payload)` followed by `forwardCnt++`. -/
def forward (i : Nat) (payload : Payload) : Hub Payload Frame :=
  { hub with
    written :=
      Function.update hub.written i (hub.written i ++ [encode payload])
    forwardCnt := hub.forwardCnt + 1 }

/-- The `recv` branch. -/
def onRecv (i : Nat) : Hub Payload Frame :=
  match hub.routerBuf i with
  | [] =>
      { hub with
        reading := Function.update hub.reading i (hub.reading i + 1)
        getRecvCnt := hub.getRecvCnt + 1 }
  | front :: rest =>
      { hub.forward encode i front with
        routerBuf := Function.update hub.routerBuf i rest
        getRecvCnt := hub.getRecvCnt + 1 }

/-- The `send` branch for a payload whose destination is `desAddr`. -/
def onSend (subnetCount : UInt16) (desAddr : Int) (payload : Payload) :
    Hub Payload Frame :=
  if 0 ≤ desAddr ∧ desAddr < subnetCount.toNat then
    let des := desAddr.toNat
    if hub.reading des = 0 then
      { hub with
        routerBuf :=
          Function.update hub.routerBuf des (hub.routerBuf des ++ [payload])
        getSendCnt := hub.getSendCnt + 1 }
    else
      { hub.forward encode des payload with
        reading := Function.update hub.reading des (hub.reading des - 1)
        getSendCnt := hub.getSendCnt + 1 }
  else
    { hub with getSendCnt := hub.getSendCnt + 1 }

end Branches

end Hub

/-! ## Frames -/

/-- `readMsg` with its buffer of `MSG_LEN + 1` zero bytes: `none` when the
copy runs past the buffer or leaves no zero in it. -/
def readFrame (frame : Text) : Option Text :=
  let t := frame ++ List.replicate (msgLen + 1 - frame.length) '\x00'
  if frame.length ≤ msgLen + 1 ∧ '\x00' ∈ t then some (cString t) else none

/-- The frame and a zero byte fit the buffer. -/
def Fits (frame : Text) : Prop :=
  frame.length ≤ msgLen ∨ (frame.length = msgLen + 1 ∧ '\x00' ∈ frame)

instance (frame : Text) : Decidable (Fits frame) :=
  inferInstanceAs (Decidable (_ ∨ _))

theorem cString_append_zeros (frame : Text) (count : Nat) :
    cString (frame ++ List.replicate count '\x00') = cString frame := by
  unfold cString
  induction frame with
  | nil => cases count <;> simp [List.replicate_succ]
  | cons head tail ih =>
      simp only [List.cons_append, List.takeWhile_cons, ih]

theorem cString_cString (text : Text) : cString (cString text) = cString text :=
  List.takeWhile_idem

theorem readFrame_of_fits {frame : Text} (fits : Fits frame) :
    readFrame frame = some (readMsg frame) := by
  unfold readFrame
  rw [if_pos, cString_append_zeros]
  · rfl
  · rcases fits with short | ⟨full, zero⟩
    · refine ⟨by omega, ?_⟩
      simp only [List.mem_append, List.mem_replicate]
      exact Or.inr ⟨by omega, trivial⟩
    · exact ⟨by omega, List.mem_append_left _ zero⟩

theorem readFrame_of_not_fits {frame : Text} (overrun : ¬ Fits frame) :
    readFrame frame = none := by
  unfold readFrame
  rw [if_neg]
  rintro ⟨inside, zero⟩
  simp only [List.mem_append, List.mem_replicate] at zero
  rcases zero with zero | ⟨space, _⟩
  · by_cases short : frame.length ≤ msgLen
    · exact overrun (Or.inl short)
    · exact overrun (Or.inr ⟨by omega, zero⟩)
  · exact overrun (Or.inl (by omega))

/-! ## The loop on text -/

/-- A queued line is written with a newline. -/
def lineFrame (line : Text) : Text :=
  writeMsg (line ++ ['\n'])

/-- The loop of `run()`: the hub and the variable `cmd`, which lives outside
the loop. -/
structure Loop where
  hub : Hub Text Text
  cmd : Text

namespace Loop

def start : Loop where
  hub := Hub.start
  cmd := []

/-- One message of subnet `i` handled by the loop.  A line of blanks leaves
the previous command in `cmd`.  `none` is the uncaught exception of
`stol`. -/
def handle (loop : Loop) (subnetCount : UInt16) (i : Nat) (frame : Text) :
    Option Loop :=
  let read := (extractWord (readMsg frame ++ ['\n'])).getD (loop.cmd, [])
  if read.1 = ['r', 'e', 'c', 'v'] then
    some ⟨loop.hub.onRecv lineFrame i, read.1⟩
  else if read.1 = ['s', 'e', 'n', 'd'] then
    (stol (getline read.2)).map fun desAddr =>
      ⟨loop.hub.onSend lineFrame subnetCount desAddr (getline read.2), read.1⟩
  else
    some ⟨loop.hub, read.1⟩

/-- The body of the loop of `run()` for a frame of subnet `i`. -/
def iteration (loop : Loop) (subnetCount : UInt16) (i : Nat) (frame : Text) :
    Option Loop :=
  (readFrame frame).bind fun str => loop.handle subnetCount i str

theorem iteration_of_fits {loop : Loop} {subnetCount : UInt16} {i : Nat}
    {frame : Text} (fits : Fits frame) :
    loop.iteration subnetCount i frame = loop.handle subnetCount i frame := by
  have same : readMsg (readMsg frame) = readMsg frame := cString_cString frame
  unfold iteration
  rw [readFrame_of_fits fits, Option.bind_some]
  unfold handle
  rw [same]

/-- The messages the loop handles, in the order it handles them. -/
def run (subnetCount : UInt16) (loop : Loop) (handled : List (Nat × Text)) :
    Option Loop :=
  handled.foldlM
    (fun loop entry => loop.iteration subnetCount entry.1 entry.2) loop

end Loop

/-- A message as the relays write it: `recv`, or `send`, blanks, the number of
the destination and the rest of the line. -/
inductive Message where
  | recv
  | send (pad desAddr : Nat) (rest : Text)

namespace Message

/-- The part of a `send` message after the command. -/
def body (pad desAddr : Nat) (rest : Text) : Text :=
  List.replicate (pad + 1) ' ' ++ (Nat.toDigits 10 desAddr ++ ' ' :: rest)

def text : Message → Text
  | .recv => ['r', 'e', 'c', 'v']
  | .send pad desAddr rest => ['s', 'e', 'n', 'd'] ++ body pad desAddr rest

/-- The line that is delivered for a `send` message. -/
def payload (pad desAddr : Nat) (rest : Text) : Text :=
  getline (cString (body pad desAddr rest))

end Message

/-- One handled message with the subnet it came from. -/
structure Request where
  subnet : Nat
  message : Message

/-- The subnet exists and a `send` names an existing destination. -/
def Request.Valid (subnetCount : UInt16) (request : Request) : Prop :=
  request.subnet < subnetCount.toNat ∧
    ∀ pad desAddr rest, request.message = .send pad desAddr rest →
      desAddr < subnetCount.toNat

/-- The frames the loop sees for a list of requests. -/
def frames (requests : List Request) : List (Nat × Text) :=
  requests.map fun request => (request.subnet, request.message.text)

/-- The payload of a request that is addressed to subnet `i`. -/
def Request.payloadTo (i : Nat) (request : Request) : Option Text :=
  match request.message with
  | .recv => none
  | .send pad desAddr rest =>
      if desAddr = i then some (Message.payload pad desAddr rest) else none

/-- The payloads addressed to subnet `i`, in the order they were handled. -/
def addressedTo (i : Nat) (requests : List Request) : List Text :=
  requests.filterMap (Request.payloadTo i)

/-- The request is a `recv` of subnet `i`. -/
def Request.isRecvOf (i : Nat) (request : Request) : Bool :=
  match request.message with
  | .recv => request.subnet == i
  | .send _ _ _ => false

/-- How many `recv` messages of subnet `i` were handled. -/
def recvCount (i : Nat) (requests : List Request) : Nat :=
  requests.countP (Request.isRecvOf i)

end ChipletSniper.Interchiplet
