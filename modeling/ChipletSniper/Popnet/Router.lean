import Mathlib.Data.Nat.Basic
import Mathlib.Logic.Function.Basic
import Mathlib.Order.Lattice
import ChipletSniper.Popnet.Flit
import ChipletSniper.Popnet.Routing

/-!
# The router

A router has an input channel for every physical port and virtual channel, and
passes its flits on in five pipeline stages.  The stages are translated from
`sim_router.cc`, `sim_routing.cc` and `sim_vcarb.cc`; the power model and the
delay statistics are left out.  A failed assertion, an exception or an access
outside a vector of channels ends the computation with a `Halt`; a coordinate
that an address does not have is 0.
-/

namespace ChipletSniper.Popnet

/-! ## Time, chance and configuration -/

/-- The sums of a time and a constant that the simulator forms.  Times are
floating-point numbers: all that is used of the sums is that rounding is
monotone. -/
structure Clock (Time : Type) [LinearOrder Time] where
  /-- `getWireDelay(i) + event_time`. -/
  wire : WireDelay → Time → Time
  /-- `event_time + CREDIT_DELAY_`. -/
  credit : Time → Time
  /-- `event_start() + PIPE_DELAY_`. -/
  pipe : Time → Time
  /-- `time + S_ELPS_`. -/
  slack : Time → Time
  wire_mono : ∀ delay, Monotone (wire delay)
  le_pipe : ∀ time, time ≤ pipe time

/-- The delays of the source, in units of `S_ELPS_`. -/
def popnetClock : Clock Nat where
  wire := fun delay time =>
    match delay with
    | .short => 957000000 + time
    | .starInner => 4787210000 + time
    | .starOuter => 12447890000 + time
  credit := fun time => time + 100000000
  pipe := fun time => time + 100000000
  slack := fun time => time + 1
  wire_mono := by
    intro delay early late earlier
    cases delay <;> exact Nat.add_le_add_left earlier _
  le_pipe := fun _ => Nat.le_add_right _ _

/-- The random numbers that are still to be drawn. -/
structure Rng where
  draws : Nat → Nat
  used : Nat

/-- `flat_l(0, high)`. -/
def Rng.flatL (rng : Rng) (high : Nat) : Nat × Rng :=
  (rng.draws rng.used % high, { rng with used := rng.used + 1 })

/-- A random item of a list.  A number is drawn only if there is a choice. -/
def Rng.choose {Item : Type} (rng : Rng) : List Item → Option Item × Rng
  | [] => (none, rng)
  | [item] => (some item, rng)
  | items =>
      let draw := rng.flatL items.length
      (items[draw.1]?, draw.2)

/-- The parameters of `configuration` that the routers read.  `vc_share` is
always `SHARE_`. -/
structure Config where
  arySize : Nat
  cubeSize : Nat
  vcNumber : Nat
  bufferSize : Nat
  outbufferSize : Nat
  routingAlg : RoutingType

namespace Config

variable (config : Config)

/-- `physic_ports_`. -/
def physicPorts : Nat :=
  if config.routingAlg = .chipletStarTopoRouting then
    max (config.cubeSize * 2 + 1) (config.cubeSize * config.cubeSize) + 1
  else
    config.cubeSize * 2 + 1

/-- All channels of the ports from `first` on, in the order of the loops. -/
def channelsFrom (first : Nat) : List VC :=
  (List.range' first (config.physicPorts - first)).flatMap fun i =>
    (List.range config.vcNumber).map fun j => (i, j)

/-- All channels. -/
def channels : List VC :=
  config.channelsFrom 0

/-- The channel exists. -/
def InRange (vc : VC) : Prop :=
  vc.1 < config.physicPorts ∧ vc.2 < config.vcNumber

instance (vc : VC) : Decidable (config.InRange vc) := by
  unfold InRange
  infer_instance

end Config

/-- Why a computation ends. -/
inductive Halt where
  /-- `Sassert` of `get_flit` and of `flit_outbuffer`: no flit. -/
  | noFlit
  /-- `Sassert(isHeader(flit_t.type()))` of `routing_decision`. -/
  | notHeader
  /-- `Sassert(!isHeader(flit_t.type()))` of `routing_decision`. -/
  | headerAtHome
  /-- `Sassert(r_size_t > 0)` of `vc_selection`. -/
  | noCandidate
  /-- `throw WRONG_ADDRESS`. -/
  | wrongAddress
  /-- An index outside its vector. -/
  | outOfRange
  /-- `Sassert(!inFile_.eof())`. -/
  | endOfTrace
  /-- `Sassert` of `simulator`: the event lies in the past. -/
  | pastEvent
  /-- The loop of `simulator` is left. -/
  | finished
  deriving DecidableEq, Repr

/-! ## State -/

/-- `VC_state_type`. -/
inductive VCState where
  | init
  | routing
  | vcAb
  | swAb
  | swTr
  | home
  deriving DecidableEq, Repr

/-- `VC_usage_type`. -/
inductive VCUsage where
  | used
  | free
  deriving DecidableEq, Repr

/-- One channel of `input_template`.  `VC_NULL` is `none`. -/
structure InputVC (Time : Type) where
  buffer : List (Flit Time)
  state : VCState
  routing : List VC
  crouting : Option VC

/-- One channel of `output_template`. -/
structure OutputVC where
  counter : ℤ
  usage : VCUsage
  assign : Option VC

/-- One port of `output_template`: `outbuffers_` and `outadd_`, which grow and
shrink together, and `localcounter_`. -/
structure OutputPort (Time : Type) where
  outbuffers : List (Flit Time × VC)
  localcounter : ℤ

/-- A line of a trace file. -/
structure Record (Time : Type) where
  time : Time
  sorAddr : Addr
  desAddr : Addr
  packSize : ℤ

/-- The history of a router: flits that come in, channels that win their
output, and flits that leave to an output or are accepted. -/
inductive Note (Time : Type) where
  | arrived (vc : VC) (flit : Flit Time)
  | granted (vc out : VC)
  | passed (vc out : VC) (flit : Flit Time)
  | accepted (vc : VC) (flit : Flit Time)

/-- `sim_router_template`.  `pending` is the unread part of the local trace
file, the time of its first record being `local_input_time_`. -/
structure Router (Time : Type) where
  address : Addr
  input : VC → InputVC Time
  ibuffFull : Bool
  output : VC → OutputVC
  port : Nat → OutputPort Time
  pending : List (Record Time)
  packetCounter : Nat
  log : List (Note Time)

/-- The kinds of events with the data they carry. -/
inductive Mess (Time : Type) where
  | evg
  | router
  | wire (src des : Addr) (pc vc : Nat) (flit : Flit Time)
  | credit (src des : Addr) (pc vc : Nat)

/-- `mess_event`. -/
structure Event (Time : Type) where
  time : Time
  mess : Mess Time

/-- A router at work: the events it has added, the random numbers left and
`total_finished_`. -/
structure Work (Time : Type) where
  router : Router Time
  emitted : List (Event Time)
  rng : Rng
  totalFinished : Nat

variable {Time : Type}

/-- A router as its constructor leaves it. -/
def Router.start (config : Config) (address : Addr)
    (pending : List (Record Time)) : Router Time where
  address := address
  input := fun _ => ⟨[], .init, [], none⟩
  ibuffFull := false
  output := fun _ => ⟨config.bufferSize, .free, none⟩
  port := fun _ => ⟨[], config.outbufferSize⟩
  pending := pending
  packetCounter := 0
  log := []

namespace Router

variable (router : Router Time)

/-- Replaces an input channel. -/
def setInput (vc : VC) (channel : InputVC Time) : Router Time :=
  { router with input := Function.update router.input vc channel }

/-- Replaces an output channel. -/
def setOutput (out : VC) (channel : OutputVC) : Router Time :=
  { router with output := Function.update router.output out channel }

/-- Replaces an output port. -/
def setPort (i : Nat) (port : OutputPort Time) : Router Time :=
  { router with port := Function.update router.port i port }

/-- Adds to the history. -/
def record (notes : List (Note Time)) : Router Time :=
  { router with log := router.log ++ notes }

/-- `state_update`. -/
def stateUpdate (vc : VC) (state : VCState) : Router Time :=
  router.setInput vc { router.input vc with state := state }

/-- `release`. -/
def release (out : VC) : Router Time :=
  router.setOutput out
    { router.output out with usage := .free, assign := none }

/-- `acquire`. -/
def acquire (out vc : VC) : Router Time :=
  router.setOutput out
    { router.output out with usage := .used, assign := some vc }

end Router

/-! ## Arrivals -/

/-- `receive_credit`. -/
def receiveCredit (router : Router Time) (out : VC) : Router Time :=
  router.setOutput out
    { router.output out with counter := (router.output out).counter + 1 }

/-- `receive_flit`. -/
def receiveFlit (router : Router Time) (vc : VC) (flit : Flit Time) :
    Router Time :=
  let channel := router.input vc
  let state :=
    if isHeader flit.type then
      if channel.buffer.length + 1 = 1 then .routing else channel.state
    else
      if channel.state = .init then .swAb else channel.state
  (router.setInput vc
    { channel with buffer := channel.buffer ++ [flit], state := state }).record
    [.arrived vc flit]

section Injection

variable (config : Config)

/-- The injection channel with the shortest queue, the first of them. -/
def shortestVC (router : Router Time) : Nat :=
  (List.range config.vcNumber).foldl
    (fun best i =>
      if (router.input (0, i)).buffer.length <
          (router.input (0, best)).buffer.length then i
      else best)
    0

/-- The loop of `inject_packet` over the flits of a packet. -/
def addPacket (router : Router Time) (record : Record Time) : Router Time :=
  if record.packSize ≤ 0 then router
  else
    let vc : VC := (0, shortestVC config router)
    let channel := router.input vc
    let flits :=
      packetFlits router.address router.packetCounter record.sorAddr
        record.desAddr record.time record.packSize.toNat
    { (router.setInput vc
        { channel with
          buffer := channel.buffer ++ flits
          state :=
            if channel.buffer.length = 0 then .routing else channel.state
          }).record (flits.map (.arrived vc)) with
      ibuffFull := router.ibuffFull || decide (100 < channel.buffer.length) }

/-- `outOfRange` of `inject_packet`. -/
def coordinateOutOfRange (x : ℤ) : Bool :=
  decide (x < 0) || decide ((config.arySize : ℤ) ≤ x)

/-- `inject_packet` followed by `packet_counter_++`. -/
def injectPacket (router : Router Time) (record : Record Time) :
    Except Halt (Router Time) :=
  if record.sorAddr.any (coordinateOutOfRange config) ||
      record.desAddr.any (coordinateOutOfRange config) then
    .error .wrongAddress
  else if 0 < record.packSize ∧ config.vcNumber = 0 then
    .error .outOfRange
  else
    .ok { addPacket config router record with
      packetCounter := router.packetCounter + 1 }

variable [LinearOrder Time] (clock : Clock Time) (now : Time)

/-- The loop of `receive_packet` over the records that are left. -/
def receiveRecords :
    List (Record Time) → Router Time → Except Halt (Router Time)
  | [], router => .ok { router with pending := [] }
  | record :: rest, router =>
      if router.ibuffFull = false ∧ record.time ≤ clock.slack now then do
        receiveRecords rest (← injectPacket config router record)
      else
        .ok { router with pending := record :: rest }

/-- `receive_packet`. -/
def receivePacket (router : Router Time) : Except Halt (Router Time) :=
  receiveRecords config clock now router.pending router

end Injection

/-! ## The pipeline -/

section Pipeline

variable [LinearOrder Time] (config : Config) (clock : Clock Time) (now : Time)

/-- `flit_traversal(i)`. -/
def flitTraversalPort (work : Work Time) (i : Nat) : Work Time :=
  let router := work.router
  match (router.port i).outbuffers with
  | [] => work
  | (flit, outadd) :: rest =>
      { work with
        router :=
          router.setPort i ⟨rest, (router.port i).localcounter + 1⟩
        emitted := work.emitted ++
          [⟨clock.wire (getWireDelay config.arySize router.address i) now,
            .wire router.address
              (getNextAddress config.arySize router.address i)
              (getWirePc config.arySize router.address i) outadd.2 flit⟩] }

/-- `flit_traversal`. -/
def flitTraversal (work : Work Time) : Except Halt (Work Time) :=
  .ok ((List.range' 1 (config.physicPorts - 1)).foldl
    (flitTraversalPort config clock now) work)

/-- The `CREDIT_` event for an input channel. -/
def creditEvent (router : Router Time) (vc : VC) : Event Time :=
  ⟨clock.credit now,
    .credit router.address
      (getFromRouter config.arySize router.address vc.1)
      (getFromPort config.arySize router.address vc.1) vc.2⟩

/-- The state of a channel that a flit has left, from the number of flits
before and the type of the flit. -/
def stateAfterSend (inSize : Nat) (type : FlitType) : VCState :=
  if 1 < inSize then
    if isTail type then .routing else .swAb
  else .init

/-- The flit moves from its input channel to the output port. -/
def moveFlit (router : Router Time) (vc out : VC) (flit : Flit Time)
    (rest : List (Flit Time)) : Router Time :=
  let channel := router.output out
  let port := router.port out.1
  (((router.setOutput out { channel with counter := channel.counter - 1 }
    ).setInput vc { router.input vc with buffer := rest }
    ).setPort out.1
      ⟨port.outbuffers ++ [(flit, out)], port.localcounter - 1⟩).record
    [.passed vc out flit]

/-- When the full queue of an injection channel has drained, packets are read
again. -/
def refill (router : Router Time) (vc : VC) : Except Halt (Router Time) :=
  if vc.1 = 0 ∧ router.ibuffFull = true ∧
      (router.input vc).buffer.length < 100 then
    receivePacket config clock now { router with ibuffFull := false }
  else .ok router

/-- The end of the body of `flit_outbuffer`: the output channel is released
after a tail, and the state of the input channel is updated. -/
def finishSend (router : Router Time) (vc out : VC) (type : FlitType)
    (state : VCState) : Router Time :=
  (if isTail type then router.release out else router).stateUpdate vc state

/-- The body of `flit_outbuffer` for one input channel.  The new state comes
from the number of flits before the channel is refilled. -/
def flitOutbufferVC (work : Work Time) (vc : VC) : Except Halt (Work Time) :=
  let channel := work.router.input vc
  if channel.state = .swTr then
    match channel.crouting, channel.buffer with
    | none, _ => .error .outOfRange
    | some _, [] => .error .noFlit
    | some out, flit :: rest =>
        (refill config clock now (moveFlit work.router vc out flit rest)
          vc).map fun refilled =>
          { work with
            router := finishSend refilled vc out flit.type
              (stateAfterSend (flit :: rest).length flit.type)
            emitted :=
              if vc.1 = 0 then work.emitted
              else work.emitted ++
                [creditEvent config clock now work.router vc] }
  else .ok work

/-- `flit_outbuffer`. -/
def flitOutbuffer (work : Work Time) : Except Halt (Work Time) :=
  config.channels.foldlM (flitOutbufferVC config clock now) work

/-- The output port of a channel that waits for the switch. -/
def outPort (router : Router Time) (vc : VC) : Nat :=
  ((router.input vc).crouting.map Prod.fst).getD 0

/-- The channel waits for the switch, and there is room behind it. -/
def swReady (router : Router Time) (vc : VC) : Bool :=
  (router.input vc).state = .swAb &&
    match (router.input vc).crouting with
    | none => false
    | some out =>
        decide (0 < (router.output out).counter) &&
          decide (0 < (router.port out.1).localcounter)

/-- The first loop of `sw_arbitration`: every input port nominates a channel,
listed with its output port. -/
def swRequests (router : Router Time) (rng : Rng) : List (Nat × VC) × Rng :=
  (List.range config.physicPorts).foldl
    (fun (requests, rng) i =>
      let ready :=
        (((List.range config.vcNumber).map fun j => ((i, j) : VC)).filter
          (swReady router))
      match rng.choose ready with
      | (none, rng) => (requests, rng)
      | (some vc, rng) => (requests ++ [(outPort router vc, vc)], rng))
    ([], rng)

/-- The body of the second loop of `sw_arbitration` for one output port. -/
def swGrantPort (requests : List (Nat × VC)) (work : Work Time) (i : Nat) :
    Except Halt (Work Time) :=
  match work.rng.choose
      ((requests.filter fun request => request.1 == i).map Prod.snd) with
  | (none, rng) => .ok { work with rng := rng }
  | (some vc, rng) =>
      if (work.router.input vc).buffer.length = 0 then .error .noFlit
      else
        .ok { work with
          router := work.router.stateUpdate vc .swTr
          rng := rng }

/-- `sw_arbitration`.  A channel in `SW_AB_` without a chosen output would
index the counters with `VC_NULL`. -/
def swArbitration (work : Work Time) : Except Halt (Work Time) :=
  if config.channels.any fun vc =>
      (work.router.input vc).state = .swAb &&
        (work.router.input vc).crouting.isNone then
    .error .outOfRange
  else
    let (requests, rng) := swRequests config work.router work.rng
    (List.range config.physicPorts).foldlM (swGrantPort requests)
      { work with rng := rng }

/-- `vc_selection`. -/
def vcSelection (router : Router Time) (rng : Rng) (vc : VC) :
    Except Halt (Option VC × Rng) :=
  let candidates := (router.input vc).routing
  if candidates.length = 0 then .error .noCandidate
  else if candidates.any fun out => !decide (config.InRange out) then
    .error .outOfRange
  else
    .ok (rng.choose
      (candidates.filter fun out => (router.output out).usage == .free))

/-- The body of the first loop of `vc_arbitration`. -/
def vcRequest (router : Router Time) (requests : List (VC × VC) × Rng)
    (vc : VC) : Except Halt (List (VC × VC) × Rng) :=
  if (router.input vc).state = .vcAb then do
    match ← vcSelection config router requests.2 vc with
    | (none, rng) => .ok (requests.1, rng)
    | (some out, rng) => .ok (requests.1 ++ [(out, vc)], rng)
  else .ok requests

/-- The body of the second loop of `vc_arbitration` for one output
channel. -/
def vcGrant (requests : List (VC × VC)) (work : Work Time) (out : VC) :
    Work Time :=
  if (work.router.output out).usage = .free then
    match work.rng.choose
        ((requests.filter fun request => request.1 == out).map Prod.snd) with
    | (none, rng) => { work with rng := rng }
    | (some vc, rng) =>
        { work with
          router :=
            ((work.router.setInput vc
              { work.router.input vc with
                state := .swAb
                crouting := some out }).acquire out vc).record
              [.granted vc out]
          rng := rng }
  else work

/-- `vc_arbitration`. -/
def vcArbitration (work : Work Time) : Except Halt (Work Time) := do
  let (requests, rng) ←
    config.channels.foldlM (vcRequest config work.router) ([], work.rng)
  .ok ((config.channelsFrom 1).foldl (vcGrant requests)
    { work with rng := rng })

/-- `accept_flit` and `remove_flit`. -/
def acceptFlit (work : Work Time) (vc : VC) (flit : Flit Time)
    (rest : List (Flit Time)) (state : VCState) : Work Time :=
  { work with
    router :=
      (work.router.setInput vc
        { work.router.input vc with buffer := rest, state := state }).record
        [.accepted vc flit]
    totalFinished :=
      if isTail flit.type then work.totalFinished + 1
      else work.totalFinished }

/-- `ROUTING_` or `INIT_`, whether flits are left or not. -/
def stateAfterPacket (rest : List (Flit Time)) : VCState :=
  if 0 < rest.length then .routing else .init

/-- The first part of the body of `routing_decision`: a channel other than the
injection channels returns a credit when its first flit is at home. -/
def returnCredit (work : Work Time) (vc : VC) : Work Time :=
  match (work.router.input vc).buffer with
  | [] => work
  | flit :: _ =>
      if vc.1 ≠ 0 ∧ work.router.address = flit.desAddr then
        { work with
          emitted := work.emitted ++
            [creditEvent config clock now work.router vc] }
      else work

/-- The second part, for a channel in `ROUTING_`. -/
def routeHeader (work : Work Time) (vc : VC) : Except Halt (Work Time) :=
  match (work.router.input vc).buffer with
  | [] => .error .noFlit
  | flit :: rest =>
      if vc.1 ≠ 0 ∧ isHeader flit.type = false then .error .notHeader
      else if work.router.address = flit.desAddr then
        .ok (acceptFlit work vc flit rest
          (if flit.type = .header then .home else stateAfterPacket rest))
      else
        .ok { work with
          router := work.router.setInput vc
            { work.router.input vc with
              routing :=
                currAlgorithm config.arySize work.router.address flit.desAddr
                  config.routingAlg
              crouting := none
              state := .vcAb } }

/-- The second part, for a channel in `HOME_`. -/
def acceptAtHome (work : Work Time) (vc : VC) : Except Halt (Work Time) :=
  match (work.router.input vc).buffer with
  | [] => .ok work
  | flit :: rest =>
      if isHeader flit.type then .error .headerAtHome
      else
        .ok (acceptFlit work vc flit rest
          (if flit.type = .tail then stateAfterPacket rest
          else (work.router.input vc).state))

/-- The body of `routing_decision` for one channel.  The injection channels
come first and are treated alike, but for the credit and for the assertion
that a packet starts with a header. -/
def routingDecisionVC (work : Work Time) (vc : VC) :
    Except Halt (Work Time) :=
  let credited := returnCredit config clock now work vc
  match (work.router.input vc).state with
  | .routing => routeHeader config credited vc
  | .home => acceptAtHome credited vc
  | _ => .ok credited

/-- `routing_decision`. -/
def routingDecision (work : Work Time) : Except Halt (Work Time) :=
  config.channels.foldlM (routingDecisionVC config clock now) work

end Pipeline

/-- The stages of `router_sim_pwr`, in its order. -/
inductive Stage where
  | flitTraversal
  | flitOutbuffer
  | swArbitration
  | vcArbitration
  | routingDecision
  deriving DecidableEq, Repr

namespace Stage

/-- The stage that follows. -/
def next : Stage → Option Stage
  | .flitTraversal => some .flitOutbuffer
  | .flitOutbuffer => some .swArbitration
  | .swArbitration => some .vcArbitration
  | .vcArbitration => some .routingDecision
  | .routingDecision => none

def run [LinearOrder Time] (config : Config) (clock : Clock Time)
    (now : Time) (stage : Stage) : Work Time → Except Halt (Work Time) :=
  match stage with
  | .flitTraversal => Popnet.flitTraversal config clock now
  | .flitOutbuffer => Popnet.flitOutbuffer config clock now
  | .swArbitration => Popnet.swArbitration config
  | .vcArbitration => Popnet.vcArbitration config
  | .routingDecision => Popnet.routingDecision config clock now

end Stage

end ChipletSniper.Popnet
