import ChipletSniper.Library.Ring
import ChipletSniper.Library.Walk

/-!
# The mesh network model

The cores of a mesh or torus in groups of `concentration`. The first core of a
group is the master, and routes for the others.
-/

namespace ChipletSniper.Mesh

open Library

/-- `core_id_t`. -/
abbrev CoreId := ℤ

/-- `OutputDirection`. Those from `self` on are no links. -/
inductive OutputDirection where
  | up
  | down
  | left
  | right
  | self
  | peer
  | destination
  deriving DecidableEq, Repr

def OutputDirection.isLink : OutputDirection → Bool
  | .up | .down | .left | .right => true
  | _ => false

/-- The parameters of `NetworkModelEMeshHopByHop`. -/
structure EMesh where
  width : ℤ
  height : ℤ
  concentration : ℤ
  wrapAround : Bool
  width_pos : 0 < width
  height_pos : 0 < height
  concentration_pos : 0 < concentration

namespace EMesh

variable (mesh : EMesh)

/-- `getApplicationCores`, which `computeMeshDimensions` compares with the
size of the mesh. -/
def applicationCores : ℤ :=
  mesh.concentration * mesh.height * mesh.width

def computePosition (core : CoreId) : ℤ × ℤ :=
  (core / mesh.concentration % mesh.width,
    core / mesh.concentration / mesh.width)

def computeCoreId (x y : ℤ) : CoreId :=
  ((y + mesh.height) % mesh.height * mesh.width +
    (x + mesh.width) % mesh.width) * mesh.concentration

/-- `m_fake_node`. -/
def fakeNode (core : CoreId) : Bool :=
  decide (core % mesh.concentration ≠ 0) ||
    decide (mesh.concentration * mesh.width * mesh.height ≤ core)

def computeDistance (sender receiver : CoreId) : ℤ :=
  let (sx, sy) := mesh.computePosition sender
  let (dx, dy) := mesh.computePosition receiver
  if mesh.wrapAround then
    min |sx - dx| (mesh.width - |sx - dx|) +
      min |sy - dy| (mesh.height - |sy - dy|)
  else
    |sx - dx| + |sy - dy|

/-- The comparison that decides between the two directions of a dimension. -/
def lowers (size s d : ℤ) : Bool :=
  decide (d < s) ^^
    (mesh.wrapAround && decide ((size + 1) / 2 < |s - d|))

def getNextDest (core finalDest : CoreId) : OutputDirection × CoreId :=
  if mesh.applicationCores ≤ finalDest then
    (.destination, finalDest)
  else if core / mesh.concentration = finalDest / mesh.concentration then
    (.destination, finalDest)
  else if mesh.fakeNode core then
    (.peer, core - core % mesh.concentration)
  else
    let (sx, sy) := mesh.computePosition core
    let (dx, dy) := mesh.computePosition finalDest
    if mesh.lowers mesh.width sx dx then
      (.left, mesh.computeCoreId (sx - 1) sy)
    else if sx ≠ dx then
      (.right, mesh.computeCoreId (sx + 1) sy)
    else if mesh.lowers mesh.height sy dy then
      (.down, mesh.computeCoreId sx (sy - 1))
    else if sy ≠ dy then
      (.up, mesh.computeCoreId sx (sy + 1))
    else
      (.self, core)

end EMesh

/-! ## A unicast packet -/

/-- The latency of a hop, the same in all routers, and what the queue models
return. -/
structure Traffic where
  hopLatency : Nat
  linkDelay : CoreId → OutputDirection → Nat → Nat
  injectionDelay : Nat → Nat
  ejectionDelay : Nat → Nat

/-- A packet on its way: `next_dest` and `time`. -/
structure Packet where
  core : CoreId
  time : Nat
  /-- The sum of its waits. The `queue_delay` that the receiver is sent is this
  sum after the first hop. -/
  queueDelay : Nat
  /-- The links it took. Written and never read. -/
  links : Nat

namespace EMesh

variable (mesh : EMesh) (traffic : Traffic)

/-- `addHop` for a packet that keeps its queueing statistics. -/
def addHop (core : CoreId) (hop : OutputDirection × CoreId)
    (packet : Packet) : Packet :=
  if hop.1.isLink then
    let delay := traffic.linkDelay core hop.1 packet.time
    { core := hop.2
      time := packet.time + (traffic.hopLatency + delay)
      queueDelay := packet.queueDelay + delay
      links := packet.links + 1 }
  else
    { packet with core := hop.2 }

/-- `routePacket` for a packet with one receiver. -/
def routePacket (sender receiver : CoreId) (packet : Packet) : Packet :=
  if mesh.fakeNode packet.core then
    { packet with core := receiver }
  else
    let delay :=
      if sender = packet.core ∧ receiver ≠ packet.core then
        traffic.injectionDelay packet.time
      else 0
    addHop traffic packet.core (mesh.getNextDest packet.core receiver)
      { packet with
        time := packet.time + delay
        queueDelay := packet.queueDelay + delay }

/-- The loop of `netSend` while `next_dest` is not the receiver. -/
def forward (sender receiver : CoreId) (packet : Packet) : Option Packet :=
  if packet.core = receiver then
    none
  else
    some (mesh.routePacket traffic sender receiver packet)

/-- The hop that `netSend` begins with. -/
def netSend (sender receiver : CoreId) (time : Nat) : Packet :=
  mesh.routePacket traffic sender receiver ⟨sender, time, 0, 0⟩

/-- `contention_delay` after `processReceivedPacket`, and the sum of all
waits. -/
def processReceivedPacket (sender : CoreId) (startTime : Nat)
    (packet : Packet) : ℤ × Nat :=
  let latency : ℤ := packet.time - startTime
  let contention : ℤ :=
    latency - mesh.computeDistance sender packet.core * traffic.hopLatency
  let delay :=
    if sender ≠ packet.core ∧ mesh.fakeNode packet.core = false then
      traffic.ejectionDelay packet.time
    else 0
  (contention + delay, packet.queueDelay + delay)

end EMesh

end ChipletSniper.Mesh
