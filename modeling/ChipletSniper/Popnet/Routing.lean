import ChipletSniper.Popnet.Topology

/-!
# Routing algorithms

Each algorithm appends the candidate output channels of a packet to the
`routing` list of its input channel.  The model returns the appended list.
-/

namespace ChipletSniper.Popnet

/-- `routing_type`. -/
inductive RoutingType where
  | xy
  | txy
  | chipletRouting
  | chipletStarTopoRouting
  deriving DecidableEq, Repr

section Algorithms

variable (arySize : ℤ) (address desT : Addr)

/-- `TXY_algorithm`. -/
def txyAlgorithm : List VC :=
  let xoffset := coord desT 0 - coord address 0
  let yoffset := coord desT 1 - coord address 1
  let xdirection := (xoffset.natAbs : ℤ) * 2 ≤ arySize
  let ydirection := (yoffset.natAbs : ℤ) * 2 ≤ arySize
  let alongY : List VC :=
    if ydirection then
      if yoffset < 0 then [(3, 0)] else if 0 < yoffset then [(4, 1)] else []
    else
      if yoffset < 0 then [(4, 0)] else if 0 < yoffset then [(3, 1)] else []
  if xdirection then
    if xoffset < 0 then [(1, 0)] else if 0 < xoffset then [(2, 1)]
    else alongY
  else
    if xoffset < 0 then [(2, 0)] else if 0 < xoffset then [(1, 1)]
    else alongY

/-- `XY_algorithm`: four channels of one port. -/
def xyAlgorithm : List VC :=
  let xoffset := coord desT 0 - coord address 0
  let yoffset := coord desT 1 - coord address 1
  let channels (port : Nat) : List VC :=
    [(port, 0), (port, 1), (port, 2), (port, 3)]
  if yoffset < 0 then channels 3
  else if 0 < yoffset then channels 4
  else if xoffset < 0 then channels 1
  else if 0 < xoffset then channels 2
  else []

/-- `addRoutingForDifferentVC`, with its two virtual channels. -/
def addRoutingForDifferentVC (port : Nat) : List VC :=
  [(port, 0), (port, 1)]

/-- The port `chiplet_routing_alg` chooses: inside the chiplet of the
destination core x before core y; outside it to the gateway core `(0, 0)` and
from there chiplet x before chiplet y. -/
def chipletPort : Nat :=
  let delta (k : Nat) : ℤ := coord desT k - coord address k
  if delta 0 = 0 ∧ delta 1 = 0 then
    if delta 2 = 0 then
      if delta 3 < 0 then 7 else 8
    else
      if delta 2 < 0 then 5 else 6
  else if coord address 2 = 0 ∧ coord address 3 = 0 then
    if delta 0 = 0 then
      if delta 1 < 0 then 3 else 4
    else
      if delta 0 < 0 then 1 else 2
  else
    if 0 < coord address 2 then 5 else 7

/-- `chiplet_routing_alg`. -/
def chipletRoutingAlg : List VC :=
  addRoutingForDifferentVC (chipletPort address desT)

/-- `checkAddressIndex`: the port that corrects coordinate `idx`, if it has to
be corrected. -/
def checkAddressIndex (delta : ℤ) (idx : Nat) : Option Nat :=
  if delta = 0 then none
  else some (2 * idx + if 0 < delta then 2 else 1)

/-- The port `chiplet_star_topo_routing_alg` chooses.  The `0` stands for the
uninitialised `port` of a packet that is already at its destination. -/
def chipletStarPort : Nat :=
  let centerXY := arySize - 1
  let delta (k : Nat) : ℤ := coord desT k - coord address k
  if isCentral address centerXY then
    (coord desT 0 * centerXY + coord desT 1 + 1).toNat
  else if delta 0 = 0 ∧ delta 1 = 0 then
    ((checkAddressIndex (delta 2) 2).or
      (checkAddressIndex (delta 3) 3)).getD 0
  else if coord address 2 = 0 ∧ coord address 3 = 0 then
    2 * address.length + 1
  else
    if 0 < coord address 2 then 5 else 7

/-- `chiplet_star_topo_routing_alg`. -/
def chipletStarTopoRoutingAlg : List VC :=
  addRoutingForDifferentVC (chipletStarPort arySize address desT)

/-- `curr_algorithm`. -/
def currAlgorithm (routingAlg : RoutingType) : List VC :=
  match routingAlg with
  | .xy => xyAlgorithm address desT
  | .txy => txyAlgorithm arySize address desT
  | .chipletRouting => chipletRoutingAlg address desT
  | .chipletStarTopoRouting => chipletStarTopoRoutingAlg arySize address desT

end Algorithms

end ChipletSniper.Popnet
