import Mathlib.Data.List.Basic
import Mathlib.Data.List.GetD
import Mathlib.Data.Int.Notation

/-!
# Addresses and links of the popnet network

A router address lists one coordinate per dimension.  With four dimensions it
reads: chiplet x, chiplet y, core x, core y.  Port `0` injects, port `2k + 1`
lowers and port `2k + 2` raises coordinate `k`, and the port after those leads
to the centre of the star, the router `(n - 1, n - 1, 0, 0)`, whose ports are
numbered by chiplet.  The same maps serve every routing algorithm.
-/

namespace ChipletSniper.Popnet

/-- `add_type`. -/
abbrev Addr := List ℤ

/-- A physical port and a virtual channel, `VC_type` without `VC_NULL`. -/
abbrev VC := Nat × Nat

/-- `address[k]`. -/
def coord (address : Addr) (k : Nat) : ℤ :=
  address.getD k 0

@[simp]
theorem coord_four (x y u v : ℤ) :
    coord [x, y, u, v] 0 = x ∧ coord [x, y, u, v] 1 = y ∧
      coord [x, y, u, v] 2 = u ∧ coord [x, y, u, v] 3 = v :=
  ⟨rfl, rfl, rfl, rfl⟩

/-- `sim_foundation::valid_address`. -/
def validAddress (arySize : ℤ) (cubeSize : Nat) (address : Addr) : Bool :=
  address.length == cubeSize &&
    address.all fun x => !(decide (arySize ≤ x) || decide (x < 0))

theorem validAddress_four {arySize x y u v : ℤ} :
    validAddress arySize 4 [x, y, u, v] = true ↔
      (0 ≤ x ∧ x < arySize) ∧ (0 ≤ y ∧ y < arySize) ∧
        (0 ≤ u ∧ u < arySize) ∧ (0 ≤ v ∧ v < arySize) := by
  simp [validAddress]
  omega

theorem exists_of_validAddress {arySize : ℤ} {address : Addr}
    (valid : validAddress arySize 4 address = true) :
    ∃ x y u v, address = [x, y, u, v] := by
  have length : address.length = 4 := by
    simp [validAddress] at valid
    exact valid.1
  match address, length with
  | [x, y, u, v], _ => exact ⟨x, y, u, v, rfl⟩

theorem coord_inside {n : ℤ} {cubeSize : Nat} {address : Addr} {k : Nat}
    (valid : validAddress n cubeSize address = true) (short : k < cubeSize) :
    0 ≤ coord address k ∧ coord address k < n := by
  simp only [validAddress, Bool.and_eq_true, beq_iff_eq, List.all_eq_true,
    Bool.not_eq_true', Bool.or_eq_false_iff, decide_eq_false_iff_not,
    Int.not_le, Int.not_lt] at valid
  obtain ⟨length, inside⟩ := valid
  have member : coord address k ∈ address := by
    rw [coord, List.getD_eq_getElem _ _ (length ▸ short)]
    exact List.getElem_mem _
  exact ⟨(inside _ member).2, (inside _ member).1⟩

/-- `isCentral`. -/
def isCentral (address : Addr) (centerXY : ℤ) : Bool :=
  coord address 0 == centerXY && coord address 1 == centerXY &&
    coord address 2 == 0 && coord address 3 == 0

theorem isCentral_four {x y u v c : ℤ} :
    isCentral [x, y, u, v] c = true ↔ x = c ∧ y = c ∧ u = 0 ∧ v = 0 := by
  simp [isCentral, and_assoc]

section Links

variable (arySize : ℤ) (address : Addr) (port : Nat)

/-- The neighbour in one dimension: odd `t` raises coordinate `t / 2`, even
`t` lowers it, both around the end of the row. -/
def ringNeighbour (t : Nat) : Addr :=
  let p := t / 2
  if t % 2 = 1 then
    let raised := coord address p + 1
    address.set p (if raised = arySize then 0 else raised)
  else
    let lowered := coord address p - 1
    address.set p (if lowered = -1 then arySize - 1 else lowered)

/-- The router at the other end of `port`.  The centre decodes the port into
a chiplet; any other router reaches the centre through the port after its
`2 * c` ring ports. -/
def linkedRouter : Addr :=
  let t := port - 1
  let centerXY := arySize - 1
  if isCentral address centerXY then
    [(t : ℤ).tdiv centerXY, (t : ℤ).tmod centerXY, 0, 0]
  else if t / 2 = address.length then
    [centerXY, centerXY, 0, 0]
  else
    ringNeighbour arySize address t

/-- The port at the other end of `port`. -/
def linkedPort : Nat :=
  let centerPort := 2 * address.length + 1
  let centerXY := arySize - 1
  if isCentral address centerXY then
    centerPort
  else if port = centerPort then
    (coord address 0 * centerXY + coord address 1 + 1).toNat
  else if port % 2 = 1 then
    port + 1
  else
    port - 1

/-- `getNextAddress`: the router that an output port leads to. -/
def getNextAddress : Addr :=
  linkedRouter arySize address port

/-- `getWirePc`: the input port at which that router receives. -/
def getWirePc : Nat :=
  linkedPort arySize address port

/-- `getFromRouter`: the router that an input port is fed by.  The source
repeats the body of `getNextAddress`. -/
def getFromRouter : Addr :=
  linkedRouter arySize address port

/-- `getFromPort`: the output port of that router.  The source repeats the
body of `getWirePc`. -/
def getFromPort : Nat :=
  linkedPort arySize address port

/-- The constants of `getWireDelay` that are in use. -/
inductive WireDelay where
  | short
  | starInner
  | starOuter
  deriving DecidableEq, Repr

/-- `getWireDelay`. -/
def getWireDelay : WireDelay :=
  let centerXY := arySize - 1
  if isCentral address centerXY then
    let chipletX := ((port : ℤ) - 1).tdiv centerXY
    if chipletX = 1 ∨ chipletX = 2 then .starInner else .starOuter
  else if 2 * address.length + 1 = port then
    if coord address 0 = 1 ∨ coord address 0 = 2 then .starInner
    else .starOuter
  else
    .short

end Links

end ChipletSniper.Popnet
