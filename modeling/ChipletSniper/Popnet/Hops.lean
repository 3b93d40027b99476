import Mathlib.Tactic.SplitIfs
import Mathlib.Tactic.Ring
import ChipletSniper.Library.Walk
import ChipletSniper.Popnet.Routing

/-!
# Hops of a packet

What one hop of the two chiplet routing algorithms does to the four
coordinates of a packet, stated once.  Both levels of the address are routed
x before y, so a hop is an `XYMove` of the cores or of the chiplets, or it
crosses the centre of the star.
-/

namespace ChipletSniper.Popnet

/-- One step of x-before-y routing from `(u, v)` towards `(du, dv)`, with the
port that performs it.  `base` is the port that lowers the first
coordinate. -/
inductive XYMove (base : Nat) (u v du dv : ℤ) : Nat → ℤ → ℤ → Prop
  | lowerFirst : du < u → XYMove base u v du dv base (u - 1) v
  | raiseFirst : u < du → XYMove base u v du dv (base + 1) (u + 1) v
  | lowerSecond :
      u = du → dv < v → XYMove base u v du dv (base + 2) u (v - 1)
  | raiseSecond :
      u = du → v < dv → XYMove base u v du dv (base + 3) u (v + 1)

/-- The number of steps `XYMove` needs. -/
def gridDistance (u v du dv : ℤ) : Nat :=
  (u - du).natAbs + (v - dv).natAbs

theorem XYMove.lowers {base port : Nat} {u v du dv u' v' : ℤ}
    (move : XYMove base u v du dv port u' v') :
    gridDistance u' v' du dv < gridDistance u v du dv := by
  unfold gridDistance
  cases move <;> omega

/-- The coordinates stay inside any box that holds both ends. -/
theorem XYMove.inside {base port : Nat} {u v du dv u' v' n : ℤ}
    (move : XYMove base u v du dv port u' v')
    (source : (0 ≤ u ∧ u < n) ∧ (0 ≤ v ∧ v < n))
    (target : (0 ≤ du ∧ du < n) ∧ (0 ≤ dv ∧ dv < n)) :
    (0 ≤ u' ∧ u' < n) ∧ (0 ≤ v' ∧ v' < n) := by
  cases move <;> omega

theorem XYMove.port_bounds {base port : Nat} {u v du dv u' v' : ℤ}
    (move : XYMove base u v du dv port u' v') :
    base ≤ port ∧ port < base + 4 := by
  cases move <;> omega

theorem XYMove.apart {base port : Nat} {u v du dv u' v' : ℤ}
    (move : XYMove base u v du dv port u' v') :
    ¬ (u = du ∧ v = dv) := by
  cases move <;> omega

theorem exists_xyMove (base : Nat) {u v du dv : ℤ}
    (apart : ¬ (u = du ∧ v = dv)) :
    ∃ port u' v', XYMove base u v du dv port u' v' := by
  rcases lt_trichotomy u du with below | equal | above
  · exact ⟨_, _, _, .raiseFirst below⟩
  · rcases lt_trichotomy v dv with below | same | above
    · exact ⟨_, _, _, .raiseSecond equal below⟩
    · exact absurd ⟨equal, same⟩ apart
    · exact ⟨_, _, _, .lowerSecond equal above⟩
  · exact ⟨_, _, _, .lowerFirst above⟩

/-- A hop of `chiplet_routing_alg` over the ring links: the port and the
router it leads to. -/
inductive ChipletMove (x y u v dx dy du dv : ℤ) : Nat → Addr → Prop
  | inside {port : Nat} {u' v' : ℤ} :
      x = dx → y = dy → XYMove 5 u v du dv port u' v' →
      ChipletMove x y u v dx dy du dv port [x, y, u', v']
  | outbound {port : Nat} {u' v' : ℤ} :
      ¬ (x = dx ∧ y = dy) → XYMove 5 u v 0 0 port u' v' →
      ChipletMove x y u v dx dy du dv port [x, y, u', v']
  | between {port : Nat} {x' y' : ℤ} :
      u = 0 → v = 0 → XYMove 1 x y dx dy port x' y' →
      ChipletMove x y u v dx dy du dv port [x', y', 0, 0]

/-- A hop of `chiplet_star_topo_routing_alg` at a router other than the
centre. -/
inductive StarMove (c x y u v dx dy du dv : ℤ) : Nat → Addr → Prop
  | inside {port : Nat} {u' v' : ℤ} :
      x = dx → y = dy → XYMove 5 u v du dv port u' v' →
      StarMove c x y u v dx dy du dv port [x, y, u', v']
  | outbound {port : Nat} {u' v' : ℤ} :
      ¬ (x = dx ∧ y = dy) → XYMove 5 u v 0 0 port u' v' →
      StarMove c x y u v dx dy du dv port [x, y, u', v']
  | toCentre :
      ¬ (x = dx ∧ y = dy) → u = 0 → v = 0 →
      StarMove c x y u v dx dy du dv 9 [c, c, 0, 0]

section Moves

variable {n x y u v dx dy du dv : ℤ} {port : Nat} {next : Addr}

/-- The hops stay inside the network. -/
theorem ChipletMove.valid (move : ChipletMove x y u v dx dy du dv port next)
    (source : validAddress n 4 [x, y, u, v] = true)
    (target : validAddress n 4 [dx, dy, du, dv] = true) :
    validAddress n 4 next = true := by
  obtain ⟨xRange, yRange, uRange, vRange⟩ := validAddress_four.mp source
  obtain ⟨dxRange, dyRange, duRange, dvRange⟩ := validAddress_four.mp target
  cases move with
  | inside _ _ core =>
      obtain ⟨uNext, vNext⟩ :=
        core.inside ⟨uRange, vRange⟩ ⟨duRange, dvRange⟩
      exact validAddress_four.mpr ⟨xRange, yRange, uNext, vNext⟩
  | outbound _ core =>
      obtain ⟨uNext, vNext⟩ :=
        core.inside ⟨uRange, vRange⟩ (by omega : (_ ∧ _) ∧ (_ ∧ _))
      exact validAddress_four.mpr ⟨xRange, yRange, uNext, vNext⟩
  | between _ _ chip =>
      obtain ⟨xNext, yNext⟩ :=
        chip.inside ⟨xRange, yRange⟩ ⟨dxRange, dyRange⟩
      exact validAddress_four.mpr ⟨xNext, yNext, by omega, by omega⟩

theorem StarMove.valid (big : 2 ≤ n)
    (move : StarMove (n - 1) x y u v dx dy du dv port next)
    (source : validAddress n 4 [x, y, u, v] = true)
    (target : validAddress n 4 [dx, dy, du, dv] = true) :
    validAddress n 4 next = true := by
  cases move with
  | inside xSame ySame core =>
      exact (ChipletMove.inside xSame ySame core).valid source target
  | outbound different core =>
      exact (ChipletMove.outbound different core).valid source target
  | toCentre _ _ _ => exact validAddress_four.mpr (by omega)

end Moves

section Ports

variable {n x y u v dx dy du dv : ℤ}

theorem chipletPort_four :
    chipletPort [x, y, u, v] [dx, dy, du, dv] =
      if dx - x = 0 ∧ dy - y = 0 then
        if du - u = 0 then (if dv - v < 0 then 7 else 8)
        else if du - u < 0 then 5 else 6
      else if u = 0 ∧ v = 0 then
        if dx - x = 0 then (if dy - y < 0 then 3 else 4)
        else if dx - x < 0 then 1 else 2
      else if 0 < u then 5 else 7 :=
  rfl

theorem chipletPort_bounds (address des : Addr) :
    1 ≤ chipletPort address des ∧ chipletPort address des < 9 := by
  unfold chipletPort
  dsimp only
  split_ifs <;> omega

theorem chipletStarPort_four
    (aside : isCentral [x, y, u, v] (n - 1) = false) :
    chipletStarPort n [x, y, u, v] [dx, dy, du, dv] =
      if dx - x = 0 ∧ dy - y = 0 then
        ((checkAddressIndex (du - u) 2).or
          (checkAddressIndex (dv - v) 3)).getD 0
      else if u = 0 ∧ v = 0 then 9
      else if 0 < u then 5 else 7 := by
  unfold chipletStarPort
  simp only [aside]
  rfl

private theorem corePort_move {port : Nat} {u' v' tu tv : ℤ}
    (target : (0 ≤ tu ∧ tu < n) ∧ (0 ≤ tv ∧ tv < n))
    (move : XYMove 5 u v tu tv port u' v') :
    ringNeighbour n [x, y, u, v] (port - 1) = [x, y, u', v'] := by
  cases move <;> simp [ringNeighbour, coord] <;> omega

private theorem chipPort_move {port : Nat} {x' y' : ℤ}
    (target : (0 ≤ dx ∧ dx < n) ∧ (0 ≤ dy ∧ dy < n))
    (move : XYMove 1 x y dx dy port x' y') :
    ringNeighbour n [x, y, u, v] (port - 1) = [x', y', u, v] := by
  cases move <;> simp [ringNeighbour, coord] <;> omega

/-- The port of `chiplet_routing_alg` and the ring link behind it. -/
theorem chipletPort_move
    (source : validAddress n 4 [x, y, u, v] = true)
    (target : validAddress n 4 [dx, dy, du, dv] = true)
    (apart : [x, y, u, v] ≠ [dx, dy, du, dv]) :
    ∃ port next,
      chipletPort [x, y, u, v] [dx, dy, du, dv] = port ∧
        ringNeighbour n [x, y, u, v] (port - 1) = next ∧
        ChipletMove x y u v dx dy du dv port next := by
  obtain ⟨xRange, yRange, uRange, vRange⟩ := validAddress_four.mp source
  obtain ⟨dxRange, dyRange, duRange, dvRange⟩ := validAddress_four.mp target
  have originRange : ((0 : ℤ) ≤ 0 ∧ 0 < n) ∧ ((0 : ℤ) ≤ 0 ∧ 0 < n) := by omega
  by_cases same : x = dx ∧ y = dy
  · have coresApart : ¬ (u = du ∧ v = dv) := by
      rintro ⟨rfl, rfl⟩
      exact apart (by rw [same.1, same.2])
    obtain ⟨port, u', v', move⟩ := exists_xyMove 5 coresApart
    refine ⟨port, _, ?_,
      corePort_move ⟨duRange, dvRange⟩ move,
      .inside same.1 same.2 move⟩
    rw [chipletPort_four]
    cases move <;> split_ifs <;> omega
  · by_cases gateway : u = 0 ∧ v = 0
    · obtain ⟨port, x', y', move⟩ := exists_xyMove 1 same
      obtain ⟨rfl, rfl⟩ := gateway
      refine ⟨port, _, ?_,
        chipPort_move ⟨dxRange, dyRange⟩ move,
        .between rfl rfl move⟩
      rw [chipletPort_four]
      cases move <;> split_ifs <;> omega
    · obtain ⟨port, u', v', move⟩ := exists_xyMove 5 gateway
      refine ⟨port, _, ?_,
        corePort_move originRange move,
        .outbound same move⟩
      rw [chipletPort_four]
      cases move <;> split_ifs <;> omega

/-- The port of `chiplet_star_topo_routing_alg` away from the centre and the
link behind it. -/
theorem chipletStarPort_move
    (source : validAddress n 4 [x, y, u, v] = true)
    (target : validAddress n 4 [dx, dy, du, dv] = true)
    (apart : [x, y, u, v] ≠ [dx, dy, du, dv])
    (aside : isCentral [x, y, u, v] (n - 1) = false) :
    ∃ port next,
      chipletStarPort n [x, y, u, v] [dx, dy, du, dv] = port ∧
        getNextAddress n [x, y, u, v] port = next ∧
        StarMove (n - 1) x y u v dx dy du dv port next := by
  obtain ⟨xRange, yRange, uRange, vRange⟩ := validAddress_four.mp source
  obtain ⟨dxRange, dyRange, duRange, dvRange⟩ := validAddress_four.mp target
  have originRange : ((0 : ℤ) ≤ 0 ∧ 0 < n) ∧ ((0 : ℤ) ≤ 0 ∧ 0 < n) := by omega
  have ring : ∀ {port : Nat} {u' v' tu tv : ℤ},
      (0 ≤ tu ∧ tu < n) ∧ (0 ≤ tv ∧ tv < n) →
      XYMove 5 u v tu tv port u' v' →
      getNextAddress n [x, y, u, v] port = [x, y, u', v'] := by
    intro port u' v' tu tv range move
    rw [← corePort_move range move]
    have notCentre : (port - 1) / 2 ≠ 4 := by
      cases move <;> omega
    simp [getNextAddress, linkedRouter, aside, notCentre]
  by_cases same : x = dx ∧ y = dy
  · have coresApart : ¬ (u = du ∧ v = dv) := by
      rintro ⟨rfl, rfl⟩
      exact apart (by rw [same.1, same.2])
    obtain ⟨port, u', v', move⟩ := exists_xyMove 5 coresApart
    refine ⟨port, _, ?_, ring ⟨duRange, dvRange⟩ move,
      .inside same.1 same.2 move⟩
    rw [chipletStarPort_four aside]
    cases move <;> simp only [checkAddressIndex] <;> split_ifs <;>
      first | omega | rfl
  · by_cases gateway : u = 0 ∧ v = 0
    · obtain ⟨rfl, rfl⟩ := gateway
      refine ⟨9, _, ?_, ?_, .toCentre same rfl rfl⟩
      · rw [chipletStarPort_four aside]
        split_ifs <;> omega
      · simp [getNextAddress, linkedRouter, aside]
    · obtain ⟨port, u', v', move⟩ := exists_xyMove 5 gateway
      refine ⟨port, _, ?_, ring originRange move, .outbound same move⟩
      rw [chipletStarPort_four aside]
      cases move <;> split_ifs <;> omega

/-- The centre encodes the chiplet of the destination in base `n - 1`. -/
theorem chipletStarPort_centre (n : ℤ) (dx dy du dv : ℤ) :
    chipletStarPort n [n - 1, n - 1, 0, 0] [dx, dy, du, dv] =
      (dx * (n - 1) + dy + 1).toNat := by
  simp [chipletStarPort, isCentral, coord]

end Ports

/-! ## Walking with a routing algorithm -/

/-- One hop: take the first candidate port (all candidates of the chiplet
algorithms share it) and move to the router behind it, if there is one. -/
def hop (arySize : ℤ) (algorithm : Addr → List VC) (address : Addr) :
    Option Addr :=
  match algorithm address with
  | [] => none
  | candidate :: _ =>
      let next := getNextAddress arySize address candidate.1
      if validAddress arySize 4 next then some next else none

/-- Mesh mode, `R = 2`. -/
def meshHop (arySize : ℤ) (desT : Addr) : Addr → Option Addr :=
  hop arySize fun address => chipletRoutingAlg address desT

/-- Star mode, `R = 3`. -/
def starHop (arySize : ℤ) (desT : Addr) : Addr → Option Addr :=
  hop arySize fun address => chipletStarTopoRoutingAlg arySize address desT

theorem meshHop_eq (n : ℤ) (desT address : Addr) :
    meshHop n desT address =
      let next := getNextAddress n address (chipletPort address desT)
      if validAddress n 4 next then some next else none :=
  rfl

theorem starHop_eq (n : ℤ) (desT address : Addr) :
    starHop n desT address =
      let next := getNextAddress n address (chipletStarPort n address desT)
      if validAddress n 4 next then some next else none :=
  rfl

theorem hop_valid {n : ℤ} {algorithm : Addr → List VC} {address next : Addr}
    (taken : hop n algorithm address = some next) :
    validAddress n 4 next = true := by
  unfold hop at taken
  split at taken
  · cases taken
  · simp only [Option.ite_none_right_eq_some, Option.some.injEq] at taken
    exact taken.2 ▸ taken.1

end ChipletSniper.Popnet
