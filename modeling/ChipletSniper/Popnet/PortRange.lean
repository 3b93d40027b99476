import ChipletSniper.Popnet.Dependency
import ChipletSniper.Popnet.Router
import ChipletSniper.Popnet.Torus

/-!
# Ports and virtual channels in range

The number of ports comes from the number of dimensions and the number of
virtual channels from the command line.  The algorithms name virtual channels
by constants, the star numbers its ports by chiplet, and every router looks at
its own address for the centre of a star.  A route stays in range for some
pairs of routers only.
-/

namespace ChipletSniper.Popnet

open Library

/-! ## What the routers compute -/

/-- Compares components of an address up to the first that differs, as `&&`
does.  There is no result if a component that is read does not exist. -/
def readComponents : List (Nat × ℤ) → Addr → Option Bool
  | [], _ => some true
  | (k, value) :: rest, address => do
      let component ← address[k]?
      if component = value then readComponents rest address else some false

/-- The reads of `isCentral` and `getNextAddress`. -/
def readCentral (address : Addr) (centerXY : ℤ) : Option Bool :=
  readComponents [(0, centerXY), (1, centerXY), (2, 0), (3, 0)] address

theorem readComponents_eq {components : List (Nat × ℤ)} {address : Addr}
    {result : Bool} (read : readComponents components address = some result) :
    components.all (fun component =>
      coord address component.1 == component.2) = result := by
  induction components with
  | nil =>
      cases read
      rfl
  | cons first rest ih =>
      obtain ⟨k, value⟩ := first
      obtain ⟨component, found, read⟩ := Option.bind_eq_some_iff.mp read
      have same : coord address k = component := by
        rw [coord, List.getD_eq_getElem?_getD, found]
        rfl
      rw [List.all_cons, same]
      split at read
      case isTrue equal =>
        rw [ih read, equal]
        simp
      case isFalse different =>
        cases read
        simp [different]

/-- Where all components exist, the result is that of the model. -/
theorem readCentral_eq {address : Addr} {centerXY : ℤ} {result : Bool}
    (read : readCentral address centerXY = some result) :
    isCentral address centerXY = result := by
  rw [← readComponents_eq read]
  simp [isCentral, Bool.and_assoc]

section Range

variable (config : Config)

/-- A candidate is in range: its port and its virtual channel exist, so does
the input port behind it, and the address behind it is one of a router. -/
structure HopInRange (address : Addr) (vc : VC) : Prop where
  port : 1 ≤ vc.1 ∧ vc.1 < config.physicPorts
  channel : vc.2 < config.vcNumber
  wirePc : getWirePc config.arySize address vc.1 < config.physicPorts
  component : isCentral address (config.arySize - 1) = false →
    (vc.1 - 1) / 2 ≤ address.length
  next : validAddress config.arySize config.cubeSize
    (getNextAddress config.arySize address vc.1) = true

/-- Everything that router `address` computes for a packet on the way to `des`
is in range. -/
def AddressInRange (des address : Addr) : Prop :=
  (readCentral address (config.arySize - 1)).isSome ∧
    (address ≠ des →
      ∀ vc ∈ currAlgorithm config.arySize address des config.routingAlg,
        HopInRange config address vc)

/-- The router that follows on the route. -/
def nextRouter (des address : Addr) : Option Addr :=
  if address = des then none
  else
    (currAlgorithm config.arySize address des config.routingAlg).head?.map
      fun vc => getNextAddress config.arySize address vc.1

/-- Everything on the route is in range.  A packet for the router itself is
accepted at once. -/
def RouteInRange (src des : Addr) : Prop :=
  src ≠ des →
    ∀ count address,
      after (nextRouter config des) count src = some address →
        AddressInRange config des address

/-! ## The pairs that stay in range -/

/-- The way along y and then along x does not touch the router
`(n - 1, n - 1)`. -/
def XYClear (n x y dx dy : ℤ) : Prop :=
  ¬ (x = n - 1 ∧ y = n - 1) ∧ ¬ (x = n - 1 ∧ dy = n - 1) ∧
    ¬ (dx = n - 1 ∧ dy = n - 1)

/-- The way along x and then along y on the torus does not touch the router
`(n - 1, n - 1)`. -/
def TXYClear (n x y dx dy : ℤ) : Prop :=
  ¬ (y = n - 1 ∧ TouchesEnd n x dx) ∧ ¬ (dx = n - 1 ∧ TouchesEnd n y dy)

/-- The ports of the centre for both chiplets exist, and the packet does not
leave the centre for a core of its chiplet. -/
def StarFits (n x y u v dx dy du dv : ℤ) : Prop :=
  (x = dx ∧ y = dy ∧ AvoidsCentre n x y u v du dv) ∨
    (¬ (x = dx ∧ y = dy) ∧
      ((x = n - 1 ∧ y = n - 1) ∨ x * (n - 1) + y ≤ 15) ∧
      ((dx = n - 1 ∧ dy = n - 1 ∧ du = 0 ∧ dv = 0) ∨
        (¬ (dx = n - 1 ∧ dy = n - 1) ∧ dx * (n - 1) + dy ≤ 15)))

/-- The virtual channels of the algorithm exist, and the route avoids what
goes wrong. -/
def RouteFits (src des : Addr) : Prop :=
  match config.routingAlg with
  | .xy =>
      4 ≤ config.vcNumber ∧
        XYClear config.arySize (coord src 0) (coord src 1) (coord des 0)
          (coord des 1)
  | .txy =>
      (2 ≤ config.vcNumber ∨
          LowLane config.arySize (coord src 0) (coord des 0) ∧
            LowLane config.arySize (coord src 1) (coord des 1)) ∧
        TXYClear config.arySize (coord src 0) (coord src 1) (coord des 0)
          (coord des 1)
  | .chipletRouting =>
      2 ≤ config.vcNumber ∧
        MeshClear config.arySize (coord src 0) (coord src 1) (coord src 2)
          (coord src 3) (coord des 0) (coord des 1) (coord des 2)
          (coord des 3)
  | .chipletStarTopoRouting =>
      2 ≤ config.vcNumber ∧
        StarFits config.arySize (coord src 0) (coord src 1) (coord src 2)
          (coord src 3) (coord des 0) (coord des 1) (coord des 2)
          (coord des 3)

end Range

/-! ## Hops over the rings -/

section Hops

variable {config : Config} {address des : Addr}

/-- All candidates share their port. -/
theorem currAlgorithm_port (n : ℤ) (address des : Addr)
    (alg : RoutingType) :
    ∀ vc ∈ currAlgorithm n address des alg,
      vc.1 = ((currAlgorithm n address des alg).headD (0, 0)).1 := by
  cases alg with
  | xy =>
      unfold currAlgorithm xyAlgorithm
      dsimp only
      split_ifs <;> decide
  | txy =>
      unfold currAlgorithm txyAlgorithm
      dsimp only
      split_ifs <;> decide
  | chipletRouting =>
      exact fun vc member => chipletRoutingAlg_port member
  | chipletStarTopoRouting =>
      exact fun vc member => chipletStarTopoRoutingAlg_port member

/-- The route is that of every packet, whatever candidates it gets. -/
theorem nextRouter_eq_some {next : Addr} :
    nextRouter config des address = some next ↔
      address ≠ des ∧
        ∃ vc ∈ currAlgorithm config.arySize address des config.routingAlg,
          getNextAddress config.arySize address vc.1 = next := by
  have shared := currAlgorithm_port config.arySize address des
    config.routingAlg
  unfold nextRouter
  split
  case isTrue here => simp [here]
  case isFalse apart =>
    cases candidates : currAlgorithm config.arySize address des
        config.routingAlg with
    | nil => simp
    | cons first rest =>
        rw [candidates] at shared
        simp only [List.head?_cons, Option.map_some, Option.some.injEq,
          ne_eq, apart, not_false_eq_true, true_and]
        constructor
        · exact fun linked => ⟨first, List.mem_cons_self, linked⟩
        · rintro ⟨vc, member, linked⟩
          rw [shared vc member] at linked
          exact linked

/-- A ring port of a router that is not taken for the centre. -/
theorem hopInRange_ring {vc : VC}
    (ports : 2 * address.length < config.physicPorts)
    (aside : isCentral address (config.arySize - 1) = false)
    (port : 1 ≤ vc.1 ∧ vc.1 ≤ 2 * address.length)
    (channel : vc.2 < config.vcNumber)
    (next : validAddress config.arySize config.cubeSize
      (ringNeighbour config.arySize address (vc.1 - 1)) = true) :
    HopInRange config address vc := by
  refine ⟨by omega, channel, ?_, fun _ => by omega, ?_⟩
  · have ring : vc.1 ≠ 2 * address.length + 1 := by omega
    simp only [getWirePc, linkedPort, aside, Bool.false_eq_true, if_false,
      if_neg ring]
    split <;> omega
  · have ring : (vc.1 - 1) / 2 ≠ address.length := by omega
    simp only [getNextAddress, linkedRouter, aside, Bool.false_eq_true,
      if_false, if_neg ring]
    exact next

end Hops

/-! ## Two dimensions -/

section Flat

variable {config : Config} {x y dx dy : ℤ}

/-- Only a router that agrees with the centre so far reads a third
component. -/
theorem readCentral_two {c : ℤ} :
    (readCentral [x, y] c).isSome = true ↔ ¬ (x = c ∧ y = c) := by
  by_cases column : x = c <;> by_cases row : y = c <;>
    simp [readCentral, readComponents, column, row]

theorem isCentral_two {c : ℤ} :
    isCentral [x, y] c = true ↔ x = c ∧ y = c := by
  simp [isCentral, coord]

theorem aside_two {c : ℤ} (aside : ¬ (x = c ∧ y = c)) :
    isCentral [x, y] c = false := by
  rw [Bool.eq_false_iff]
  exact fun central => aside (isCentral_two.mp central)

theorem physicPorts_two (alg : config.routingAlg ≠ .chipletStarTopoRouting)
    (flat : config.cubeSize = 2) : config.physicPorts = 5 := by
  rw [Config.physicPorts, if_neg alg, flat]

/-- A hop of `XY_algorithm`: along y until that is done, and then along x. -/
inductive XYHop (x y dx dy : ℤ) : Nat → Addr → Prop
  | lowerY : dy < y → XYHop x y dx dy 3 [x, y - 1]
  | raiseY : y < dy → XYHop x y dx dy 4 [x, y + 1]
  | lowerX : y = dy → dx < x → XYHop x y dx dy 1 [x - 1, y]
  | raiseX : y = dy → x < dx → XYHop x y dx dy 2 [x + 1, y]

/-- The candidates of `XY_algorithm` and the ring link behind them. -/
theorem xyAlgorithm_hop {n : ℤ} (source : validAddress n 2 [x, y] = true)
    (target : validAddress n 2 [dx, dy] = true)
    (apart : ¬ (x = dx ∧ y = dy)) :
    ∃ port next,
      xyAlgorithm [x, y] [dx, dy] =
          [(port, 0), (port, 1), (port, 2), (port, 3)] ∧
        ringNeighbour n [x, y] (port - 1) = next ∧
        XYHop x y dx dy port next := by
  obtain ⟨xRange, yRange⟩ := validAddress_two.mp source
  obtain ⟨dxRange, dyRange⟩ := validAddress_two.mp target
  have chosen : xyAlgorithm [x, y] [dx, dy] =
      let channels (port : Nat) : List VC :=
        [(port, 0), (port, 1), (port, 2), (port, 3)]
      if dy - y < 0 then channels 3
      else if 0 < dy - y then channels 4
      else if dx - x < 0 then channels 1
      else if 0 < dx - x then channels 2
      else [] := rfl
  rw [chosen]
  rcases lt_trichotomy y dy with below | row | above
  · refine ⟨4, _, ?_, ?_, .raiseY below⟩
    · rw [if_neg (by omega), if_pos (by omega)]
    · simp [ringNeighbour, coord]
      omega
  · rcases lt_trichotomy x dx with left | column | right
    · refine ⟨2, _, ?_, ?_, .raiseX row left⟩
      · rw [if_neg (by omega), if_neg (by omega), if_neg (by omega),
          if_pos (by omega)]
      · simp [ringNeighbour, coord]
        omega
    · exact absurd ⟨column, row⟩ apart
    · refine ⟨1, _, ?_, ?_, .lowerX row right⟩
      · rw [if_neg (by omega), if_neg (by omega), if_pos (by omega)]
      · simp [ringNeighbour, coord]
        omega
  · refine ⟨3, _, ?_, ?_, .lowerY above⟩
    · rw [if_pos (by omega)]
    · simp [ringNeighbour, coord]
      omega

theorem XYHop.valid {n : ℤ} {port : Nat} {next : Addr}
    (hop : XYHop x y dx dy port next)
    (source : validAddress n 2 [x, y] = true)
    (target : validAddress n 2 [dx, dy] = true) :
    validAddress n 2 next = true := by
  obtain ⟨xRange, yRange⟩ := validAddress_two.mp source
  obtain ⟨dxRange, dyRange⟩ := validAddress_two.mp target
  cases hop <;> exact validAddress_two.mpr (by omega)

theorem XYHop.port_bounds {port : Nat} {next : Addr}
    (hop : XYHop x y dx dy port next) : 1 ≤ port ∧ port ≤ 4 := by
  cases hop <;> omega

theorem XYHop.lowers {port : Nat} {next : Addr}
    (hop : XYHop x y dx dy port next) :
    gridDistance (coord next 0) (coord next 1) dx dy <
      gridDistance x y dx dy := by
  unfold gridDistance
  cases hop <;> simp only [coord, List.getD_cons_zero,
    List.getD_cons_succ] <;> omega

/-- A hop neither enters nor leaves the clear positions, unless it starts at
the router that is taken for the centre. -/
theorem XYHop.clear_iff {n : ℤ} {port : Nat} {next : Addr}
    (hop : XYHop x y dx dy port next)
    (source : validAddress n 2 [x, y] = true)
    (target : validAddress n 2 [dx, dy] = true)
    (aside : ¬ (x = n - 1 ∧ y = n - 1)) :
    XYClear n (coord next 0) (coord next 1) dx dy ↔
      XYClear n x y dx dy := by
  obtain ⟨xRange, yRange⟩ := validAddress_two.mp source
  obtain ⟨dxRange, dyRange⟩ := validAddress_two.mp target
  unfold XYClear
  cases hop <;> simp only [coord, List.getD_cons_zero,
    List.getD_cons_succ] <;> omega

/-- A ring port of a router that is not taken for the centre is in range if
its virtual channel is. -/
theorem hopInRange_two (alg : config.routingAlg ≠ .chipletStarTopoRouting)
    (flat : config.cubeSize = 2)
    (aside : ¬ (x = config.arySize - 1 ∧ y = config.arySize - 1))
    {vc : VC} (port : 1 ≤ vc.1 ∧ vc.1 ≤ 4)
    (next : validAddress config.arySize 2
      (ringNeighbour config.arySize [x, y] (vc.1 - 1)) = true) :
    HopInRange config [x, y] vc ↔ vc.2 < config.vcNumber := by
  refine ⟨HopInRange.channel, fun channel => ?_⟩
  refine hopInRange_ring ?_ (aside_two aside) port channel (flat ▸ next)
  rw [physicPorts_two alg flat]
  exact Nat.le_refl 5

theorem nextRouter_two {des : Addr} {vc : VC} {rest : List VC}
    (aside : ¬ (x = config.arySize - 1 ∧ y = config.arySize - 1))
    (apart : [x, y] ≠ des)
    (candidates : currAlgorithm config.arySize [x, y] des config.routingAlg =
      vc :: rest) (port : 1 ≤ vc.1 ∧ vc.1 ≤ 4) :
    nextRouter config des [x, y] =
      some (ringNeighbour config.arySize [x, y] (vc.1 - 1)) := by
  have ring : (vc.1 - 1) / 2 ≠ [x, y].length := by
    show (vc.1 - 1) / 2 ≠ 2
    omega
  rw [nextRouter, if_neg apart, candidates]
  simp only [List.head?_cons, Option.map_some, getNextAddress, linkedRouter,
    aside_two aside, Bool.false_eq_true, if_false, if_neg ring]

/-- A hop of `XY_algorithm` and its range. -/
theorem xy_hop (alg : config.routingAlg = .xy) (flat : config.cubeSize = 2)
    (source : validAddress config.arySize 2 [x, y] = true)
    (target : validAddress config.arySize 2 [dx, dy] = true)
    (apart : [x, y] ≠ [dx, dy])
    (aside : ¬ (x = config.arySize - 1 ∧ y = config.arySize - 1)) :
    ∃ port next,
      nextRouter config [dx, dy] [x, y] = some next ∧
        XYHop x y dx dy port next ∧
        ((∀ vc ∈ currAlgorithm config.arySize [x, y] [dx, dy]
            config.routingAlg, HopInRange config [x, y] vc) ↔
          4 ≤ config.vcNumber) := by
  have different : ¬ (x = dx ∧ y = dy) := by
    rintro ⟨rfl, rfl⟩
    exact apart rfl
  obtain ⟨port, next, candidates, linked, hop⟩ :=
    xyAlgorithm_hop source target different
  have chosen : currAlgorithm config.arySize [x, y] [dx, dy]
      config.routingAlg = [(port, 0), (port, 1), (port, 2), (port, 3)] := by
    rw [alg]
    exact candidates
  have bounds := hop.port_bounds
  have nextValid := hop.valid source target
  have range : ∀ lane, HopInRange config [x, y] (port, lane) ↔
      lane < config.vcNumber := fun lane =>
    hopInRange_two (alg ▸ nofun) flat aside bounds (linked ▸ nextValid)
  refine ⟨port, next, ?_, hop, ?_⟩
  · rw [nextRouter_two aside apart chosen bounds, linked]
  · rw [chosen]
    simp only [List.mem_cons, List.not_mem_nil, or_false, forall_eq_or_imp,
      forall_eq, range]
    omega

/-- `XY_algorithm` stays in range if it has four virtual channels and avoids
the last router. -/
theorem xy_inRange_iff (alg : config.routingAlg = .xy)
    (flat : config.cubeSize = 2) {src : Addr}
    (source : validAddress config.arySize 2 src = true)
    (target : validAddress config.arySize 2 [dx, dy] = true)
    (apart : src ≠ [dx, dy]) :
    (∀ count address,
      after (nextRouter config [dx, dy]) count src = some address →
        AddressInRange config [dx, dy] address) ↔
      4 ≤ config.vcNumber ∧
        XYClear config.arySize (coord src 0) (coord src 1) dx dy := by
  refine (forall_after_iff
    (fun address => validAddress config.arySize 2 address = true)
    (fun address => (address ≠ [dx, dy] → 4 ≤ config.vcNumber) ∧
      XYClear config.arySize (coord address 0) (coord address 1) dx dy)
    (fun address => gridDistance (coord address 0) (coord address 1) dx dy)
    ?_ ?_ source).trans (and_congr_left fun _ => ⟨fun room => room apart,
      fun room _ => room⟩)
  · rintro address valid ⟨room, clear⟩
    obtain ⟨x, y, rfl⟩ := exists_of_validAddress_two valid
    have aside : ¬ (x = config.arySize - 1 ∧ y = config.arySize - 1) :=
      clear.1
    refine ⟨⟨readCentral_two.mpr aside, ?_⟩, ?_⟩
    · intro away
      obtain ⟨_, _, _, _, range⟩ := xy_hop alg flat valid target away aside
      exact range.mpr (room away)
    · intro next taken
      have away := (nextRouter_eq_some.mp taken).1
      obtain ⟨_, _, taken', hop, _⟩ := xy_hop alg flat valid target away aside
      rw [taken] at taken'
      cases taken'
      exact ⟨hop.valid valid target, fun _ => room away,
        (hop.clear_iff valid target aside).mpr clear⟩
  · rintro address valid unclear ⟨read, range⟩
    obtain ⟨x, y, rfl⟩ := exists_of_validAddress_two valid
    have aside := readCentral_two.mp read
    have away : [x, y] ≠ [dx, dy] := by
      intro here
      cases here
      exact unclear ⟨fun apart => absurd rfl apart, aside, aside, aside⟩
    obtain ⟨_, next, taken, hop, room⟩ :=
      xy_hop alg flat valid target away aside
    refine ⟨next, taken, hop.valid valid target, ?_, hop.lowers⟩
    rintro ⟨_, clear⟩
    exact unclear ⟨fun _ => room.mp (range away),
      (hop.clear_iff valid target aside).mp clear⟩

/-! ### The torus -/

theorem TorusMove.port_bounds {n : ℤ} {vc : VC} {next : Addr}
    (move : TorusMove n x y dx dy vc next) : 1 ≤ vc.1 ∧ vc.1 ≤ 4 := by
  cases move with
  | @alongX raises | @alongY raises => cases raises <;> simp [ringPort]

theorem TorusMove.lane_lt {n : ℤ} {vc : VC} {next : Addr}
    (move : TorusMove n x y dx dy vc next) : vc.2 < 2 := by
  cases move with
  | alongX ring | alongY _ ring => exact ring.lane_lt

/-- The packet stays on channel `0` if it takes it now and further on. -/
theorem TorusMove.lowLane_iff {n : ℤ} {vc : VC} {next : Addr}
    (move : TorusMove n x y dx dy vc next)
    (target : validAddress n 2 [dx, dy] = true) :
    (LowLane n x dx ∧ LowLane n y dy) ↔
      vc.2 = 0 ∧ LowLane n (coord next 0) dx ∧
        LowLane n (coord next 1) dy := by
  obtain ⟨dxRange, dyRange⟩ := validAddress_two.mp target
  cases move with
  | alongX ring =>
      rw [ring.lowLane_iff dxRange]
      exact and_assoc
  | alongY column ring =>
      rw [ring.lowLane_iff dyRange, column]
      exact and_left_comm

theorem TorusMove.clear_iff {n : ℤ} {vc : VC} {next : Addr}
    (move : TorusMove n x y dx dy vc next)
    (source : validAddress n 2 [x, y] = true)
    (target : validAddress n 2 [dx, dy] = true)
    (aside : ¬ (x = n - 1 ∧ y = n - 1)) :
    TXYClear n (coord next 0) (coord next 1) dx dy ↔
      TXYClear n x y dx dy := by
  obtain ⟨xRange, yRange⟩ := validAddress_two.mp source
  obtain ⟨dxRange, dyRange⟩ := validAddress_two.mp target
  unfold TXYClear
  cases move with
  | @alongX _ _ x' ring =>
      show (¬ (y = n - 1 ∧ TouchesEnd n x' dx) ∧ _) ↔ _
      refine and_congr_left fun _ => not_congr (and_congr_right fun row => ?_)
      exact ring.touchesEnd_iff xRange dxRange fun column =>
        aside ⟨column, row⟩
  | @alongY _ _ y' column ring =>
      subst column
      show (¬ (y' = n - 1 ∧ TouchesEnd n x x) ∧
        ¬ (x = n - 1 ∧ TouchesEnd n y' dy)) ↔ _
      by_cases edge : x = n - 1
      · have inner : y ≠ n - 1 := fun row => aside ⟨edge, row⟩
        rw [ring.touchesEnd_iff yRange dyRange inner]
        refine and_congr_left fun untouched => ?_
        have apart : y' ≠ n - 1 := fun row => untouched ⟨edge,
          (ring.touchesEnd_iff yRange dyRange inner).mp (Or.inl row)⟩
        exact iff_of_true (fun both => apart both.1) fun both => inner both.1
      · have untouched : ¬ TouchesEnd n x x := by
          unfold TouchesEnd
          omega
        simp [edge, untouched]

/-- A hop of `TXY_algorithm` and its range. -/
theorem txy_hop (alg : config.routingAlg = .txy) (flat : config.cubeSize = 2)
    (source : validAddress config.arySize 2 [x, y] = true)
    (apart : [x, y] ≠ [dx, dy])
    (aside : ¬ (x = config.arySize - 1 ∧ y = config.arySize - 1)) :
    ∃ vc next,
      nextRouter config [dx, dy] [x, y] = some next ∧
        TorusMove config.arySize x y dx dy vc next ∧
        ((∀ vc ∈ currAlgorithm config.arySize [x, y] [dx, dy]
            config.routingAlg, HopInRange config [x, y] vc) ↔
          vc.2 < config.vcNumber) := by
  have different : ¬ (x = dx ∧ y = dy) := by
    rintro ⟨rfl, rfl⟩
    exact apart rfl
  obtain ⟨vc, next, candidates, linked, move⟩ :=
    txyAlgorithm_move (n := config.arySize) different
  have chosen : currAlgorithm config.arySize [x, y] [dx, dy]
      config.routingAlg = [vc] := by
    rw [alg]
    exact candidates
  refine ⟨vc, next, ?_, move, ?_⟩
  · rw [nextRouter_two aside apart chosen move.port_bounds, linked]
  · rw [chosen, List.forall_mem_singleton]
    exact hopInRange_two (alg ▸ nofun) flat aside move.port_bounds
      (linked ▸ move.valid source)

/-- `TXY_algorithm` stays in range if it avoids the last router, and has two
virtual channels or needs the first only. -/
theorem txy_inRange_iff (alg : config.routingAlg = .txy)
    (flat : config.cubeSize = 2) (channels : 1 ≤ config.vcNumber)
    {src : Addr} (source : validAddress config.arySize 2 src = true)
    (target : validAddress config.arySize 2 [dx, dy] = true) :
    (∀ count address,
      after (nextRouter config [dx, dy]) count src = some address →
        AddressInRange config [dx, dy] address) ↔
      (2 ≤ config.vcNumber ∨
          LowLane config.arySize (coord src 0) dx ∧
            LowLane config.arySize (coord src 1) dy) ∧
        TXYClear config.arySize (coord src 0) (coord src 1) dx dy := by
  obtain ⟨dxRange, dyRange⟩ := validAddress_two.mp target
  refine forall_after_iff
    (fun address => validAddress config.arySize 2 address = true)
    (fun address => (2 ≤ config.vcNumber ∨
        LowLane config.arySize (coord address 0) dx ∧
          LowLane config.arySize (coord address 1) dy) ∧
      TXYClear config.arySize (coord address 0) (coord address 1) dx dy)
    (torusDistance config.arySize [dx, dy]) ?_ ?_ source
  · rintro address valid ⟨room, clear⟩
    obtain ⟨x, y, rfl⟩ := exists_of_validAddress_two valid
    have aside : ¬ (x = config.arySize - 1 ∧ y = config.arySize - 1) :=
      fun both => clear.1 ⟨both.2, Or.inl both.1⟩
    have lane : ∀ {vc next}, TorusMove config.arySize x y dx dy vc next →
        vc.2 < config.vcNumber ∧ (2 ≤ config.vcNumber ∨
          LowLane config.arySize (coord next 0) dx ∧
            LowLane config.arySize (coord next 1) dy) := by
      intro vc next move
      have below := move.lane_lt
      rcases room with room | low
      · exact ⟨by omega, Or.inl room⟩
      · obtain ⟨zero, further⟩ := (move.lowLane_iff target).mp low
        exact ⟨by omega, Or.inr further⟩
    refine ⟨⟨readCentral_two.mpr aside, ?_⟩, ?_⟩
    · intro away
      obtain ⟨_, _, _, move, range⟩ := txy_hop alg flat valid away aside
      exact range.mpr (lane move).1
    · intro next taken
      have away := (nextRouter_eq_some.mp taken).1
      obtain ⟨_, _, taken', move, _⟩ := txy_hop alg flat valid away aside
      rw [taken] at taken'
      cases taken'
      exact ⟨move.valid valid, (lane move).2,
        (move.clear_iff valid target aside).mpr clear⟩
  · rintro address valid unclear ⟨read, range⟩
    obtain ⟨x, y, rfl⟩ := exists_of_validAddress_two valid
    have aside := readCentral_two.mp read
    have away : [x, y] ≠ [dx, dy] := by
      intro here
      cases here
      have untouched : ∀ {z : ℤ}, 0 ≤ z ∧ z < config.arySize →
          (TouchesEnd config.arySize z z ↔ z = config.arySize - 1) := by
        intro z inside
        unfold TouchesEnd
        omega
      refine unclear ⟨Or.inr ⟨lowLane_self (by omega),
        lowLane_self (by omega)⟩, ?_, ?_⟩
      · rintro ⟨row, touches⟩
        exact aside ⟨(untouched dxRange).mp touches, row⟩
      · rintro ⟨column, touches⟩
        exact aside ⟨column, (untouched dyRange).mp touches⟩
    obtain ⟨vc, next, taken, move, room⟩ :=
      txy_hop alg flat valid away aside
    refine ⟨next, taken, move.valid valid, ?_, ?_⟩
    · rintro ⟨low, clear⟩
      refine unclear ⟨?_, (move.clear_iff valid target aside).mp clear⟩
      by_cases wide : 2 ≤ config.vcNumber
      · exact Or.inl wide
      · have lane := room.mp (range away)
        exact Or.inr ((move.lowLane_iff target).mpr
          ⟨by omega, low.resolve_left wide⟩)
    · have closer := move.closer valid target
      omega

end Flat

/-! ## Four dimensions -/

section Cube

variable {config : Config} {x y u v dx dy du dv : ℤ}

/-- All components exist. -/
theorem readCentral_four {c : ℤ} :
    (readCentral [x, y, u, v] c).isSome = true := by
  by_cases column : x = c <;> by_cases row : y = c <;>
    by_cases core : u = 0 <;> by_cases last : v = 0 <;>
    simp [readCentral, readComponents, column, row, core, last]

theorem physicPorts_mesh (alg : config.routingAlg = .chipletRouting)
    (cube : config.cubeSize = 4) : config.physicPorts = 9 := by
  rw [Config.physicPorts, alg, cube]
  rfl

theorem physicPorts_star (alg : config.routingAlg = .chipletStarTopoRouting)
    (cube : config.cubeSize = 4) : config.physicPorts = 17 := by
  rw [Config.physicPorts, alg, cube]
  rfl

/-- Both channels of `addRoutingForDifferentVC` are in range. -/
theorem forall_addRouting {port : Nat} {InRange : VC → Prop} {Port : Prop}
    (range : ∀ lane, InRange (port, lane) ↔ lane < config.vcNumber ∧ Port) :
    (∀ vc ∈ addRoutingForDifferentVC port, InRange vc) ↔
      2 ≤ config.vcNumber ∧ Port := by
  simp only [addRoutingForDifferentVC, List.mem_cons, List.not_mem_nil,
    or_false, forall_eq_or_imp, forall_eq, range]
  constructor
  · rintro ⟨⟨_, inside⟩, second, _⟩
    exact ⟨second, inside⟩
  · rintro ⟨room, inside⟩
    exact ⟨⟨by omega, inside⟩, by omega, inside⟩

/-! ### The mesh -/

/-- A hop of `chiplet_routing_alg` and its range. -/
theorem mesh_hop (alg : config.routingAlg = .chipletRouting)
    (cube : config.cubeSize = 4)
    (source : validAddress config.arySize 4 [x, y, u, v] = true)
    (target : validAddress config.arySize 4 [dx, dy, du, dv] = true)
    (apart : [x, y, u, v] ≠ [dx, dy, du, dv])
    (aside : isCentral [x, y, u, v] (config.arySize - 1) = false) :
    ∃ port next,
      nextRouter config [dx, dy, du, dv] [x, y, u, v] = some next ∧
        ChipletMove x y u v dx dy du dv port next ∧
        ((∀ vc ∈ currAlgorithm config.arySize [x, y, u, v] [dx, dy, du, dv]
            config.routingAlg, HopInRange config [x, y, u, v] vc) ↔
          2 ≤ config.vcNumber) := by
  obtain ⟨port, next, chosen, linked, move⟩ :=
    chipletPort_move source target apart
  have bounds := chipletPort_bounds [x, y, u, v] [dx, dy, du, dv]
  rw [chosen] at bounds
  have candidates : currAlgorithm config.arySize [x, y, u, v]
      [dx, dy, du, dv] config.routingAlg = addRoutingForDifferentVC port := by
    rw [alg, ← chosen]
    rfl
  refine ⟨port, next, ?_, move, ?_⟩
  · have ring : (port - 1) / 2 ≠ [x, y, u, v].length := by
      show (port - 1) / 2 ≠ 4
      omega
    rw [nextRouter, if_neg apart, candidates]
    simp only [addRoutingForDifferentVC, List.head?_cons, Option.map_some,
      getNextAddress, linkedRouter, aside, Bool.false_eq_true, if_false,
      if_neg ring, linked]
  · rw [candidates]
    refine (forall_addRouting fun lane => ?_).trans (and_iff_left trivial)
    refine ⟨fun range => ⟨range.channel, trivial⟩, fun range => ?_⟩
    refine hopInRange_ring ?_ aside ⟨bounds.1, ?_⟩ range.1 ?_
    · rw [physicPorts_mesh alg cube]
      exact Nat.lt_succ_self 8
    · exact Nat.le_of_lt_succ bounds.2
    · rw [cube]
      dsimp only
      rw [linked]
      exact move.valid source target

/-- Every hop from the router that is taken for the centre enters the next
router by port `9`, which it does not have. -/
theorem mesh_centre_out (alg : config.routingAlg = .chipletRouting)
    (cube : config.cubeSize = 4)
    (central : isCentral [x, y, u, v] (config.arySize - 1) = true)
    (vc : VC) : ¬ HopInRange config [x, y, u, v] vc := by
  intro range
  have pc : getWirePc config.arySize [x, y, u, v] vc.1 = 9 := by
    simp [getWirePc, linkedPort, central]
  have inside := range.wirePc
  rw [pc, physicPorts_mesh alg cube] at inside
  exact lt_irrefl 9 inside

theorem meshClear_self (n : ℤ) : MeshClear n dx dy du dv dx dy du dv :=
  Or.inl ⟨rfl, rfl, fun _ _ row passes => ⟨passes.elim id id, row⟩⟩

/-- `chiplet_routing_alg` stays in range if it has two virtual channels and
does not leave the router that is taken for the centre. -/
theorem mesh_inRange_iff (alg : config.routingAlg = .chipletRouting)
    (cube : config.cubeSize = 4) {src : Addr}
    (source : validAddress config.arySize 4 src = true)
    (target : validAddress config.arySize 4 [dx, dy, du, dv] = true)
    (apart : src ≠ [dx, dy, du, dv]) :
    (∀ count address,
      after (nextRouter config [dx, dy, du, dv]) count src = some address →
        AddressInRange config [dx, dy, du, dv] address) ↔
      2 ≤ config.vcNumber ∧
        MeshClear config.arySize (coord src 0) (coord src 1) (coord src 2)
          (coord src 3) dx dy du dv := by
  refine (forall_after_iff
    (fun address => validAddress config.arySize 4 address = true)
    (fun address => (address ≠ [dx, dy, du, dv] → 2 ≤ config.vcNumber) ∧
      MeshClear config.arySize (coord address 0) (coord address 1)
        (coord address 2) (coord address 3) dx dy du dv)
    (fun address => meshRank config.arySize (coord address 0)
      (coord address 1) (coord address 2) (coord address 3) dx dy du dv)
    ?_ ?_ source).trans (and_congr_left fun _ => ⟨fun room => room apart,
      fun room _ => room⟩)
  · rintro address valid ⟨room, clear⟩
    obtain ⟨x, y, u, v, rfl⟩ := exists_of_validAddress valid
    have aside : [x, y, u, v] ≠ [dx, dy, du, dv] →
        isCentral [x, y, u, v] (config.arySize - 1) = false :=
      clear.aside
    refine ⟨⟨readCentral_four, ?_⟩, ?_⟩
    · intro away
      obtain ⟨_, _, _, _, range⟩ :=
        mesh_hop alg cube valid target away (aside away)
      exact range.mpr (room away)
    · intro next taken
      have away := (nextRouter_eq_some.mp taken).1
      obtain ⟨_, _, taken', move, _⟩ :=
        mesh_hop alg cube valid target away (aside away)
      rw [taken] at taken'
      cases taken'
      exact ⟨move.valid valid target, fun _ => room away,
        (move.clear_iff valid target (aside away)).mpr clear⟩
  · rintro address valid unclear ⟨_, range⟩
    obtain ⟨x, y, u, v, rfl⟩ := exists_of_validAddress valid
    have away : [x, y, u, v] ≠ [dx, dy, du, dv] := by
      intro here
      cases here
      exact unclear ⟨fun apart => absurd rfl apart, meshClear_self _⟩
    have aside : isCentral [x, y, u, v] (config.arySize - 1) = false := by
      rw [Bool.eq_false_iff]
      intro central
      have member : (chipletPort [x, y, u, v] [dx, dy, du, dv], 0) ∈
          currAlgorithm config.arySize [x, y, u, v] [dx, dy, du, dv]
            config.routingAlg := by
        rw [alg]
        exact List.mem_cons_self
      exact mesh_centre_out alg cube central _ (range away _ member)
    obtain ⟨_, next, taken, move, room⟩ :=
      mesh_hop alg cube valid target away aside
    refine ⟨next, taken, move.valid valid target, ?_,
      move.lowers valid target⟩
    rintro ⟨_, clear⟩
    exact unclear ⟨fun _ => room.mp (range away),
      (move.clear_iff valid target aside).mp clear⟩

/-! ### The star -/

/-- A hop of `chiplet_star_topo_routing_alg` away from the centre and its
range.  Port `9` leads to the port of the centre that is numbered by the
chiplet. -/
theorem star_hop (big : 2 ≤ config.arySize)
    (alg : config.routingAlg = .chipletStarTopoRouting)
    (cube : config.cubeSize = 4)
    (source : validAddress config.arySize 4 [x, y, u, v] = true)
    (target : validAddress config.arySize 4 [dx, dy, du, dv] = true)
    (apart : [x, y, u, v] ≠ [dx, dy, du, dv])
    (aside : isCentral [x, y, u, v] (config.arySize - 1) = false) :
    ∃ port next,
      nextRouter config [dx, dy, du, dv] [x, y, u, v] = some next ∧
        StarMove (config.arySize - 1) x y u v dx dy du dv port next ∧
        ((∀ vc ∈ currAlgorithm config.arySize [x, y, u, v] [dx, dy, du, dv]
            config.routingAlg, HopInRange config [x, y, u, v] vc) ↔
          2 ≤ config.vcNumber ∧
            (port = 9 → x * (config.arySize - 1) + y ≤ 15)) := by
  obtain ⟨xRange, yRange, _⟩ := validAddress_four.mp source
  have large : (2 : ℤ) ≤ config.arySize := by exact_mod_cast big
  have product : 0 ≤ x * ((config.arySize : ℤ) - 1) :=
    mul_nonneg xRange.1 (by omega)
  obtain ⟨port, next, chosen, linked, move⟩ :=
    chipletStarPort_move source target apart aside
  have bounds : 1 ≤ port ∧ port ≤ 9 := by
    cases move with
    | inside _ _ core | outbound _ core =>
        have inner := core.port_bounds
        omega
    | toCentre => omega
  have candidates : currAlgorithm config.arySize [x, y, u, v]
      [dx, dy, du, dv] config.routingAlg = addRoutingForDifferentVC port := by
    rw [alg, ← chosen]
    rfl
  refine ⟨port, next, ?_, move, ?_⟩
  · rw [nextRouter, if_neg apart, candidates, ← linked]
    rfl
  · rw [candidates]
    refine forall_addRouting fun lane => ?_
    have wirePc : getWirePc config.arySize [x, y, u, v] port <
        config.physicPorts ↔
          (port = 9 → x * (config.arySize - 1) + y ≤ 15) := by
      rw [physicPorts_star alg cube]
      simp only [getWirePc, linkedPort, aside, Bool.false_eq_true, if_false,
        List.length_cons, List.length_nil, coord_four]
      split_ifs <;> omega
    constructor
    · exact fun range => ⟨range.channel, wirePc.mp range.wirePc⟩
    · rintro ⟨channel, inside⟩
      refine ⟨⟨bounds.1, ?_⟩, channel, wirePc.mpr inside, fun _ => ?_, ?_⟩
      · rw [physicPorts_star alg cube]
        dsimp only
        omega
      · show (port - 1) / 2 ≤ 4
        omega
      · rw [cube]
        dsimp only
        rw [linked]
        exact move.valid large source target

/-- Such a hop, other than one with a port that the centre does not have,
changes nothing about whether the packet fits. -/
theorem StarMove.fits_iff {n : ℤ} {port : Nat} {next : Addr}
    (move : StarMove (n - 1) x y u v dx dy du dv port next)
    (source : validAddress n 4 [x, y, u, v] = true)
    (target : validAddress n 4 [dx, dy, du, dv] = true)
    (aside : isCentral [x, y, u, v] (n - 1) = false) :
    StarFits n x y u v dx dy du dv ↔
      (port = 9 → x * (n - 1) + y ≤ 15) ∧
        StarFits n (coord next 0) (coord next 1) (coord next 2)
          (coord next 3) dx dy du dv := by
  obtain ⟨_, _, uRange, vRange⟩ := validAddress_four.mp source
  obtain ⟨_, _, duRange, dvRange⟩ := validAddress_four.mp target
  cases move with
  | @inside _ u' v' xSame ySame core =>
      have inner := core.port_bounds
      have avoids := core.avoidsCentre_iff ⟨uRange.1, vRange.1⟩
        ⟨duRange.1, dvRange.1⟩ aside
      rw [and_iff_right fun nine => absurd nine (by omega)]
      show _ ↔ StarFits n x y u' v' dx dy du dv
      unfold StarFits
      rw [avoids]
  | @outbound _ u' v' different core =>
      have inner := core.port_bounds
      rw [and_iff_right fun nine => absurd nine (by omega)]
      show _ ↔ StarFits n x y u' v' dx dy du dv
      have away : ∀ core : Prop, ¬ (x = dx ∧ y = dy ∧ core) :=
        fun _ same => different ⟨same.1, same.2.1⟩
      simp only [StarFits, away, false_or]
  | toCentre different uZero vZero =>
      subst uZero vZero
      have offCentre : ¬ (x = n - 1 ∧ y = n - 1) := by
        rintro ⟨xEdge, yEdge⟩
        rw [isCentral_four.mpr ⟨xEdge, yEdge, rfl, rfl⟩] at aside
        cases aside
      show _ ↔ _ ∧ StarFits n (n - 1) (n - 1) 0 0 dx dy du dv
      unfold StarFits AvoidsCentre
      rw [or_iff_right fun same => different ⟨same.1, same.2.1⟩,
        and_iff_right different, or_iff_right offCentre]
      refine and_congr ⟨fun inside _ => inside, fun inside => inside rfl⟩ ?_
      by_cases home : n - 1 = dx ∧ n - 1 = dy
      · constructor
        · intro fits
          exact Or.inl ⟨home.1, home.2, fun _ _ _ _ => by omega⟩
        · rintro (⟨_, _, avoids⟩ | ⟨away, _⟩)
          · obtain ⟨duZero, dvZero⟩ := avoids rfl rfl rfl (Or.inl rfl)
            exact Or.inl ⟨home.1.symm, home.2.symm, duZero, dvZero⟩
          · exact absurd home away
      · constructor
        · exact fun fits => Or.inr ⟨home, Or.inl ⟨rfl, rfl⟩, fits⟩
        · rintro (⟨column, row, _⟩ | ⟨_, _, fits⟩)
          · exact absurd ⟨column, row⟩ home
          · exact fits

/-- At the centre. -/
theorem starFits_centre {n : ℤ}
    (apart : [n - 1, n - 1, 0, 0] ≠ [dx, dy, du, dv]) :
    StarFits n (n - 1) (n - 1) 0 0 dx dy du dv ↔
      ¬ (dx = n - 1 ∧ dy = n - 1) ∧ dx * (n - 1) + dy ≤ 15 := by
  unfold StarFits AvoidsCentre
  constructor
  · rintro (⟨rfl, rfl, avoids⟩ | ⟨away, _, ⟨rfl, rfl, _⟩ | fits⟩)
    · obtain ⟨rfl, rfl⟩ := avoids rfl rfl rfl (Or.inl rfl)
      exact absurd rfl apart
    · exact absurd ⟨rfl, rfl⟩ away
    · exact fits
  · rintro ⟨away, inside⟩
    exact Or.inr ⟨fun same => away ⟨same.1.symm, same.2.symm⟩,
      Or.inl ⟨rfl, rfl⟩, Or.inr ⟨away, inside⟩⟩

/-- The router behind the port of the centre, and that its port and address
exist. -/
theorem star_centre_next {n : ℤ} (big : 2 ≤ n)
    (target : validAddress n 4 [dx, dy, du, dv] = true)
    (away : ¬ (dx = n - 1 ∧ dy = n - 1)) (inside : dx * (n - 1) + dy ≤ 15) :
    ∃ x y,
      getNextAddress n [n - 1, n - 1, 0, 0]
          (dx * (n - 1) + dy + 1).toNat = [x, y, 0, 0] ∧
        validAddress n 4 [x, y, 0, 0] = true ∧
        StarFits n x y 0 0 dx dy du dv := by
  obtain ⟨dxRange, dyRange, _⟩ := validAddress_four.mp target
  by_cases leaf : dy < n - 1
  · refine ⟨dx, dy, linkedRouter_centre dxRange.1 ⟨dyRange.1, leaf⟩,
      validAddress_four.mpr (by omega), Or.inl ⟨rfl, rfl, ?_⟩⟩
    intro column row
    exact absurd ⟨column, row⟩ away
  · have lastColumn : dy = n - 1 := by omega
    subst lastColumn
    have further : (dx + 1) * (n - 1) = dx * (n - 1) + (n - 1) := by ring
    refine ⟨dx + 1, 0, linkedRouter_centre_lastColumn big dxRange.1,
      validAddress_four.mpr (by omega), Or.inr ⟨by omega, Or.inr ?_,
        Or.inr ⟨away, inside⟩⟩⟩
    rw [further]
    omega

/-- The candidates at the centre. -/
theorem star_centre (big : 2 ≤ config.arySize)
    (alg : config.routingAlg = .chipletStarTopoRouting)
    (cube : config.cubeSize = 4) {n : ℤ} (size : n = config.arySize)
    (target : validAddress n 4 [dx, dy, du, dv] = true) :
    (∀ vc ∈ currAlgorithm n [n - 1, n - 1, 0, 0] [dx, dy, du, dv]
        config.routingAlg, HopInRange config [n - 1, n - 1, 0, 0] vc) ↔
      2 ≤ config.vcNumber ∧
        ¬ (dx = n - 1 ∧ dy = n - 1) ∧ dx * (n - 1) + dy ≤ 15 := by
  subst size
  obtain ⟨dxRange, dyRange, _⟩ := validAddress_four.mp target
  have large : (2 : ℤ) ≤ config.arySize := by exact_mod_cast big
  have product : 0 ≤ dx * ((config.arySize : ℤ) - 1) :=
    mul_nonneg dxRange.1 (by omega)
  have centre : isCentral [(config.arySize : ℤ) - 1, config.arySize - 1, 0, 0]
      (config.arySize - 1) = true := isCentral_four.mpr ⟨rfl, rfl, rfl, rfl⟩
  have candidates : currAlgorithm config.arySize
      [config.arySize - 1, config.arySize - 1, 0, 0] [dx, dy, du, dv]
      config.routingAlg = addRoutingForDifferentVC
        (dx * ((config.arySize : ℤ) - 1) + dy + 1).toNat := by
    rw [alg, ← chipletStarPort_centre config.arySize dx dy du dv]
    rfl
  rw [candidates]
  refine forall_addRouting fun lane => ?_
  constructor
  · intro range
    have ports := range.port.2
    have next := range.next
    rw [physicPorts_star alg cube] at ports
    rw [cube] at next
    dsimp only at ports next
    refine ⟨range.channel, ?_, by omega⟩
    rintro ⟨rfl, rfl⟩
    have landed : getNextAddress config.arySize
        [(config.arySize : ℤ) - 1, config.arySize - 1, 0, 0]
        (((config.arySize : ℤ) - 1) * (config.arySize - 1) +
          (config.arySize - 1) + 1).toNat =
        [(config.arySize : ℤ) - 1 + 1, 0, 0, 0] :=
      linkedRouter_centre_lastColumn large dxRange.1
    rw [landed, validAddress_four] at next
    omega
  · rintro ⟨channel, away, inside⟩
    obtain ⟨x, y, landed, valid, _⟩ :=
      star_centre_next large target away inside
    refine ⟨⟨by dsimp only; omega, ?_⟩, channel, ?_, ?_, ?_⟩
    · rw [physicPorts_star alg cube]
      dsimp only
      omega
    · rw [physicPorts_star alg cube]
      simp [getWirePc, linkedPort, centre]
    · intro aside
      rw [centre] at aside
      cases aside
    · rw [cube]
      dsimp only
      rw [landed]
      exact valid

/-- `chiplet_star_topo_routing_alg` stays in range if it has two virtual
channels, the centre has ports for both chiplets, and the packet does not
leave the centre for a core of its chiplet. -/
theorem star_inRange_iff (big : 2 ≤ config.arySize)
    (alg : config.routingAlg = .chipletStarTopoRouting)
    (cube : config.cubeSize = 4) {src : Addr}
    (source : validAddress config.arySize 4 src = true)
    (target : validAddress config.arySize 4 [dx, dy, du, dv] = true)
    (apart : src ≠ [dx, dy, du, dv]) :
    (∀ count address,
      after (nextRouter config [dx, dy, du, dv]) count src = some address →
        AddressInRange config [dx, dy, du, dv] address) ↔
      2 ≤ config.vcNumber ∧
        StarFits config.arySize (coord src 0) (coord src 1) (coord src 2)
          (coord src 3) dx dy du dv := by
  have large : (2 : ℤ) ≤ config.arySize := by exact_mod_cast big
  refine (forall_after_iff
    (fun address => validAddress config.arySize 4 address = true)
    (fun address => (address ≠ [dx, dy, du, dv] → 2 ≤ config.vcNumber) ∧
      StarFits config.arySize (coord address 0) (coord address 1)
        (coord address 2) (coord address 3) dx dy du dv)
    (fun address => starRank config.arySize (coord address 0)
      (coord address 1) (coord address 2) (coord address 3) dx dy du dv)
    ?_ ?_ source).trans (and_congr_left fun _ => ⟨fun room => room apart,
      fun room _ => room⟩)
  · rintro address valid ⟨room, fits⟩
    obtain ⟨x, y, u, v, rfl⟩ := exists_of_validAddress valid
    have fits : StarFits config.arySize x y u v dx dy du dv := fits
    by_cases central : isCentral [x, y, u, v] (config.arySize - 1) = true
    · obtain ⟨rfl, rfl, rfl, rfl⟩ := isCentral_four.mp central
      refine ⟨⟨readCentral_four, ?_⟩, ?_⟩
      · intro away
        exact (star_centre big alg cube rfl target).mpr
          ⟨room away, (starFits_centre away).mp fits⟩
      · intro next taken
        have away := (nextRouter_eq_some.mp taken).1
        obtain ⟨other, inside⟩ := (starFits_centre away).mp fits
        obtain ⟨x', y', landed, nextValid, further⟩ :=
          star_centre_next large target other inside
        have taken' : nextRouter config [dx, dy, du, dv]
            [(config.arySize : ℤ) - 1, config.arySize - 1, 0, 0] =
              some [x', y', 0, 0] := by
          rw [nextRouter, if_neg away, alg, ← landed,
            ← chipletStarPort_centre config.arySize dx dy du dv]
          rfl
        rw [taken] at taken'
        cases taken'
        exact ⟨nextValid, fun _ => room away, further⟩
    · have aside : isCentral [x, y, u, v] (config.arySize - 1) = false := by
        simpa using central
      refine ⟨⟨readCentral_four, ?_⟩, ?_⟩
      · intro away
        obtain ⟨_, _, _, move, range⟩ :=
          star_hop big alg cube valid target away aside
        exact range.mpr ⟨room away,
          ((move.fits_iff valid target aside).mp fits).1⟩
      · intro next taken
        have away := (nextRouter_eq_some.mp taken).1
        obtain ⟨_, _, taken', move, _⟩ :=
          star_hop big alg cube valid target away aside
        rw [taken] at taken'
        cases taken'
        exact ⟨move.valid large valid target, fun _ => room away,
          ((move.fits_iff valid target aside).mp fits).2⟩
  · rintro address valid unfit ⟨_, range⟩
    obtain ⟨x, y, u, v, rfl⟩ := exists_of_validAddress valid
    have away : [x, y, u, v] ≠ [dx, dy, du, dv] := by
      intro here
      cases here
      exact unfit ⟨fun apart => absurd rfl apart,
        Or.inl ⟨rfl, rfl, fun _ _ row passes => ⟨passes.elim id id, row⟩⟩⟩
    have aside : isCentral [x, y, u, v] (config.arySize - 1) = false := by
      rw [Bool.eq_false_iff]
      intro central
      obtain ⟨rfl, rfl, rfl, rfl⟩ := isCentral_four.mp central
      obtain ⟨room, inside⟩ :=
        (star_centre big alg cube rfl target).mp (range away)
      exact unfit ⟨fun _ => room, (starFits_centre away).mpr inside⟩
    obtain ⟨_, next, taken, move, room⟩ :=
      star_hop big alg cube valid target away aside
    refine ⟨next, taken, move.valid large valid target, ?_,
      move.lowers target aside⟩
    rintro ⟨_, fits⟩
    obtain ⟨wide, inside⟩ := room.mp (range away)
    exact unfit ⟨fun _ => wide,
      (move.fits_iff valid target aside).mpr ⟨inside, fits⟩⟩

end Cube

/-! ## All algorithms -/

/-- The dimensions that the algorithms are made for. -/
def RoutingType.cubeSize : RoutingType → Nat
  | .xy => 2
  | .txy => 2
  | .chipletRouting => 4
  | .chipletStarTopoRouting => 4

/-- The ports, virtual channels and addresses on a route are in range exactly
if the packet is for the router itself or the route fits. -/
theorem ports_in_range_iff {config : Config} (big : 2 ≤ config.arySize)
    (cube : config.cubeSize = config.routingAlg.cubeSize)
    (channels : 1 ≤ config.vcNumber) {src des : Addr}
    (source : validAddress config.arySize config.cubeSize src = true)
    (target : validAddress config.arySize config.cubeSize des = true) :
    RouteInRange config src des ↔ src = des ∨ RouteFits config src des := by
  by_cases apart : src = des
  · exact iff_of_true (fun different => absurd apart different)
      (Or.inl apart)
  rw [or_iff_right apart, RouteInRange, forall_prop_of_true apart, RouteFits]
  cases alg : config.routingAlg with
  | xy =>
      rw [alg] at cube
      rw [cube] at source target
      obtain ⟨dx, dy, rfl⟩ := exists_of_validAddress_two target
      exact xy_inRange_iff alg cube source target apart
  | txy =>
      rw [alg] at cube
      rw [cube] at source target
      obtain ⟨dx, dy, rfl⟩ := exists_of_validAddress_two target
      exact txy_inRange_iff alg cube channels source target
  | chipletRouting =>
      rw [alg] at cube
      rw [cube] at source target
      obtain ⟨dx, dy, du, dv, rfl⟩ := exists_of_validAddress target
      exact mesh_inRange_iff alg cube source target apart
  | chipletStarTopoRouting =>
      rw [alg] at cube
      rw [cube] at source target
      obtain ⟨dx, dy, du, dv, rfl⟩ := exists_of_validAddress target
      exact star_inRange_iff big alg cube source target apart

/-- A star of five rows and columns. -/
def starFive : Config where
  arySize := 5
  cubeSize := 4
  vcNumber := 2
  bufferSize := 4
  outbufferSize := 4
  routingAlg := .chipletStarTopoRouting

theorem ports_in_range_starFive :
    RouteInRange starFive [0, 1, 2, 3] [3, 3, 1, 0] := by
  refine (ports_in_range_iff (show 2 ≤ starFive.arySize by decide) rfl
    (by decide) (by decide) (by decide)).mpr (Or.inr ⟨by decide, ?_⟩)
  show StarFits 5 0 1 2 3 3 3 1 0
  unfold StarFits
  exact Or.inr ⟨by decide, Or.inr (by decide), Or.inr (by decide)⟩

/-- A packet from the gateway of chiplet `(0, 0)` to that of chiplet `(4, 0)`:
the port of the centre would be `17`, and there are `17` ports. -/
theorem centre_port_missing :
    starFive.cubeSize = starFive.routingAlg.cubeSize ∧
      validAddress starFive.arySize starFive.cubeSize [0, 0, 0, 0] = true ∧
      validAddress starFive.arySize starFive.cubeSize [4, 0, 0, 0] = true ∧
      ¬ RouteInRange starFive [0, 0, 0, 0] [4, 0, 0, 0] := by
  refine ⟨rfl, by decide, by decide, ?_⟩
  intro inRange
  have atCentre : AddressInRange starFive [4, 0, 0, 0] [4, 4, 0, 0] :=
    inRange (by decide) 1 [4, 4, 0, 0] (by decide)
  have hop := atCentre.2 (by decide) (17, 0) (by decide)
  exact absurd hop.port.2 (by decide)

end ChipletSniper.Popnet
