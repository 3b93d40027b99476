import ChipletSniper.Popnet.Links

/-!
# Counting hops for power

The two power tools add up closed formulas for the lines of a trace: the hops
between chiplets and the hops inside chiplets.  Popnet walks.  For every line
the walk has as many hops of each kind as the formulas say.
-/

namespace ChipletSniper.Popnet

open Library

/-- A line of the trace: the addresses without the time and the size. -/
structure TraceLine where
  srcChipletX : ℤ
  srcChipletY : ℤ
  srcCoreX : ℤ
  srcCoreY : ℤ
  desChipletX : ℤ
  desChipletY : ℤ
  desCoreX : ℤ
  desCoreY : ℤ

namespace TraceLine

variable (line : TraceLine)

def src : Addr :=
  [line.srcChipletX, line.srcChipletY, line.srcCoreX, line.srcCoreY]

def des : Addr :=
  [line.desChipletX, line.desChipletY, line.desCoreX, line.desCoreY]

end TraceLine

def blockDistance (x1 y1 x2 y2 : ℤ) : ℤ :=
  |x1 - x2| + |y1 - y2|

/-! ## The tools -/

/-- The sums of `power_calculate`. -/
structure HopSums where
  chipletHopSum : ℤ
  coreHopSum : ℤ
  chipletHopSumX : ℤ
  chipletHopSumY : ℤ

/-- The body of the loop of `power_calculate`. -/
def HopSums.add (sums : HopSums) (line : TraceLine) : HopSums :=
  let chipletHop := blockDistance line.desChipletX line.desChipletY
    line.srcChipletX line.srcChipletY
  if chipletHop = 0 then
    { sums with
      coreHopSum := sums.coreHopSum +
        blockDistance line.desCoreX line.desCoreY line.srcCoreX
          line.srcCoreY }
  else
    { chipletHopSum := sums.chipletHopSum + chipletHop
      coreHopSum := sums.coreHopSum +
        (blockDistance line.desCoreX line.desCoreY 0 0 +
          blockDistance 0 0 line.srcCoreX line.srcCoreY)
      chipletHopSumX :=
        sums.chipletHopSumX + |line.desChipletX - line.srcChipletX|
      chipletHopSumY :=
        sums.chipletHopSumY + |line.desChipletY - line.srcChipletY| }

/-- `chipletType`. -/
def chipletType (chiplet : ℤ × ℤ) : Nat :=
  if chiplet.1 = 1 ∨ chiplet.1 = 2 then 0 else 1

/-- The sums of `star_topo_power_calculate`; `chipletHopSums` has one sum for
every type of chiplet. -/
structure StarHopSums where
  coreHopSum : ℤ
  chipletHopSums : Nat → ℤ

/-- `addInterchipletDistance`. -/
def StarHopSums.addInterchipletDistance (sums : StarHopSums)
    (chiplet : ℤ × ℤ) : StarHopSums :=
  { sums with
    chipletHopSums := Function.update sums.chipletHopSums
      (chipletType chiplet) (sums.chipletHopSums (chipletType chiplet) + 1) }

/-- The body of the loop of `star_topo_power_calculate`. -/
def StarHopSums.add (sums : StarHopSums) (line : TraceLine) : StarHopSums :=
  let chipletHop := blockDistance line.desChipletX line.desChipletY
    line.srcChipletX line.srcChipletY
  if chipletHop = 0 then
    { sums with
      coreHopSum := sums.coreHopSum +
        blockDistance line.desCoreX line.desCoreY line.srcCoreX
          line.srcCoreY }
  else
    let added : StarHopSums :=
      { sums with
        coreHopSum := sums.coreHopSum +
          (blockDistance line.desCoreX line.desCoreY 0 0 +
            blockDistance 0 0 line.srcCoreX line.srcCoreY) }
    (added.addInterchipletDistance
      (line.srcChipletX, line.srcChipletY)).addInterchipletDistance
        (line.desChipletX, line.desChipletY)

/-! ## The walks -/

/-- The hop from `address` takes one of the ports from `low` to `high`. -/
def usesPort (port : Addr → Nat) (low high : Nat) (address : Addr) : Bool :=
  low ≤ port address && port address ≤ high

/-- The hops from `address` inside chiplets that are still to come. -/
def coreHops (des address : Addr) : Nat :=
  if coord address 0 = coord des 0 ∧ coord address 1 = coord des 1 then
    gridDistance (coord address 2) (coord address 3) (coord des 2)
      (coord des 3)
  else
    gridDistance (coord address 2) (coord address 3) 0 0 +
      gridDistance 0 0 (coord des 2) (coord des 3)

/-- The chiplet at the end of the link to the centre that the hop from
`address` takes, if it takes one. -/
def centreLink (n : ℤ) (des address : Addr) : List (ℤ × ℤ) :=
  if isCentral address (n - 1) then
    let next := getNextAddress n address (chipletStarPort n address des)
    [(coord next 0, coord next 1)]
  else if chipletStarPort n address des = 9 then
    [(coord address 0, coord address 1)]
  else []

section Moves

variable {base port : Nat} {u v du dv u' v' : ℤ}

/-- Every move is one on a shortest way. -/
theorem XYMove.exact (move : XYMove base u v du dv port u' v') :
    gridDistance u v du dv = gridDistance u' v' du dv + 1 := by
  unfold gridDistance
  cases move <;> omega

/-- What a move does to each coordinate. -/
theorem XYMove.split (move : XYMove base u v du dv port u' v') :
    (u - du).natAbs =
        (if base ≤ port ∧ port ≤ base + 1 then 1 else 0) +
          (u' - du).natAbs ∧
      (v - dv).natAbs =
        (if base + 2 ≤ port ∧ port ≤ base + 3 then 1 else 0) +
          (v' - dv).natAbs := by
  cases move <;> constructor <;> split_ifs <;> omega

theorem gridDistance_cast :
    (gridDistance u v du dv : ℤ) = blockDistance du dv u v := by
  unfold gridDistance blockDistance
  rw [Int.abs_eq_natAbs, Int.abs_eq_natAbs]
  omega

end Moves

section Mesh

variable {n : ℤ} {des address next : Addr}

theorem ringHop_move (source : validAddress n 4 address = true)
    (target : validAddress n 4 des = true)
    (taken : ringHop n des address = some next) :
    validAddress n 4 next = true ∧
      ChipletMove (coord address 0) (coord address 1) (coord address 2)
        (coord address 3) (coord des 0) (coord des 1) (coord des 2)
        (coord des 3) (chipletPort address des) next := by
  simp only [ringHop, Option.ite_none_left_eq_some,
    Option.ite_none_right_eq_some, Option.some.injEq] at taken
  obtain ⟨apart, valid, rfl⟩ := taken
  obtain ⟨x, y, u, v, rfl⟩ := exists_of_validAddress source
  obtain ⟨dx, dy, du, dv, rfl⟩ := exists_of_validAddress target
  obtain ⟨port, reached, chosen, linked, move⟩ :=
    chipletPort_move source target apart
  rw [chosen] at valid ⊢
  rw [linked] at valid ⊢
  exact ⟨valid, move⟩

theorem ringHop_self : ringHop n des des = none := by
  simp [ringHop]

/-- A hop along one coordinate of the chiplets. -/
theorem chipletHop_split (source : validAddress n 4 address = true)
    (target : validAddress n 4 des = true)
    (taken : ringHop n des address = some next) :
    (coord address 0 - coord des 0).natAbs =
        (if usesPort (chipletPort · des) 1 2 address then 1 else 0) +
          (coord next 0 - coord des 0).natAbs ∧
      (coord address 1 - coord des 1).natAbs =
        (if usesPort (chipletPort · des) 3 4 address then 1 else 0) +
          (coord next 1 - coord des 1).natAbs := by
  obtain ⟨_, move⟩ := ringHop_move source target taken
  simp only [usesPort, Bool.and_eq_true, decide_eq_true_eq]
  generalize chipletPort address des = port at move ⊢
  cases move with
  | inside _ _ core | outbound _ core =>
      have outside := core.port_bounds
      rw [if_neg (by omega), if_neg (by omega), Nat.zero_add, Nat.zero_add]
      exact ⟨rfl, rfl⟩
  | between _ _ chip => exact chip.split

/-- A hop inside a chiplet. -/
theorem coreHop_split (source : validAddress n 4 address = true)
    (target : validAddress n 4 des = true)
    (taken : ringHop n des address = some next) :
    coreHops des address =
      (if usesPort (chipletPort · des) 5 8 address then 1 else 0) +
        coreHops des next := by
  obtain ⟨_, move⟩ := ringHop_move source target taken
  simp only [usesPort, Bool.and_eq_true, decide_eq_true_eq, coreHops]
  generalize chipletPort address des = port at move ⊢
  cases move with
  | inside xSame ySame core =>
      have outside := core.port_bounds
      have here := core.exact
      simp only [coord_four, xSame, ySame, and_self, if_true,
        if_pos (show 5 ≤ port ∧ port ≤ 8 by omega)]
      omega
  | outbound different core =>
      have outside := core.port_bounds
      have here := core.exact
      simp only [coord_four, different, if_false,
        if_pos (show 5 ≤ port ∧ port ≤ 8 by omega)]
      omega
  | @between x' y' uZero vZero chip =>
      have outside := chip.port_bounds
      simp only [coord_four, chip.apart, if_false, uZero, vZero,
        if_neg (show ¬ (5 ≤ port ∧ port ≤ 8) by omega), Nat.zero_add]
      have nothing : gridDistance 0 0 0 0 = 0 := rfl
      split_ifs <;> omega

theorem ringHop_visits (source : validAddress n 4 address = true)
    (target : validAddress n 4 des = true) :
    ∃ count, after (ringHop n des) count address = some des := by
  refine visits_of_rank (fun address => validAddress n 4 address = true)
    (fun address => (coord address 0 - coord des 0).natAbs +
      (coord address 1 - coord des 1).natAbs + coreHops des address)
    ?_ address source
  intro address valid apart
  have nextValid := validAddress_ringNeighbour valid
    (chipletPort address des - 1)
  have taken : ringHop n des address =
      some (ringNeighbour n address (chipletPort address des - 1)) := by
    simp [ringHop, apart, nextValid]
  obtain ⟨inX, inY⟩ := chipletHop_split valid target taken
  have inCore := coreHop_split valid target taken
  refine ⟨_, taken, nextValid, ?_⟩
  -- every port is of one of the three kinds
  obtain ⟨low, high⟩ : 1 ≤ chipletPort address des ∧
      chipletPort address des < 9 := chipletPort_bounds address des
  simp only [usesPort, Bool.and_eq_true, decide_eq_true_eq] at inX inY inCore
  split_ifs at inX inY inCore <;> omega

/-- The number of hops on a route through ports from `low` to `high`. -/
def hopsThrough (n : ℤ) (des : Addr) (low high count : Nat) (src : Addr) :
    Nat :=
  (trail (ringHop n des) count src).countP
    (usesPort (chipletPort · des) low high)

/-- The hops of each kind on a whole route. -/
theorem hopsThrough_eq {src : Addr} {count : Nat}
    (source : validAddress n 4 src = true)
    (target : validAddress n 4 des = true)
    (route : after (ringHop n des) count src = some des) :
    hopsThrough n des 1 2 count src = (coord src 0 - coord des 0).natAbs ∧
      hopsThrough n des 3 4 count src = (coord src 1 - coord des 1).natAbs ∧
      hopsThrough n des 1 4 count src =
        gridDistance (coord src 0) (coord src 1) (coord des 0)
          (coord des 1) ∧
      hopsThrough n des 5 8 count src = coreHops des src := by
  have keeps : ∀ address next, validAddress n 4 address = true →
      ringHop n des address = some next → validAddress n 4 next = true :=
    fun address next valid taken => (ringHop_move valid target taken).1
  have here : ∀ z : ℤ, (z - z).natAbs = 0 := fun z => by simp
  refine ⟨?_, ?_, ?_, ?_⟩
  · refine countP_trail (fun address => validAddress n 4 address = true) _
      (fun address => (coord address 0 - coord des 0).natAbs) ringHop_self
      (here _) ?_ count src source route
    intro address next valid _ taken
    exact ⟨keeps address next valid taken,
      (chipletHop_split valid target taken).1⟩
  · refine countP_trail (fun address => validAddress n 4 address = true) _
      (fun address => (coord address 1 - coord des 1).natAbs) ringHop_self
      (here _) ?_ count src source route
    intro address next valid _ taken
    exact ⟨keeps address next valid taken,
      (chipletHop_split valid target taken).2⟩
  · refine countP_trail (fun address => validAddress n 4 address = true) _
      (fun address => gridDistance (coord address 0) (coord address 1)
        (coord des 0) (coord des 1)) ringHop_self (by simp [gridDistance])
      ?_ count src source route
    intro address next valid _ taken
    obtain ⟨inX, inY⟩ := chipletHop_split valid target taken
    refine ⟨keeps address next valid taken, ?_⟩
    simp only [usesPort, Bool.and_eq_true, decide_eq_true_eq,
      gridDistance] at inX inY ⊢
    split_ifs at inX inY ⊢ <;> omega
  · refine countP_trail (fun address => validAddress n 4 address = true) _
      (coreHops des) ringHop_self (by simp [coreHops, gridDistance]) ?_ count
      src source route
    intro address next valid _ taken
    exact ⟨keeps address next valid taken, coreHop_split valid target taken⟩

end Mesh

/-- On every route of the mesh, `power_calculate` adds the hops of each
kind. -/
def MeshHopsMatch (n : ℤ) (line : TraceLine) : Prop :=
  ∀ (sums : HopSums) (count : Nat),
    after (ringHop n line.des) count line.src = some line.des →
      sums.add line =
        { chipletHopSum := sums.chipletHopSum +
            hopsThrough n line.des 1 4 count line.src
          coreHopSum := sums.coreHopSum +
            hopsThrough n line.des 5 8 count line.src
          chipletHopSumX := sums.chipletHopSumX +
            hopsThrough n line.des 1 2 count line.src
          chipletHopSumY := sums.chipletHopSumY +
            hopsThrough n line.des 3 4 count line.src }

theorem blockDistance_eq_zero {x1 y1 x2 y2 : ℤ} :
    blockDistance x1 y1 x2 y2 = 0 ↔ x2 = x1 ∧ y2 = y1 := by
  unfold blockDistance
  rw [Int.abs_eq_natAbs, Int.abs_eq_natAbs]
  omega

theorem meshHopsMatch {n : ℤ} {line : TraceLine}
    (source : validAddress n 4 line.src = true)
    (target : validAddress n 4 line.des = true) : MeshHopsMatch n line := by
  intro sums count route
  obtain ⟨inX, inY, between, inside⟩ := hopsThrough_eq source target route
  rw [inX, inY, between, inside]
  simp only [HopSums.add, coreHops, TraceLine.src, TraceLine.des, coord_four,
    blockDistance_eq_zero]
  by_cases same : line.srcChipletX = line.desChipletX ∧
      line.srcChipletY = line.desChipletY
  · obtain ⟨sameX, sameY⟩ := same
    have nowhere : gridDistance line.desChipletX line.desChipletY
        line.desChipletX line.desChipletY = 0 := by
      simp [gridDistance]
    simp only [sameX, sameY, and_self, if_true, nowhere, sub_self,
      Int.natAbs_zero, Nat.cast_zero, add_zero, gridDistance_cast]
  · simp only [same, if_false, Nat.cast_add, gridDistance_cast,
      ← Int.abs_eq_natAbs, abs_sub_comm line.desChipletX,
      abs_sub_comm line.desChipletY, add_comm (blockDistance 0 0 _ _)]

/-! ## The star -/

section Star

variable {n : ℤ} {des address next : Addr}

theorem LeafAddress.aside (leaf : LeafAddress n address) :
    isCentral address (n - 1) = false := by
  obtain ⟨x, y, u, v, rfl⟩ := exists_of_validAddress leaf.1
  rw [Bool.eq_false_iff]
  intro central
  obtain ⟨rfl, _⟩ := isCentral_four.mp central
  exact absurd leaf.2.1 (by simp)

/-- What a hop of the star is: over the centre, or a `StarMove`. -/
theorem starRouteHop_move (big : 2 ≤ n) (route : OnRoute n address)
    (target : LeafAddress n des)
    (taken : starRouteHop n des address = some next) :
    OnRoute n next ∧
      getNextAddress n address (chipletStarPort n address des) = next ∧
      (address = [n - 1, n - 1, 0, 0] ∧
          next = [coord des 0, coord des 1, 0, 0] ∨
        LeafAddress n address ∧
          StarMove (n - 1) (coord address 0) (coord address 1)
            (coord address 2) (coord address 3) (coord des 0) (coord des 1)
            (coord des 2) (coord des 3) (chipletStarPort n address des)
            next) := by
  simp only [starRouteHop, Option.ite_none_left_eq_some] at taken
  obtain ⟨apart, taken⟩ := taken
  have onward := (star_link big route target apart).2.1
  obtain ⟨dx, dy, du, dv, rfl⟩ := exists_of_validAddress target.1
  have landed := taken
  rw [starHop_eq] at landed
  simp only [Option.ite_none_right_eq_some, Option.some.injEq] at landed
  obtain ⟨_, rfl⟩ := landed
  refine ⟨onward, rfl, ?_⟩
  rcases route with leaf | rfl
  · right
    obtain ⟨x, y, u, v, rfl⟩ := exists_of_validAddress leaf.1
    obtain ⟨port, reached, chosen, linked, move⟩ :=
      chipletStarPort_move leaf.1 target.1 apart leaf.aside
    rw [chosen, linked]
    exact ⟨leaf, move⟩
  · left
    have column : dy < n - 1 := target.2.2
    rw [starHop_centre_leaf target.1 column] at taken
    exact ⟨rfl, (Option.some.inj taken).symm⟩

/-- The hop from `address` takes a port of a ring inside a chiplet. -/
def usesCorePort (n : ℤ) (des address : Addr) : Bool :=
  !isCentral address (n - 1) &&
    usesPort (chipletStarPort n · des) 5 8 address

theorem starCoreHop_split (big : 2 ≤ n) (route : OnRoute n address)
    (target : LeafAddress n des)
    (taken : starRouteHop n des address = some next) :
    coreHops des address =
      (if usesCorePort n des address then 1 else 0) + coreHops des next := by
  have nothing : gridDistance 0 0 0 0 = 0 := rfl
  have below : coord des 0 < n - 1 := target.2.1
  have different : ¬ (n - 1 = coord des 0 ∧ n - 1 = coord des 1) := by
    omega
  obtain ⟨_, _, centre | ⟨leaf, move⟩⟩ :=
    starRouteHop_move big route target taken
  · obtain ⟨rfl, rfl⟩ := centre
    simp [coreHops, usesCorePort, isCentral_four, different, nothing]
  · simp only [usesCorePort, usesPort, leaf.aside, Bool.not_false,
      Bool.true_and, Bool.and_eq_true, decide_eq_true_eq, coreHops]
    generalize chipletStarPort n address des = port at move ⊢
    cases move with
    | inside xSame ySame core =>
        have outside := core.port_bounds
        have here := core.exact
        simp only [coord_four, xSame, ySame, and_self, if_true,
          if_pos (show 5 ≤ port ∧ port ≤ 8 by omega)]
        omega
    | outbound apart core =>
        have outside := core.port_bounds
        have here := core.exact
        simp only [coord_four, apart, if_false,
          if_pos (show 5 ≤ port ∧ port ≤ 8 by omega)]
        omega
    | toCentre apart uZero vZero =>
        simp [apart, different, uZero, vZero, nothing]

/-- The chiplets at the ends of the links to the centre that are still to be
crossed. -/
def centreLinks (n : ℤ) (des address : Addr) : List (ℤ × ℤ) :=
  if isCentral address (n - 1) then [(coord des 0, coord des 1)]
  else if coord address 0 = coord des 0 ∧ coord address 1 = coord des 1 then []
  else [(coord address 0, coord address 1), (coord des 0, coord des 1)]

theorem centreLink_split (big : 2 ≤ n) (route : OnRoute n address)
    (target : LeafAddress n des)
    (taken : starRouteHop n des address = some next) :
    centreLinks n des address =
      centreLink n des address ++ centreLinks n des next := by
  obtain ⟨onward, landed, centre | ⟨leaf, move⟩⟩ :=
    starRouteHop_move big route target taken
  · obtain ⟨rfl, rfl⟩ := centre
    have below : coord des 0 < n - 1 := target.2.1
    have elsewhere : coord des 0 ≠ n - 1 := by omega
    simp [centreLinks, centreLink, landed, isCentral, elsewhere, coord_four]
  · have elsewhere : coord address 0 ≠ n - 1 := ne_of_lt leaf.2.1
    have inside : ∀ u v, isCentral [coord address 0, coord address 1, u, v]
        (n - 1) = false := by
      intro u v
      rw [Bool.eq_false_iff]
      exact fun central => elsewhere (isCentral_four.mp central).1
    simp only [centreLinks, centreLink, leaf.aside]
    generalize chipletStarPort n address des = port at move ⊢
    cases move with
    | inside xSame ySame core =>
        have ordinary : port ≠ 9 := by
          have outside := core.port_bounds
          omega
        rw [inside]
        simp [xSame, ySame, ordinary, coord_four]
    | outbound apart core =>
        have ordinary : port ≠ 9 := by
          have outside := core.port_bounds
          omega
        rw [inside]
        simp [apart, ordinary, coord_four]
    | toCentre apart _ _ =>
        simp [apart, isCentral_four]

theorem starRouteHop_self : starRouteHop n des des = none := by
  simp [starRouteHop]

/-- The hops inside chiplets and the links to the centre of a whole route. -/
theorem starRoute_counts (big : 2 ≤ n) {src : Addr} {count : Nat}
    (source : LeafAddress n src) (target : LeafAddress n des)
    (route : after (starRouteHop n des) count src = some des) :
    (trail (starRouteHop n des) count src).countP (usesCorePort n des) =
        coreHops des src ∧
      (trail (starRouteHop n des) count src).flatMap (centreLink n des) =
        centreLinks n des src := by
  constructor
  · refine countP_trail (OnRoute n) _ (coreHops des) starRouteHop_self
      (by simp [coreHops, gridDistance]) ?_ count src (Or.inl source) route
    intro address next onRoute _ taken
    exact ⟨(starRouteHop_move big onRoute target taken).1,
      starCoreHop_split big onRoute target taken⟩
  · refine flatMap_trail (OnRoute n) _ (centreLinks n des) starRouteHop_self
      (by simp [centreLinks, target.aside]) ?_ count src (Or.inl source) route
    intro address next onRoute _ taken
    exact ⟨(starRouteHop_move big onRoute target taken).1,
      centreLink_split big onRoute target taken⟩

end Star

/-- On every route of the star, `star_topo_power_calculate` adds the hops
inside chiplets and one link for each crossing to or from the centre; a packet
to another chiplet crosses the link of its own chiplet and the link of that
one. -/
def StarHopsMatch (n : ℤ) (line : TraceLine) : Prop :=
  ∀ (sums : StarHopSums) (count : Nat),
    after (starRouteHop n line.des) count line.src = some line.des →
      let hops := trail (starRouteHop n line.des) count line.src
      let links := hops.flatMap (centreLink n line.des)
      (sums.add line).coreHopSum =
          sums.coreHopSum + hops.countP (usesCorePort n line.des) ∧
        (∀ type, (sums.add line).chipletHopSums type =
          sums.chipletHopSums type +
            links.countP fun chiplet => chipletType chiplet = type) ∧
        links =
          if line.srcChipletX = line.desChipletX ∧
              line.srcChipletY = line.desChipletY then []
          else [(line.srcChipletX, line.srcChipletY),
            (line.desChipletX, line.desChipletY)]

theorem starHopsMatch {n : ℤ} {line : TraceLine}
    (source : LeafAddress n line.src) (target : LeafAddress n line.des) :
    StarHopsMatch n line := by
  intro sums count route
  have big : 2 ≤ n := by
    have low := (coord_inside source.1 (show 0 < 4 by decide)).1
    have below : coord line.src 0 < n - 1 := source.2.1
    omega
  obtain ⟨core, links⟩ := starRoute_counts big source target route
  dsimp only
  rw [core, links]
  simp only [centreLinks, source.aside, Bool.false_eq_true, if_false]
  simp only [coreHops, StarHopSums.add, TraceLine.src, TraceLine.des,
    coord_four, blockDistance_eq_zero]
  by_cases same : line.srcChipletX = line.desChipletX ∧
      line.srcChipletY = line.desChipletY
  · simp [same, gridDistance_cast]
  · simp only [same, if_false]
    refine ⟨?_, ?_, trivial⟩
    · simp only [StarHopSums.addInterchipletDistance, Nat.cast_add,
        gridDistance_cast, add_comm (blockDistance 0 0 _ _)]
    · intro type
      simp only [StarHopSums.addInterchipletDistance, Function.update_apply,
        List.countP_cons, List.countP_nil, decide_eq_true_eq]
      split_ifs <;> grind

/-- For every line of a trace there is a route, and on it the power tools
count the hops that popnet makes. -/
theorem hops_match_power {n : ℤ} {line : TraceLine} :
    (validAddress n 4 line.src = true → validAddress n 4 line.des = true →
      Visits (ringHop n line.des) line.src line.des ∧
        MeshHopsMatch n line) ∧
      (LeafAddress n line.src → LeafAddress n line.des →
        Visits (starRouteHop n line.des) line.src line.des ∧
          StarHopsMatch n line) := by
  constructor
  · intro source target
    exact ⟨ringHop_visits source target, meshHopsMatch source target⟩
  · intro source target
    refine ⟨?_, starHopsMatch source target⟩
    have big : 2 ≤ n := by
      have low := (coord_inside source.1 (show 0 < 4 by decide)).1
      have below : coord line.src 0 < n - 1 := source.2.1
      omega
    refine Visits.stopping ((star_delivers_iff big source.1 target.1).mpr ?_)
    have column : coord line.src 0 ≠ n - 1 := ne_of_lt source.2.1
    unfold StarRouteClear
    split
    · exact fun edge => absurd edge column
    · exact Or.inl target.2.2

/-- From `(0, 1, 1, 1)` to `(1, 1, 2, 1)`. -/
def acrossLine : TraceLine :=
  ⟨0, 1, 1, 1, 1, 1, 2, 1⟩

theorem hops_match_power_across :
    Visits (ringHop 3 acrossLine.des) acrossLine.src acrossLine.des ∧
      MeshHopsMatch 3 acrossLine ∧
      Visits (starRouteHop 3 acrossLine.des) acrossLine.src acrossLine.des ∧
      StarHopsMatch 3 acrossLine := by
  have source : LeafAddress 3 acrossLine.src :=
    ⟨by decide, by decide, by decide⟩
  have target : LeafAddress 3 acrossLine.des :=
    ⟨by decide, by decide, by decide⟩
  have mesh := hops_match_power.1 source.1 target.1
  have star := hops_match_power.2 source target
  exact ⟨mesh.1, mesh.2, star.1, star.2⟩

/-- The ports of the centre are numbered by chiplet: to chiplet `(1, 1)` of
four chiplets a side the centre uses port 5, which is no hop inside a
chiplet. -/
theorem centre_uses_core_port :
    let line : TraceLine := ⟨0, 0, 0, 0, 1, 1, 0, 0⟩
    LeafAddress 4 line.src ∧ LeafAddress 4 line.des ∧
      after (starRouteHop 4 line.des) 2 line.src = some line.des ∧
      (StarHopSums.add ⟨0, fun _ => 0⟩ line).coreHopSum = 0 ∧
      (trail (starRouteHop 4 line.des) 2 line.src).countP
        (usesPort (chipletStarPort 4 · line.des) 5 8) = 1 := by
  refine ⟨⟨by decide, by decide, by decide⟩,
    ⟨by decide, by decide, by decide⟩, by decide, by decide, by decide⟩

end ChipletSniper.Popnet
