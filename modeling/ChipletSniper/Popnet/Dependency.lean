import ChipletSniper.Popnet.StarDelivery

/-!
# Channel dependencies

A channel is an output port of a router.  A packet that holds one channel and
waits for the next makes the first depend on the second.  Both chiplet
algorithms order the channels: leave the chiplet, cross the chiplets, enter
the last chiplet.  The links inside a chiplet are shared by all three kinds of
traffic, so the rank of the port that raises the core x coordinate depends on
the row: only row `0` is used by packets that enter the chiplet.
-/

namespace ChipletSniper.Popnet

open Library

/-- A router and one of its output ports. -/
abbrev Channel := Addr × Nat

/-- A hop over the ring links, the ordinary branch of `getNextAddress`, which
ends at the destination. -/
def ringHop (n : ℤ) (des address : Addr) : Option Addr :=
  if address = des then none
  else
    let next := ringNeighbour n address (chipletPort address des - 1)
    if validAddress n 4 next then some next else none

/-- The same for the star, with its centre links. -/
def starRouteHop (n : ℤ) (des address : Addr) : Option Addr :=
  if address = des then none else starHop n des address

/-- Some route of `chiplet_routing_alg` takes `first` and then `second`. -/
def MeshDepends (n : ℤ) (first second : Channel) : Prop :=
  ∃ src des,
    validAddress n 4 src = true ∧ validAddress n 4 des = true ∧
    (∃ count, after (ringHop n des) count src = some first.1) ∧
    first.1 ≠ des ∧
    (∃ vc ∈ chipletRoutingAlg first.1 des, vc.1 = first.2) ∧
    ringNeighbour n first.1 (first.2 - 1) = second.1 ∧
    second.1 ≠ des ∧
    (∃ vc ∈ chipletRoutingAlg second.1 des, vc.1 = second.2)

/-- A router of a leaf chiplet of the star. -/
def LeafAddress (n : ℤ) (address : Addr) : Prop :=
  validAddress n 4 address = true ∧
    coord address 0 < n - 1 ∧ coord address 1 < n - 1

/-- Some route of `chiplet_star_topo_routing_alg` between leaf chiplets takes
`first` and then `second`. -/
def StarDepends (n : ℤ) (first second : Channel) : Prop :=
  ∃ src des,
    LeafAddress n src ∧ LeafAddress n des ∧
    (∃ count, after (starRouteHop n des) count src = some first.1) ∧
    first.1 ≠ des ∧
    (∃ vc ∈ chipletStarTopoRoutingAlg n first.1 des, vc.1 = first.2) ∧
    getNextAddress n first.1 first.2 = second.1 ∧
    second.1 ≠ des ∧
    (∃ vc ∈ chipletStarTopoRoutingAlg n second.1 des, vc.1 = second.2)

/-- The rank of a channel inside a chiplet; `8 * n` is left for the links
between chiplets. -/
def coreRank (n u v : ℤ) (port : Nat) : ℤ :=
  if port = 5 then n - u
  else if port = 6 then (if v = 0 then 16 * n + u else u)
  else if port = 7 then 4 * n + (n - v)
  else 20 * n + v

/-- The rank of a channel between chiplets. -/
def chipRank (n x y : ℤ) (port : Nat) : ℤ :=
  if port = 1 then 8 * n + (n - x)
  else if port = 2 then 8 * n + x
  else if port = 3 then 12 * n + (n - y)
  else 12 * n + y

def meshChannelRank (n : ℤ) (channel : Channel) : ℤ :=
  if channel.2 < 5 then
    chipRank n (coord channel.1 0) (coord channel.1 1) channel.2
  else
    coreRank n (coord channel.1 2) (coord channel.1 3) channel.2

def starChannelRank (n : ℤ) (channel : Channel) : ℤ :=
  if isCentral channel.1 (n - 1) then 12 * n
  else if channel.2 = 9 then 8 * n
  else coreRank n (coord channel.1 2) (coord channel.1 3) channel.2

section Rank

variable {n x y u v du dv : ℤ}

/-- Two consecutive moves inside a chiplet towards the same core raise the
rank. -/
theorem coreRank_lt {port port' : Nat} {u' v' u'' v'' : ℤ}
    (uRange : 0 ≤ u ∧ u < n) (vRange : 0 ≤ v ∧ v < n)
    (duRange : 0 ≤ du ∧ du < n) (dvRange : 0 ≤ dv ∧ dv < n)
    (move : XYMove 5 u v du dv port u' v')
    (move' : XYMove 5 u' v' du dv port' u'' v'') :
    coreRank n u v port < coreRank n u' v' port' := by
  cases move <;> cases move' <;> simp only [coreRank, Nat.reduceAdd,
    Nat.reduceEqDiff, if_true, if_false] <;>
    omega

/-- Two consecutive moves between chiplets raise the rank. -/
theorem chipRank_lt {dx dy : ℤ} {port port' : Nat} {x' y' x'' y'' : ℤ}
    (xRange : 0 ≤ x ∧ x < n) (yRange : 0 ≤ y ∧ y < n)
    (dxRange : 0 ≤ dx ∧ dx < n)
    (move : XYMove 1 x y dx dy port x' y')
    (move' : XYMove 1 x' y' dx dy port' x'' y'') :
    chipRank n x y port < chipRank n x' y' port' := by
  cases move <;> cases move' <;> simp only [chipRank, Nat.reduceAdd,
    Nat.reduceEqDiff, if_true, if_false] <;> omega

/-- The way out of a chiplet ranks below the links between chiplets. -/
theorem coreRank_outbound {port : Nat} {u' v' : ℤ}
    (uRange : 0 ≤ u ∧ u < n) (vRange : 0 ≤ v ∧ v < n)
    (move : XYMove 5 u v 0 0 port u' v') :
    coreRank n u v port < 8 * n := by
  cases move <;> simp only [coreRank, Nat.reduceAdd, Nat.reduceEqDiff,
    if_true, if_false] <;> omega

/-- The way into a chiplet, which starts at its gateway, ranks above them. -/
theorem coreRank_inbound {port : Nat} {u' v' : ℤ}
    (duRange : 0 ≤ du) (dvRange : 0 ≤ dv)
    (move : XYMove 5 0 0 du dv port u' v') (positive : 0 < n) :
    16 * n ≤ coreRank n 0 0 port := by
  cases move <;> simp only [coreRank, Nat.reduceAdd, Nat.reduceEqDiff,
    if_true, if_false] <;> omega

theorem chipRank_bounds {dx dy : ℤ} {port : Nat} {x' y' : ℤ}
    (xRange : 0 ≤ x ∧ x < n) (yRange : 0 ≤ y ∧ y < n)
    (move : XYMove 1 x y dx dy port x' y') :
    8 * n ≤ chipRank n x y port ∧ chipRank n x y port < 16 * n := by
  cases move <;> simp only [chipRank, Nat.reduceAdd, Nat.reduceEqDiff,
    if_true, if_false] <;> omega

private theorem meshRank_core {port : Nat} (inner : 5 ≤ port) :
    meshChannelRank n ([x, y, u, v], port) = coreRank n u v port := by
  simp only [meshChannelRank, coord_four, if_neg (by omega : ¬ port < 5)]

private theorem meshRank_chip {port : Nat} (outer : port < 5) :
    meshChannelRank n ([x, y, u, v], port) = chipRank n x y port := by
  simp only [meshChannelRank, coord_four, if_pos outer]

end Rank

theorem chipletRoutingAlg_port {address des : Addr} {vc : VC}
    (member : vc ∈ chipletRoutingAlg address des) :
    vc.1 = chipletPort address des := by
  simp only [chipletRoutingAlg, addRoutingForDifferentVC, List.mem_cons,
    List.not_mem_nil, or_false] at member
  rcases member with rfl | rfl <;> rfl

theorem chipletStarTopoRoutingAlg_port {n : ℤ} {address des : Addr}
    {vc : VC} (member : vc ∈ chipletStarTopoRoutingAlg n address des) :
    vc.1 = chipletStarPort n address des := by
  simp only [chipletStarTopoRoutingAlg, addRoutingForDifferentVC,
    List.mem_cons, List.not_mem_nil, or_false] at member
  rcases member with rfl | rfl <;> rfl

/-- Every dependency of the mesh raises the rank. -/
theorem MeshDepends.rank_lt {n : ℤ} {first second : Channel}
    (depends : MeshDepends n first second) :
    meshChannelRank n first < meshChannelRank n second := by
  obtain ⟨address, port⟩ := first
  obtain ⟨next, port'⟩ := second
  obtain ⟨src, des, srcValid, desValid, ⟨count, route⟩, apart,
    ⟨vc, vcMember, rfl⟩, linked, apart', ⟨vc', vcMember', rfl⟩⟩ := depends
  have addressValid : validAddress n 4 address = true := by
    refine after_of_closed (fun address =>
      validAddress n 4 address = true) ?_ count src address srcValid route
    intro state next _ taken
    simp only [ringHop, Option.ite_none_left_eq_some,
      Option.ite_none_right_eq_some, Option.some.injEq] at taken
    exact taken.2.2 ▸ taken.2.1
  obtain ⟨x, y, u, v, rfl⟩ := exists_of_validAddress addressValid
  obtain ⟨dx, dy, du, dv, rfl⟩ := exists_of_validAddress desValid
  obtain ⟨xRange, yRange, uRange, vRange⟩ :=
    validAddress_four.mp addressValid
  obtain ⟨dxRange, dyRange, duRange, dvRange⟩ :=
    validAddress_four.mp desValid
  obtain ⟨port, reached, chosen, linkedRing, move⟩ :=
    chipletPort_move addressValid desValid apart
  have portEquality := (chipletRoutingAlg_port vcMember).trans chosen
  have portEquality' := chipletRoutingAlg_port vcMember'
  dsimp only at linked apart' apart portEquality portEquality' ⊢
  rw [portEquality, linkedRing] at linked
  subst linked
  rw [portEquality]
  cases move with
  | @inside u' v' xSame ySame core =>
      obtain ⟨uNext, vNext⟩ := core.inside ⟨uRange, vRange⟩ ⟨duRange, dvRange⟩
      obtain ⟨port₂, _, chosen₂, _, move₂⟩ :=
        chipletPort_move (validAddress_four.mpr
          ⟨xRange, yRange, uNext, vNext⟩) desValid apart'
      rw [portEquality', chosen₂, meshRank_core core.port_bounds.1]
      cases move₂ with
      | inside _ _ core₂ =>
          rw [meshRank_core core₂.port_bounds.1]
          exact coreRank_lt uRange vRange duRange dvRange core core₂
      | outbound different _ => exact absurd ⟨xSame, ySame⟩ different
      | between _ _ chip => exact absurd ⟨xSame, ySame⟩ chip.apart
  | @outbound u' v' different core =>
      have origin : ((0 : ℤ) ≤ 0 ∧ 0 < n) ∧ ((0 : ℤ) ≤ 0 ∧ 0 < n) := by omega
      obtain ⟨uNext, vNext⟩ := core.inside ⟨uRange, vRange⟩ origin
      obtain ⟨port₂, _, chosen₂, _, move₂⟩ :=
        chipletPort_move (validAddress_four.mpr
          ⟨xRange, yRange, uNext, vNext⟩) desValid apart'
      rw [portEquality', chosen₂, meshRank_core core.port_bounds.1]
      cases move₂ with
      | inside xSame ySame _ => exact absurd ⟨xSame, ySame⟩ different
      | outbound _ core₂ =>
          rw [meshRank_core core₂.port_bounds.1]
          exact coreRank_lt uRange vRange origin.1 origin.2 core core₂
      | between _ _ chip =>
          rw [meshRank_chip chip.port_bounds.2]
          exact lt_of_lt_of_le (coreRank_outbound uRange vRange core)
            (chipRank_bounds xRange yRange chip).1
  | @between x' y' uZero vZero chip =>
      obtain ⟨xNext, yNext⟩ := chip.inside ⟨xRange, yRange⟩ ⟨dxRange, dyRange⟩
      obtain ⟨port₂, _, chosen₂, _, move₂⟩ :=
        chipletPort_move (validAddress_four.mpr
          ⟨xNext, yNext, by omega, by omega⟩) desValid apart'
      rw [portEquality', chosen₂, meshRank_chip chip.port_bounds.2]
      cases move₂ with
      | inside _ _ core₂ =>
          rw [meshRank_core core₂.port_bounds.1]
          exact lt_of_lt_of_le (chipRank_bounds xRange yRange chip).2
            (coreRank_inbound duRange.1 dvRange.1 core₂ (by omega))
      | outbound _ core₂ => exact absurd ⟨rfl, rfl⟩ core₂.apart
      | between _ _ chip₂ =>
          rw [meshRank_chip chip₂.port_bounds.2]
          exact chipRank_lt xRange yRange dxRange chip chip₂

private theorem starRank_core {n x y u v : ℤ} {port : Nat}
    (aside : isCentral [x, y, u, v] (n - 1) = false) (inner : port < 9) :
    starChannelRank n ([x, y, u, v], port) = coreRank n u v port := by
  simp only [starChannelRank, aside, Bool.false_eq_true, if_false,
    if_neg (by omega : ¬ port = 9), coord_four]

/-- Every dependency of the star raises the rank. -/
theorem StarDepends.rank_lt {n : ℤ} (big : 2 ≤ n) {first second : Channel}
    (depends : StarDepends n first second) :
    starChannelRank n first < starChannelRank n second := by
  obtain ⟨address, port⟩ := first
  obtain ⟨next, port'⟩ := second
  obtain ⟨src, des, ⟨srcValid, _⟩, ⟨desValid, desLeaf⟩, ⟨count, route⟩,
    apart, ⟨vc, vcMember, rfl⟩, linked, apart', ⟨vc', vcMember', rfl⟩⟩ :=
    depends
  have addressValid : validAddress n 4 address = true := by
    refine after_of_closed (fun address =>
      validAddress n 4 address = true) ?_ count src address srcValid route
    intro state next _ taken
    simp only [starRouteHop, Option.ite_none_left_eq_some] at taken
    exact hop_valid taken.2
  obtain ⟨x, y, u, v, rfl⟩ := exists_of_validAddress addressValid
  obtain ⟨dx, dy, du, dv, rfl⟩ := exists_of_validAddress desValid
  obtain ⟨xRange, yRange, uRange, vRange⟩ :=
    validAddress_four.mp addressValid
  obtain ⟨dxRange, dyRange, duRange, dvRange⟩ :=
    validAddress_four.mp desValid
  simp only [coord_four] at desLeaf
  have leafAside : ∀ u v, isCentral [dx, dy, u, v] (n - 1) = false := by
    intro u v
    rw [Bool.eq_false_iff]
    intro central
    have edge := (isCentral_four.mp central).1
    omega
  have portEquality := chipletStarTopoRoutingAlg_port vcMember
  have portEquality' := chipletStarTopoRoutingAlg_port vcMember'
  dsimp only at linked apart' apart portEquality portEquality' ⊢
  by_cases central : isCentral [x, y, u, v] (n - 1) = true
  · -- from the centre the packet enters its last chiplet at the gateway
    obtain ⟨rfl, rfl, rfl, rfl⟩ := isCentral_four.mp central
    have landed := starHop_centre_leaf desValid desLeaf.2
    rw [starHop_eq, ← portEquality, linked] at landed
    simp only [Option.ite_none_right_eq_some, Option.some.injEq] at landed
    obtain ⟨nextValid, rfl⟩ := landed
    obtain ⟨port₂, _, chosen₂, _, move₂⟩ :=
      chipletStarPort_move nextValid desValid apart' (leafAside 0 0)
    rw [portEquality', chosen₂]
    cases move₂ with
    | inside _ _ core₂ =>
        rw [starRank_core (leafAside 0 0) core₂.port_bounds.2]
        have above :=
          coreRank_inbound duRange.1 dvRange.1 core₂ (by omega : 0 < n)
        simp only [starChannelRank, central, if_true]
        omega
    | outbound different _ => exact absurd ⟨rfl, rfl⟩ different
    | toCentre different _ _ => exact absurd ⟨rfl, rfl⟩ different
  · have aside : isCentral [x, y, u, v] (n - 1) = false := by
      simpa using central
    obtain ⟨port, reached, chosen, linkedStar, move⟩ :=
      chipletStarPort_move addressValid desValid apart aside
    rw [portEquality, chosen, linkedStar] at linked
    subst linked
    rw [portEquality, chosen]
    cases move with
    | @inside _ u' v' xSame ySame core =>
        subst xSame ySame
        obtain ⟨uNext, vNext⟩ :=
          core.inside ⟨uRange, vRange⟩ ⟨duRange, dvRange⟩
        obtain ⟨port₂, _, chosen₂, _, move₂⟩ :=
          chipletStarPort_move (validAddress_four.mpr
            ⟨xRange, yRange, uNext, vNext⟩) desValid apart'
            (leafAside u' v')
        rw [portEquality', chosen₂, starRank_core aside core.port_bounds.2]
        cases move₂ with
        | inside _ _ core₂ =>
            rw [starRank_core (leafAside u' v') core₂.port_bounds.2]
            exact coreRank_lt uRange vRange duRange dvRange core core₂
        | outbound different _ => exact absurd ⟨rfl, rfl⟩ different
        | toCentre different _ _ => exact absurd ⟨rfl, rfl⟩ different
    | @outbound _ u' v' different core =>
        have origin : ((0 : ℤ) ≤ 0 ∧ 0 < n) ∧ ((0 : ℤ) ≤ 0 ∧ 0 < n) := by
          omega
        obtain ⟨uNext, vNext⟩ := core.inside ⟨uRange, vRange⟩ origin
        have below := coreRank_outbound uRange vRange core
        rw [starRank_core aside core.port_bounds.2]
        by_cases central' : isCentral [x, y, u', v'] (n - 1) = true
        · simp only [starChannelRank, central', if_true]
          omega
        · have aside' : isCentral [x, y, u', v'] (n - 1) = false := by
            simpa using central'
          obtain ⟨port₂, _, chosen₂, _, move₂⟩ :=
            chipletStarPort_move (validAddress_four.mpr
              ⟨xRange, yRange, uNext, vNext⟩) desValid apart' aside'
          rw [portEquality', chosen₂]
          cases move₂ with
          | inside xSame ySame _ => exact absurd ⟨xSame, ySame⟩ different
          | outbound _ core₂ =>
              rw [starRank_core aside' core₂.port_bounds.2]
              exact coreRank_lt uRange vRange origin.1 origin.2 core core₂
          | toCentre _ _ _ =>
              simp only [starChannelRank, aside', Bool.false_eq_true,
                if_false, if_true]
              omega
    | toCentre different _ _ =>
        simp only [starChannelRank, aside, Bool.false_eq_true, if_false,
          if_true, isCentral_four.mpr ⟨rfl, rfl, rfl, rfl⟩]
        omega

/-- Neither chiplet algorithm has a cycle of channel dependencies. -/
theorem channel_dependencies_acyclic {n : ℤ} (big : 2 ≤ n) :
    (∀ channel, ¬ Relation.TransGen (MeshDepends n) channel channel) ∧
      (∀ channel, ¬ Relation.TransGen (StarDepends n) channel channel) :=
  ⟨acyclic_of_rank (meshChannelRank n) fun _ _ depends => depends.rank_lt,
    acyclic_of_rank (starChannelRank n) fun _ _ depends =>
      depends.rank_lt big⟩

theorem channel_dependencies_acyclic_three :
    (∀ channel, ¬ Relation.TransGen (MeshDepends 3) channel channel) ∧
      (∀ channel, ¬ Relation.TransGen (StarDepends 3) channel channel) :=
  channel_dependencies_acyclic (by norm_num)

end ChipletSniper.Popnet
