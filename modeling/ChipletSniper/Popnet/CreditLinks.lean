import ChipletSniper.Library.Ring
import ChipletSniper.Popnet.Links

/-!
# The way back of the credits

The router that receives a flit computes where its credit goes from the input
port alone.  On the rings and over the centre of the star this leads back to
the output port that the flit came from.  In mesh mode the router
`(n - 1, n - 1, 0, 0)` is taken for a centre, and the credits for flits that
enter it are lost.
-/

namespace ChipletSniper.Popnet

open Library

/-- The routers that a chiplet mode serves: all of them in the mesh, those of
the leaf chiplets in the star. -/
def Serves (n : ℤ) (routingAlg : RoutingType) (address : Addr) : Prop :=
  match routingAlg with
  | .chipletRouting => validAddress n 4 address = true
  | .chipletStarTopoRouting => LeafAddress n address
  | _ => False

/-- A hop of a packet that is not yet at its destination. -/
def routeHop (n : ℤ) (routingAlg : RoutingType) (des address : Addr) :
    Option Addr :=
  if address = des then none
  else hop n (fun here => currAlgorithm n here des routingAlg) address

/-- A packet between routers that the mode serves takes port `p` of router
`address`. -/
def Selects (n : ℤ) (routingAlg : RoutingType) (address : Addr) (p : Nat) :
    Prop :=
  ∃ src des,
    Serves n routingAlg src ∧ Serves n routingAlg des ∧
    (∃ count, after (routeHop n routingAlg des) count src = some address) ∧
    address ≠ des ∧
    ∃ vc ∈ currAlgorithm n address des routingAlg, vc.1 = p

section Ring

variable {n : ℤ}

theorem ringNeighbour_odd {address : Addr} {t : Nat} (odd : t % 2 = 1) :
    ringNeighbour n address t =
      address.set (t / 2) (ringNext n (coord address (t / 2))) := by
  simp only [ringNeighbour, ringNext, odd, if_true]

theorem ringNeighbour_even {address : Addr} {t : Nat} (even : t % 2 = 0) :
    ringNeighbour n address t =
      address.set (t / 2) (ringPrevious n (coord address (t / 2))) := by
  simp only [ringNeighbour, ringPrevious, even, zero_ne_one, if_false]

theorem coord_set {address : Addr} {k : Nat} (short : k < address.length)
    (value : ℤ) : coord (address.set k value) k = value := by
  simp [coord, short]

theorem set_coord (address : Addr) (k : Nat) :
    address.set k (coord address k) = address := by
  by_cases short : k < address.length
  · simp [coord, short]
  · exact List.set_eq_of_length_le (not_lt.mp short)

/-- The other direction of the same ring leads back. -/
theorem ringNeighbour_back {address : Addr} {t back : Nat}
    (same : back / 2 = t / 2) (other : back % 2 ≠ t % 2)
    (inside : 0 ≤ coord address (t / 2) ∧ coord address (t / 2) < n) :
    ringNeighbour n (ringNeighbour n address t) back = address := by
  by_cases short : t / 2 < address.length
  · rcases Nat.mod_two_eq_zero_or_one t with even | odd
    · rw [ringNeighbour_even even, ringNeighbour_odd (by omega), same,
        coord_set short, ringNext_ringPrevious inside, List.set_set,
        set_coord]
    · rw [ringNeighbour_odd odd, ringNeighbour_even (by omega), same,
        coord_set short, ringPrevious_ringNext inside, List.set_set,
        set_coord]
  · have unchanged : ∀ value, address.set (t / 2) value = address :=
      fun value => List.set_eq_of_length_le (not_lt.mp short)
    simp only [ringNeighbour, same, unchanged, ite_self]

/-- A port leads back over the ring that it belongs to. -/
theorem creditsReturn_ring {address : Addr} {p : Nat}
    (valid : validAddress n 4 address = true) (outer : 1 ≤ p) (inner : p < 9)
    (aside : isCentral address (n - 1) = false)
    (further : isCentral (getNextAddress n address p) (n - 1) = false) :
    CreditsReturn n address p := by
  have length : address.length = 4 := by
    obtain ⟨x, y, u, v, rfl⟩ := exists_of_validAddress valid
    rfl
  have ordinary : (p - 1) / 2 ≠ 4 := by omega
  have next : getNextAddress n address p =
      ringNeighbour n address (p - 1) := by
    simp [getNextAddress, linkedRouter, aside, length, ordinary]
  have pc : getWirePc n address p = if p % 2 = 1 then p + 1 else p - 1 := by
    have notCentre : p ≠ 9 := by omega
    simp [getWirePc, linkedPort, aside, length, notCentre]
  have nextLength : (ringNeighbour n address (p - 1)).length = 4 := by
    unfold ringNeighbour
    split <;> simp [length]
  rw [next] at further
  unfold CreditsReturn
  rw [next, pc]
  have back : (if p % 2 = 1 then p + 1 else p - 1) ≠ 9 ∧
      ((if p % 2 = 1 then p + 1 else p - 1) - 1) / 2 = (p - 1) / 2 ∧
      ((if p % 2 = 1 then p + 1 else p - 1) - 1) % 2 ≠ (p - 1) % 2 ∧
      1 ≤ (if p % 2 = 1 then p + 1 else p - 1) := by
    split <;> omega
  obtain ⟨notCentre, half, flipped, positive⟩ := back
  constructor
  · have elsewhere : ((if p % 2 = 1 then p + 1 else p - 1) - 1) / 2 ≠ 4 := by
      omega
    simp only [getFromRouter, linkedRouter, further, nextLength, elsewhere,
      if_false, Bool.false_eq_true]
    exact ringNeighbour_back half flipped (coord_inside valid (by omega))
  · simp only [getFromPort, linkedPort, further, nextLength, notCentre,
      if_false, Bool.false_eq_true, Nat.reduceMul, Nat.reduceAdd]
    split_ifs <;> omega

/-- The port after the rings leads back to the centre. -/
theorem fromCentre {q r : ℤ}
    (aside : isCentral [q, r, 0, 0] (n - 1) = false) :
    getFromRouter n [q, r, 0, 0] 9 = [n - 1, n - 1, 0, 0] ∧
      getFromPort n [q, r, 0, 0] 9 = (q * (n - 1) + r + 1).toNat := by
  simp [getFromRouter, linkedRouter, getFromPort, linkedPort, aside]

/-- A port of the centre leads back from the chiplet that it is decoded
into. -/
theorem creditsReturn_centre (big : 2 ≤ n) {p : Nat} (outer : 1 ≤ p) :
    CreditsReturn n [n - 1, n - 1, 0, 0] p ∧
      getNextAddress n [n - 1, n - 1, 0, 0] p ≠ [n - 1, n - 1, 0, 0] := by
  have centre : isCentral [n - 1, n - 1, 0, 0] (n - 1) = true :=
    isCentral_four.mpr ⟨rfl, rfl, rfl, rfl⟩
  have next : getNextAddress n [n - 1, n - 1, 0, 0] p =
      [((p - 1 : ℕ) : ℤ).tdiv (n - 1), ((p - 1 : ℕ) : ℤ).tmod (n - 1),
        0, 0] := by
    simp only [getNextAddress, linkedRouter, centre, if_true]
  have pc : getWirePc n [n - 1, n - 1, 0, 0] p = 9 := by
    simp [getWirePc, linkedPort, centre]
  have remainder : ((p - 1 : ℕ) : ℤ).tmod (n - 1) < n - 1 :=
    Int.tmod_lt_of_pos _ (by omega)
  have aside : isCentral [((p - 1 : ℕ) : ℤ).tdiv (n - 1),
      ((p - 1 : ℕ) : ℤ).tmod (n - 1), 0, 0] (n - 1) = false := by
    rw [Bool.eq_false_iff]
    intro central
    have equal := (isCentral_four.mp central).2.1
    omega
  have decoded : ((p - 1 : ℕ) : ℤ).tdiv (n - 1) * (n - 1) +
      ((p - 1 : ℕ) : ℤ).tmod (n - 1) = ((p - 1 : ℕ) : ℤ) := by
    rw [mul_comm]
    exact Int.mul_tdiv_add_tmod _ _
  obtain ⟨back, backPort⟩ := fromCentre aside
  refine ⟨?_, ?_⟩
  · unfold CreditsReturn
    rw [next, pc, back, backPort, decoded]
    exact ⟨rfl, by omega⟩
  · rw [next]
    intro central
    rw [central, centre] at aside
    cases aside

end Ring

/-! ## Both modes -/

section Modes

variable {n : ℤ} {address des : Addr}

/-- In mesh mode exactly the credits for flits that enter the router taken for
a centre are lost. -/
theorem mesh_creditsReturn_iff (big : 2 ≤ n)
    (valid : validAddress n 4 address = true) :
    CreditsReturn n address (chipletPort address des) ↔
      getNextAddress n address (chipletPort address des) ≠
        [n - 1, n - 1, 0, 0] := by
  obtain ⟨outer, inner⟩ := chipletPort_bounds address des
  obtain ⟨x, y, u, v, rfl⟩ := exists_of_validAddress valid
  by_cases central : isCentral [x, y, u, v] (n - 1) = true
  · obtain ⟨rfl, rfl, rfl, rfl⟩ := isCentral_four.mp central
    obtain ⟨returns, further⟩ := creditsReturn_centre big outer
    exact iff_of_true returns further
  have aside : isCentral [x, y, u, v] (n - 1) = false := by
    simpa using central
  constructor
  · rintro ⟨_, port⟩ further
    rw [further] at port
    simp only [getFromPort, linkedPort,
      isCentral_four.mpr ⟨rfl, rfl, rfl, rfl⟩, if_true, List.length_cons,
      List.length_nil] at port
    omega
  · intro elsewhere
    refine creditsReturn_ring valid outer inner aside ?_
    rw [Bool.eq_false_iff]
    intro further
    have ordinary : (chipletPort [x, y, u, v] des - 1) / 2 ≠ 4 := by omega
    have next : getNextAddress n [x, y, u, v]
        (chipletPort [x, y, u, v] des) =
          ringNeighbour n [x, y, u, v] (chipletPort [x, y, u, v] des - 1) := by
      simp [getNextAddress, linkedRouter, aside, ordinary]
    have nextValid := validAddress_ringNeighbour valid
      (chipletPort [x, y, u, v] des - 1)
    rw [next] at further elsewhere
    obtain ⟨x', y', u', v', same⟩ := exists_of_validAddress nextValid
    rw [same] at further elsewhere
    obtain ⟨rfl, rfl, rfl, rfl⟩ := isCentral_four.mp further
    exact elsewhere rfl

/-- A packet between leaf chiplets is always at a router of a leaf chiplet or
at the centre. -/
theorem onRoute_of_route (big : 2 ≤ n) {src : Addr} (leaf : LeafAddress n src)
    (target : LeafAddress n des) {count : Nat}
    (route : after (routeHop n .chipletStarTopoRouting des) count src =
      some address) :
    OnRoute n address := by
  refine after_of_closed (OnRoute n) ?_ count src address (Or.inl leaf) route
  intro here next onRoute taken
  simp only [routeHop, Option.ite_none_left_eq_some] at taken
  obtain ⟨apart, taken⟩ := taken
  have taken : starHop n des here = some next := taken
  rw [starHop_eq] at taken
  simp only [Option.ite_none_right_eq_some, Option.some.injEq] at taken
  exact taken.2 ▸ (star_link big onRoute target apart).2.1

/-- In both modes the credits for a flit go back to the port that it came
from, unless the mode is the mesh and the flit enters the router
`(n - 1, n - 1, 0, 0)`. -/
theorem credits_return_iff (big : 2 ≤ n) {routingAlg : RoutingType} {p : Nat}
    (selects : Selects n routingAlg address p) :
    CreditsReturn n address p ↔
      (routingAlg = .chipletRouting →
        getNextAddress n address p ≠ [n - 1, n - 1, 0, 0]) := by
  obtain ⟨src, des, source, target, ⟨count, route⟩, apart, vc, member, rfl⟩ :=
    selects
  cases routingAlg with
  | xy | txy => cases source
  | chipletRouting =>
      have valid : validAddress n 4 address = true := by
        refine after_of_closed (fun here => validAddress n 4 here = true) ?_
          count src address source route
        intro here next _ taken
        simp only [routeHop, Option.ite_none_left_eq_some] at taken
        exact hop_valid taken.2
      rw [chipletRoutingAlg_port member, mesh_creditsReturn_iff big valid]
      exact ⟨fun elsewhere _ => elsewhere, fun elsewhere => elsewhere rfl⟩
  | chipletStarTopoRouting =>
      have onRoute := onRoute_of_route big source target route
      have proper := (star_link big onRoute target apart).1
      rw [chipletStarTopoRoutingAlg_port member]
      refine iff_of_true ?_ nofun
      exact ⟨congrArg Prod.fst proper, congrArg Prod.snd proper⟩

theorem credits_return_iff_three :
    CreditsReturn 3 [1, 1, 0, 0] 2 ↔
      (RoutingType.chipletRouting = .chipletRouting →
        getNextAddress 3 [1, 1, 0, 0] 2 ≠ [3 - 1, 3 - 1, 0, 0]) :=
  credits_return_iff (by decide)
    ⟨[1, 1, 0, 0], [2, 0, 1, 1],
      show validAddress 3 4 [1, 1, 0, 0] = true by decide,
      show validAddress 3 4 [2, 0, 1, 1] = true by decide, ⟨0, rfl⟩,
      by decide, (2, 0), by decide, rfl⟩

/-- In the mesh of three chiplets a side, the credits for the flits that
router `(1, 2, 0, 0)` sends to `(2, 2, 0, 0)` go to router `(0, 0, 0, 0)`. -/
theorem mesh_credits_lost :
    Selects 3 .chipletRouting [1, 2, 0, 0] 2 ∧
      getFromRouter 3 (getNextAddress 3 [1, 2, 0, 0] 2)
        (getWirePc 3 [1, 2, 0, 0] 2) = [0, 0, 0, 0] ∧
      ¬ CreditsReturn 3 [1, 2, 0, 0] 2 := by
  have source : validAddress 3 4 [1, 2, 0, 0] = true := by decide
  have target : validAddress 3 4 [2, 2, 0, 0] = true := by decide
  exact ⟨⟨[1, 2, 0, 0], [2, 2, 0, 0], source, target, ⟨0, rfl⟩, by decide,
    (2, 0), by decide, rfl⟩, by decide, by decide⟩

end Modes

end ChipletSniper.Popnet
