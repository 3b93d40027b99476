import ChipletSniper.Library.Ring
import ChipletSniper.Library.Walk
import ChipletSniper.Popnet.Routing

/-!
# Torus routing

`TXY_algorithm` over the ring links of two dimensions: first along x, then
along y, each the shorter way around.  A packet changes its virtual channel
where it crosses the end of a ring, so that no ring of channels closes.
-/

namespace ChipletSniper.Popnet

open Library

/-- A hop of `TXY_algorithm` over the ring links, the ordinary branch of
`getNextAddress`. -/
def torusHop (n : ℤ) (des address : Addr) : Option Addr :=
  match txyAlgorithm n address des with
  | [] => none
  | candidate :: _ => some (ringNeighbour n address (candidate.1 - 1))

/-- A router, an output port and a virtual channel. -/
abbrev TorusChannel := Addr × VC

/-- Some route of `TXY_algorithm` takes `first` and then `second`. -/
def TorusDepends (n : ℤ) (first second : TorusChannel) : Prop :=
  ∃ src des,
    validAddress n 2 src = true ∧ validAddress n 2 des = true ∧
    (∃ count, after (torusHop n des) count src = some first.1) ∧
    first.2 ∈ txyAlgorithm n first.1 des ∧
    ringNeighbour n first.1 (first.2.1 - 1) = second.1 ∧
    second.2 ∈ txyAlgorithm n second.1 des

theorem validAddress_two {n x y : ℤ} :
    validAddress n 2 [x, y] = true ↔ (0 ≤ x ∧ x < n) ∧ 0 ≤ y ∧ y < n := by
  simp [validAddress]
  omega

theorem exists_of_validAddress_two {n : ℤ} {address : Addr}
    (valid : validAddress n 2 address = true) :
    ∃ x y, address = [x, y] := by
  have length : address.length = 2 := by
    simp [validAddress] at valid
    exact valid.1
  exact List.length_eq_two.mp length

/-- The port that lowers or raises a coordinate. -/
def ringPort (coordinate : Nat) (raises : Bool) : Nat :=
  2 * coordinate + if raises then 2 else 1

/-- A hop on the torus: along x until that is done, and then along y. -/
inductive TorusMove (n x y dx dy : ℤ) : VC → Addr → Prop
  | alongX {raises : Bool} {lane : Nat} {x' : ℤ} :
      RingMove n dx x raises lane x' →
      TorusMove n x y dx dy (ringPort 0 raises, lane) [x', y]
  | alongY {raises : Bool} {lane : Nat} {y' : ℤ} :
      x = dx → RingMove n dy y raises lane y' →
      TorusMove n x y dx dy (ringPort 1 raises, lane) [x, y']

section Moves

variable {n x y dx dy : ℤ}

theorem ringNeighbour_ringPort_zero (raises : Bool) :
    ringNeighbour n [x, y] (ringPort 0 raises - 1) =
      [if raises then ringNext n x else ringPrevious n x, y] := by
  cases raises <;> simp [ringNeighbour, ringPort, ringNext, ringPrevious, coord]

theorem ringNeighbour_ringPort_one (raises : Bool) :
    ringNeighbour n [x, y] (ringPort 1 raises - 1) =
      [x, if raises then ringNext n y else ringPrevious n y] := by
  cases raises <;> simp [ringNeighbour, ringPort, ringNext, ringPrevious, coord]

/-- The candidate in one dimension, or those of the next dimension. -/
def ringCandidates (n s d : ℤ) (down up : Nat) (further : List VC) :
    List VC :=
  if ((d - s).natAbs : ℤ) * 2 ≤ n then
    if d - s < 0 then [(down, 0)]
    else if 0 < d - s then [(up, 1)] else further
  else
    if d - s < 0 then [(up, 0)]
    else if 0 < d - s then [(down, 1)] else further

theorem txyAlgorithm_two :
    txyAlgorithm n [x, y] [dx, dy] =
      ringCandidates n x dx 1 2 (ringCandidates n y dy 3 4 []) :=
  rfl

theorem ringCandidates_self {down up : Nat} {further : List VC} :
    ringCandidates n x x down up further = further := by
  simp [ringCandidates]

theorem ringCandidates_move {s d t : ℤ} {raises : Bool} {lane : Nat}
    (move : RingMove n d s raises lane t) (down up : Nat)
    (further : List VC) :
    ringCandidates n s d down up further =
      [(if raises then up else down, lane)] := by
  unfold ringCandidates
  cases move with
  | lower below half =>
      rw [if_pos (by omega), if_pos (by omega)]
      rfl
  | raise above half =>
      rw [if_pos (by omega), if_neg (by omega), if_pos (by omega)]
      rfl
  | raiseAround below half =>
      rw [if_neg (by omega), if_pos (by omega)]
      rfl
  | lowerAround above half =>
      rw [if_neg (by omega), if_neg (by omega), if_pos (by omega)]
      rfl

theorem txyAlgorithm_self : txyAlgorithm n [dx, dy] [dx, dy] = [] := by
  rw [txyAlgorithm_two, ringCandidates_self, ringCandidates_self]

/-- The candidate of `TXY_algorithm` and the ring link behind it. -/
theorem txyAlgorithm_move (apart : ¬ (x = dx ∧ y = dy)) :
    ∃ vc next,
      txyAlgorithm n [x, y] [dx, dy] = [vc] ∧
        ringNeighbour n [x, y] (vc.1 - 1) = next ∧
        TorusMove n x y dx dy vc next := by
  by_cases column : x = dx
  · have apartY : y ≠ dy := fun same => apart ⟨column, same⟩
    obtain ⟨raises, lane, y', move⟩ := exists_ringMove apartY
    refine ⟨(ringPort 1 raises, lane), _, ?_, ?_, .alongY column move⟩
    · rw [txyAlgorithm_two, column, ringCandidates_self,
        ringCandidates_move move]
      cases raises <;> rfl
    · rw [ringNeighbour_ringPort_one]
      cases move <;> rfl
  · obtain ⟨raises, lane, x', move⟩ := exists_ringMove column
    refine ⟨(ringPort 0 raises, lane), _, ?_, ?_, .alongX move⟩
    · rw [txyAlgorithm_two, ringCandidates_move move]
      cases raises <;> rfl
    · rw [ringNeighbour_ringPort_zero]
      cases move <;> rfl

theorem TorusMove.valid {vc : VC} {next : Addr}
    (move : TorusMove n x y dx dy vc next)
    (source : validAddress n 2 [x, y] = true) :
    validAddress n 2 next = true := by
  obtain ⟨xRange, yRange⟩ := validAddress_two.mp source
  cases move with
  | alongX ring => exact validAddress_two.mpr ⟨ring.inside xRange, yRange⟩
  | alongY _ ring => exact validAddress_two.mpr ⟨xRange, ring.inside yRange⟩

end Moves

/-! ## Minimality -/

section Minimal

variable {n : ℤ} {src des address next : Addr}

/-- The hops of the shortest way. -/
def torusDistance (n : ℤ) (des address : Addr) : Nat :=
  ringDistance n (coord address 0) (coord des 0) +
    ringDistance n (coord address 1) (coord des 1)

/-- Every move is one on a shortest way. -/
theorem TorusMove.closer {x y dx dy : ℤ} {vc : VC}
    (move : TorusMove n x y dx dy vc next)
    (source : validAddress n 2 [x, y] = true)
    (target : validAddress n 2 [dx, dy] = true) :
    torusDistance n [dx, dy] next + 1 = torusDistance n [dx, dy] [x, y] := by
  obtain ⟨xRange, yRange⟩ := validAddress_two.mp source
  obtain ⟨dxRange, dyRange⟩ := validAddress_two.mp target
  cases move with
  | alongX ring =>
      have closer := ring.closer xRange dxRange
      simp only [torusDistance, coord, List.getD_cons_zero,
        List.getD_cons_succ]
      omega
  | alongY _ ring =>
      have closer := ring.closer yRange dyRange
      simp only [torusDistance, coord, List.getD_cons_zero,
        List.getD_cons_succ]
      omega

theorem torusHop_self (target : validAddress n 2 des = true) :
    torusHop n des des = none := by
  obtain ⟨dx, dy, rfl⟩ := exists_of_validAddress_two target
  rw [torusHop, txyAlgorithm_self]

/-- Every hop is one on a shortest way. -/
theorem torusHop_closer (source : validAddress n 2 address = true)
    (target : validAddress n 2 des = true) (apart : address ≠ des) :
    ∃ next, torusHop n des address = some next ∧
      validAddress n 2 next = true ∧
      torusDistance n des next + 1 = torusDistance n des address := by
  obtain ⟨x, y, rfl⟩ := exists_of_validAddress_two source
  obtain ⟨dx, dy, rfl⟩ := exists_of_validAddress_two target
  have different : ¬ (x = dx ∧ y = dy) := by
    rintro ⟨rfl, rfl⟩
    exact apart rfl
  obtain ⟨vc, next, chosen, linked, move⟩ := txyAlgorithm_move different
  refine ⟨next, ?_, move.valid source, move.closer source target⟩
  rw [torusHop, chosen]
  exact congrArg some linked

theorem torusDistance_self (big : 2 ≤ n) :
    torusDistance n des des = 0 := by
  unfold torusDistance
  rw [ringDistance_self (by omega), ringDistance_self (by omega)]

/-- The walk arrives after as many hops as the shortest way has. -/
theorem torusHop_minimal (big : 2 ≤ n)
    (source : validAddress n 2 src = true)
    (target : validAddress n 2 des = true) (count : Nat) :
    after (torusHop n des) count src = some des ↔
      count = torusDistance n des src :=
  after_iff_of_exact (fun address => validAddress n 2 address = true)
    (torusDistance n des) (torusHop_self target) (torusDistance_self big)
    (fun _ valid apart => torusHop_closer valid target apart) src source count

theorem torusDistance_cast (source : validAddress n 2 src = true)
    (target : validAddress n 2 des = true) :
    (torusDistance n des src : ℤ) =
      min |coord des 0 - coord src 0| (n - |coord des 0 - coord src 0|) +
        min |coord des 1 - coord src 1| (n - |coord des 1 - coord src 1|) := by
  obtain ⟨x, y, rfl⟩ := exists_of_validAddress_two source
  obtain ⟨dx, dy, rfl⟩ := exists_of_validAddress_two target
  obtain ⟨xRange, yRange⟩ := validAddress_two.mp source
  obtain ⟨dxRange, dyRange⟩ := validAddress_two.mp target
  rw [torusDistance, Nat.cast_add]
  exact congrArg₂ _ (ringDistance_cast xRange dxRange)
    (ringDistance_cast yRange dyRange)

end Minimal

/-! ## Dependencies -/

section Rank

variable {n x y dx dy : ℤ}

/-- Channels along x come before channels along y. -/
def torusRank (n : ℤ) (channel : TorusChannel) : ℤ :=
  if channel.2.1 < 3 then
    ringRank n (coord channel.1 0) (channel.2.1 == 2) channel.2.2
  else
    2 * n + ringRank n (coord channel.1 1) (channel.2.1 == 4) channel.2.2

theorem torusRank_alongX (raises : Bool) (lane : Nat) :
    torusRank n ([x, y], (ringPort 0 raises, lane)) =
      ringRank n x raises lane := by
  cases raises <;> rfl

theorem torusRank_alongY (raises : Bool) (lane : Nat) :
    torusRank n ([x, y], (ringPort 1 raises, lane)) =
      2 * n + ringRank n y raises lane := by
  cases raises <;> rfl

/-- A candidate of `TXY_algorithm` is a move. -/
theorem move_of_mem_txyAlgorithm {vc : VC}
    (member : vc ∈ txyAlgorithm n [x, y] [dx, dy]) :
    TorusMove n x y dx dy vc (ringNeighbour n [x, y] (vc.1 - 1)) := by
  have apart : ¬ (x = dx ∧ y = dy) := by
    rintro ⟨rfl, rfl⟩
    rw [txyAlgorithm_self] at member
    cases member
  obtain ⟨only, next, chosen, rfl, move⟩ := txyAlgorithm_move (n := n) apart
  rw [chosen, List.mem_singleton] at member
  exact member ▸ move

/-- Two consecutive hops of a packet raise the rank. -/
theorem torusRank_lt {vc vc' : VC} {x' y' : ℤ} {next : Addr}
    (source : validAddress n 2 [x, y] = true)
    (target : validAddress n 2 [dx, dy] = true)
    (move : TorusMove n x y dx dy vc [x', y'])
    (move' : TorusMove n x' y' dx dy vc' next) :
    torusRank n ([x, y], vc) < torusRank n ([x', y'], vc') := by
  obtain ⟨xRange, yRange⟩ := validAddress_two.mp source
  obtain ⟨dxRange, dyRange⟩ := validAddress_two.mp target
  cases move with
  | alongX ring =>
      have inside := ring.inside xRange
      rw [torusRank_alongX]
      cases move' with
      | alongX ring' =>
          rw [torusRank_alongX]
          exact ring.rank_lt ring' dxRange
      | alongY _ ring' =>
          have below := (ring.rank_bounds xRange).2
          have above := (ring'.rank_bounds yRange).1
          rw [torusRank_alongY]
          omega
  | alongY column ring =>
      have inside := ring.inside yRange
      rw [torusRank_alongY]
      cases move' with
      | alongX ring' => exact absurd column ring'.apart
      | alongY _ ring' =>
          rw [torusRank_alongY]
          exact Int.add_lt_add_left (ring.rank_lt ring' dyRange) _

/-- Every dependency raises the rank. -/
theorem TorusDepends.rank_lt {first second : TorusChannel}
    (depends : TorusDepends n first second) :
    torusRank n first < torusRank n second := by
  obtain ⟨address, vc⟩ := first
  obtain ⟨next, vc'⟩ := second
  obtain ⟨src, des, srcValid, desValid, ⟨count, route⟩, member, linked,
    member'⟩ := depends
  dsimp only at route member linked member'
  have closed : ∀ address next, validAddress n 2 address = true →
      torusHop n des address = some next → validAddress n 2 next = true := by
    intro address next valid taken
    by_cases there : address = des
    · rw [there, torusHop_self desValid] at taken
      cases taken
    · obtain ⟨_, hop, nextValid, _⟩ := torusHop_closer valid desValid there
      rw [taken] at hop
      exact Option.some.inj hop ▸ nextValid
  have addressValid : validAddress n 2 address = true :=
    after_of_closed _ closed count src address srcValid route
  obtain ⟨x, y, rfl⟩ := exists_of_validAddress_two addressValid
  obtain ⟨dx, dy, rfl⟩ := exists_of_validAddress_two desValid
  have move := move_of_mem_txyAlgorithm member
  rw [linked] at move
  have nextValid := move.valid addressValid
  obtain ⟨x', y', rfl⟩ := exists_of_validAddress_two nextValid
  exact torusRank_lt addressValid desValid move
    (move_of_mem_txyAlgorithm member')

end Rank

/-- Torus routing takes a shortest way, and its channel dependencies have no
cycle. -/
theorem torus_routing_minimal {n : ℤ} (big : 2 ≤ n) :
    (∀ src des, validAddress n 2 src = true → validAddress n 2 des = true →
      ∀ count : Nat, after (torusHop n des) count src = some des ↔
        (count : ℤ) =
          min |coord des 0 - coord src 0|
              (n - |coord des 0 - coord src 0|) +
            min |coord des 1 - coord src 1|
              (n - |coord des 1 - coord src 1|)) ∧
      ∀ channel, ¬ Relation.TransGen (TorusDepends n) channel channel := by
  refine ⟨?_, acyclic_of_rank (torusRank n) fun _ _ depends =>
    depends.rank_lt⟩
  intro src des source target count
  rw [torusHop_minimal big source target, ← torusDistance_cast source target]
  exact Nat.cast_inj.symm

/-- One hop around the end of x, and half the ring along y. -/
theorem torus_routing_minimal_four :
    after (torusHop 4 [3, 2]) 3 [0, 0] = some [3, 2] ∧
      after (torusHop 4 [3, 2]) 2 [0, 0] ≠ some [3, 2] := by
  have minimal := (torus_routing_minimal (show (2 : ℤ) ≤ 4 by decide)).1
    [0, 0] [3, 2] (by decide) (by decide)
  exact ⟨(minimal 3).mpr (by decide),
    fun early => absurd ((minimal 2).mp early) (by decide)⟩

end ChipletSniper.Popnet
