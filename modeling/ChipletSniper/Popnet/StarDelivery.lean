import ChipletSniper.Popnet.MeshDelivery

/-!
# Delivery in star mode

Packets between chiplets go from their gateway to the centre, which encodes
the destination chiplet `(x, y)` as port `x * (n - 1) + y + 1` and decodes the
port by division.  The code is one to one only for `y < n - 1`: a packet for a
chiplet of the last column is sent to the next row, or to no router at all,
and so is a packet that leaves the centre for a core of its own chiplet.
-/

namespace ChipletSniper.Popnet

open Library

section Star

variable {n x y u v dx dy du dv : ℤ}

/-- Away from the centre a star hop is a `StarMove`. -/
theorem starHop_aside (big : 2 ≤ n)
    (source : validAddress n 4 [x, y, u, v] = true)
    (target : validAddress n 4 [dx, dy, du, dv] = true)
    (apart : [x, y, u, v] ≠ [dx, dy, du, dv])
    (aside : isCentral [x, y, u, v] (n - 1) = false) :
    ∃ port next,
      starHop n [dx, dy, du, dv] [x, y, u, v] = some next ∧
        StarMove (n - 1) x y u v dx dy du dv port next := by
  obtain ⟨port, next, chosen, linked, move⟩ :=
    chipletStarPort_move source target apart aside
  refine ⟨port, next, ?_, move⟩
  rw [starHop_eq, chosen]
  simp [linked, move.valid big source target]

/-- The centre decodes its ports. -/
theorem linkedRouter_of_centre {t : ℤ} (nonneg : 0 ≤ t) :
    linkedRouter n [n - 1, n - 1, 0, 0] (t + 1).toNat =
      [t.tdiv (n - 1), t.tmod (n - 1), 0, 0] := by
  have back : (((t + 1).toNat - 1 : ℕ) : ℤ) = t := by omega
  simp only [linkedRouter, isCentral_four.mpr ⟨rfl, rfl, rfl, rfl⟩, if_true,
    back]

/-- For `dy < n - 1` decoding undoes encoding. -/
theorem linkedRouter_centre (dxNonneg : 0 ≤ dx)
    (dyRange : 0 ≤ dy ∧ dy < n - 1) :
    linkedRouter n [n - 1, n - 1, 0, 0] (dx * (n - 1) + dy + 1).toNat =
      [dx, dy, 0, 0] := by
  have product : 0 ≤ dx * (n - 1) := mul_nonneg dxNonneg (by omega)
  have quotient : (dx * (n - 1) + dy).tdiv (n - 1) = dx := by
    rw [Int.tdiv_eq_ediv_of_nonneg (by omega), add_comm,
      Int.add_mul_ediv_right _ _ (by omega),
      Int.ediv_eq_zero_of_lt dyRange.1 dyRange.2, zero_add]
  have remainder : (dx * (n - 1) + dy).tmod (n - 1) = dy := by
    have division := Int.mul_tdiv_add_tmod (dx * (n - 1) + dy) (n - 1)
    rw [quotient, mul_comm] at division
    omega
  rw [linkedRouter_of_centre (by omega), quotient, remainder]

/-- For `dy = n - 1` the port decodes one row on. -/
theorem linkedRouter_centre_lastColumn (big : 2 ≤ n) (dxNonneg : 0 ≤ dx) :
    linkedRouter n [n - 1, n - 1, 0, 0]
        (dx * (n - 1) + (n - 1) + 1).toNat = [dx + 1, 0, 0, 0] := by
  have product : 0 ≤ dx * (n - 1) := mul_nonneg dxNonneg (by omega)
  have whole : dx * (n - 1) + (n - 1) = (dx + 1) * (n - 1) := by ring
  rw [linkedRouter_of_centre (by omega), whole,
    Int.mul_tdiv_cancel _ (by omega : n - 1 ≠ 0), Int.mul_tmod_left]

/-- The centre sends a packet for such a chiplet to its gateway. -/
theorem starHop_centre_leaf
    (target : validAddress n 4 [dx, dy, du, dv] = true)
    (leaf : dy < n - 1) :
    starHop n [dx, dy, du, dv] [n - 1, n - 1, 0, 0] =
      some [dx, dy, 0, 0] := by
  obtain ⟨dxRange, dyRange, _, _⟩ := validAddress_four.mp target
  have valid : validAddress n 4 [dx, dy, 0, 0] = true :=
    validAddress_four.mpr (by omega)
  rw [starHop_eq, chipletStarPort_centre]
  simp only [getNextAddress, linkedRouter_centre dxRange.1 ⟨dyRange.1, leaf⟩,
    valid, if_true]

/-- For `dy = n - 1` the packet lands one row on. -/
theorem starHop_centre_lastColumn (big : 2 ≤ n)
    (target : validAddress n 4 [dx, n - 1, du, dv] = true)
    {next : Addr}
    (taken : starHop n [dx, n - 1, du, dv] [n - 1, n - 1, 0, 0] =
      some next) :
    next = [dx + 1, 0, 0, 0] := by
  obtain ⟨dxRange, _⟩ := validAddress_four.mp target
  rw [starHop_eq, chipletStarPort_centre] at taken
  simp only [getNextAddress, linkedRouter_centre_lastColumn big dxRange.1,
    Option.ite_none_right_eq_some, Option.some.injEq] at taken
  exact taken.2.symm

/-- The position and the destination let the packet through. -/
def StarClear (n x y u v dx dy du dv : ℤ) : Prop :=
  (x = dx ∧ y = dy ∧ AvoidsCentre n x y u v du dv) ∨
    (¬ (x = dx ∧ y = dy) ∧
      (dy < n - 1 ∨ (dx = n - 1 ∧ dy = n - 1 ∧ du = 0 ∧ dv = 0)))

/-- Hops to the gateway, over the centre, and inside the last chiplet. -/
def starRank (n x y u v dx dy du dv : ℤ) : Nat :=
  if x = dx ∧ y = dy then gridDistance u v du dv
  else if x = n - 1 ∧ y = n - 1 ∧ u = 0 ∧ v = 0 then 2 * n.toNat
  else 2 * n.toNat + 1 + gridDistance u v 0 0

/-- Every hop away from the centre is closer. -/
theorem StarMove.lowers {port : Nat} {next : Addr}
    (move : StarMove (n - 1) x y u v dx dy du dv port next)
    (target : validAddress n 4 [dx, dy, du, dv] = true)
    (aside : isCentral [x, y, u, v] (n - 1) = false) :
    starRank n (coord next 0) (coord next 1) (coord next 2) (coord next 3)
        dx dy du dv < starRank n x y u v dx dy du dv := by
  obtain ⟨_, _, duRange, dvRange⟩ := validAddress_four.mp target
  have offCentre : ¬ (x = n - 1 ∧ y = n - 1 ∧ u = 0 ∧ v = 0) := by
    intro there
    rw [isCentral_four.mpr there] at aside
    cases aside
  cases move with
  | inside xSame ySame core =>
      have closer := core.lowers
      simpa only [coord_four, starRank, xSame, ySame, and_self, if_true]
        using closer
  | outbound different core =>
      have closer := core.lowers
      simp only [coord_four, starRank, if_neg different, if_neg offCentre]
      split_ifs <;> omega
  | toCentre different uZero vZero =>
      subst uZero vZero
      have bound : gridDistance 0 0 du dv ≤ 2 * n.toNat := by
        unfold gridDistance
        omega
      simp only [coord_four, starRank, if_neg different, and_self, if_true]
      split_ifs <;> omega

/-- A hop from a clear position is clear and closer. -/
theorem StarClear.progress (big : 2 ≤ n)
    (clear : StarClear n x y u v dx dy du dv)
    (source : validAddress n 4 [x, y, u, v] = true)
    (target : validAddress n 4 [dx, dy, du, dv] = true)
    (apart : [x, y, u, v] ≠ [dx, dy, du, dv]) :
    ∃ x' y' u' v',
      starHop n [dx, dy, du, dv] [x, y, u, v] = some [x', y', u', v'] ∧
        StarClear n x' y' u' v' dx dy du dv ∧
        starRank n x' y' u' v' dx dy du dv <
          starRank n x y u v dx dy du dv := by
  obtain ⟨xRange, yRange, uRange, vRange⟩ := validAddress_four.mp source
  obtain ⟨dxRange, dyRange, duRange, dvRange⟩ := validAddress_four.mp target
  by_cases central : isCentral [x, y, u, v] (n - 1) = true
  · -- the centre itself: decode the chiplet of the destination
    obtain ⟨rfl, rfl, rfl, rfl⟩ := isCentral_four.mp central
    have different : ¬ (n - 1 = dx ∧ n - 1 = dy) := by
      rintro ⟨rfl, rfl⟩
      rcases clear with ⟨_, _, avoids⟩ | ⟨different, _⟩
      · obtain ⟨rfl, rfl⟩ := avoids rfl rfl rfl (Or.inl rfl)
        exact apart rfl
      · exact different ⟨rfl, rfl⟩
    have leaf : dy < n - 1 := by
      rcases clear with ⟨xSame, ySame, _⟩ | ⟨_, leaf | ⟨dxEdge, dyEdge, _⟩⟩
      · exact absurd ⟨xSame, ySame⟩ different
      · exact leaf
      · exact absurd ⟨dxEdge.symm, dyEdge.symm⟩ different
    refine ⟨dx, dy, 0, 0, starHop_centre_leaf target leaf,
      Or.inl ⟨rfl, rfl, fun _ edge => by omega⟩, ?_⟩
    simp only [starRank, if_neg different, and_self, if_true, gridDistance]
    omega
  · have aside : isCentral [x, y, u, v] (n - 1) = false := by
      simpa using central
    obtain ⟨port, next, taken, move⟩ :=
      starHop_aside big source target apart aside
    have lower := move.lowers target aside
    cases move with
    | inside xSame ySame core =>
        refine ⟨_, _, _, _, taken, ?_, lower⟩
        rcases clear with ⟨_, _, avoids⟩ | ⟨different, _⟩
        · exact Or.inl ⟨xSame, ySame,
            (core.avoidsCentre_iff ⟨uRange.1, vRange.1⟩
              ⟨duRange.1, dvRange.1⟩ aside).mpr avoids⟩
        · exact absurd ⟨xSame, ySame⟩ different
    | outbound different core =>
        refine ⟨_, _, _, _, taken, ?_, lower⟩
        rcases clear with ⟨xSame, ySame, _⟩ | rest
        · exact absurd ⟨xSame, ySame⟩ different
        · exact Or.inr rest
    | toCentre different uZero vZero =>
        refine ⟨_, _, _, _, taken, ?_, lower⟩
        rcases clear with ⟨xSame, ySame, _⟩ | ⟨_, reach⟩
        · exact absurd ⟨xSame, ySame⟩ different
        · by_cases home : n - 1 = dx ∧ n - 1 = dy
          · refine Or.inl ⟨home.1, home.2, ?_⟩
            intro _ _ _ _
            omega
          · exact Or.inr ⟨home, reach⟩

theorem StarClear.visits (big : 2 ≤ n)
    (clear : StarClear n x y u v dx dy du dv)
    (source : validAddress n 4 [x, y, u, v] = true)
    (target : validAddress n 4 [dx, dy, du, dv] = true) :
    Visits (starHop n [dx, dy, du, dv]) [x, y, u, v] [dx, dy, du, dv] := by
  apply visits_of_rank
    (fun address => ∃ x y u v, address = [x, y, u, v] ∧
      validAddress n 4 address = true ∧ StarClear n x y u v dx dy du dv)
    (fun address => starRank n (coord address 0) (coord address 1)
      (coord address 2) (coord address 3) dx dy du dv)
  · rintro address ⟨x, y, u, v, rfl, valid, here⟩ apart
    obtain ⟨x', y', u', v', taken, there, lower⟩ :=
      here.progress big valid target apart
    exact ⟨_, taken, ⟨x', y', u', v', rfl, hop_valid taken, there⟩, lower⟩
  · exact ⟨x, y, u, v, rfl, source, clear⟩

/-! ### Packets that are lost -/

/-- A packet for another chiplet in the last column never enters it. -/
theorem not_visits_lastColumn (big : 2 ≤ n)
    (target : validAddress n 4 [dx, n - 1, du, dv] = true)
    (notCentre : ¬ (dx = n - 1 ∧ du = 0 ∧ dv = 0))
    (source : validAddress n 4 [x, y, u, v] = true)
    (different : ¬ (x = dx ∧ y = n - 1)) :
    ¬ Visits (starHop n [dx, n - 1, du, dv]) [x, y, u, v]
      [dx, n - 1, du, dv] := by
  refine not_visits_of_closed
    (fun address => ∃ x y u v, address = [x, y, u, v] ∧
      validAddress n 4 address = true ∧
      (¬ (x = dx ∧ y = n - 1) ∨
        (x = n - 1 ∧ y = n - 1 ∧ u = 0 ∧ v = 0)))
    ?_ ⟨x, y, u, v, rfl, source, Or.inl different⟩ ?_
  · rintro address next ⟨x, y, u, v, rfl, valid, here⟩ taken
    have nextValid := hop_valid taken
    by_cases central : isCentral [x, y, u, v] (n - 1) = true
    · obtain ⟨rfl, rfl, rfl, rfl⟩ := isCentral_four.mp central
      have landed := starHop_centre_lastColumn big target taken
      refine ⟨_, _, _, _, landed, nextValid, Or.inl ?_⟩
      omega
    · have outside : ¬ (x = dx ∧ y = n - 1) := by
        rcases here with outside | there
        · exact outside
        · exact absurd (isCentral_four.mpr there) central
      have notThere : [x, y, u, v] ≠ [dx, n - 1, du, dv] := by
        intro equality
        simp only [List.cons.injEq] at equality
        exact outside ⟨equality.1, equality.2.1⟩
      obtain ⟨port, moved, taken', move⟩ :=
        starHop_aside big valid target notThere (by simpa using central)
      rw [taken] at taken'
      cases taken'
      cases move with
      | inside xSame ySame _ => exact absurd ⟨xSame, ySame⟩ outside
      | outbound _ _ => exact ⟨_, _, _, _, rfl, nextValid, Or.inl outside⟩
      | toCentre _ _ _ =>
          exact ⟨_, _, _, _, rfl, nextValid, Or.inr ⟨rfl, rfl, rfl, rfl⟩⟩
  · rintro ⟨x', y', u', v', equality, _, outside⟩
    simp only [List.cons.injEq, and_true] at equality
    omega

/-- A packet that has to leave the centre for a core of the centre's own
chiplet is sent to no router. -/
theorem not_visits_behind_star_centre (big : 2 ≤ n)
    (target : validAddress n 4 [n - 1, n - 1, du, dv] = true)
    (core : ¬ (du = 0 ∧ dv = 0))
    (source : validAddress n 4 [n - 1, n - 1, u, v] = true)
    (passes : v = 0 ∧ (u = 0 ∨ du = 0)) :
    ¬ Visits (starHop n [n - 1, n - 1, du, dv]) [n - 1, n - 1, u, v]
      [n - 1, n - 1, du, dv] := by
  refine not_visits_of_closed
    (fun address => ∃ u v, address = [n - 1, n - 1, u, v] ∧
      validAddress n 4 address = true ∧ v = 0 ∧ (u = 0 ∨ du = 0))
    ?_ ⟨u, v, rfl, source, passes⟩ ?_
  · rintro address next ⟨u, v, rfl, valid, rfl, here⟩ taken
    have nextValid := hop_valid taken
    by_cases central : isCentral [n - 1, n - 1, u, 0] (n - 1) = true
    · obtain ⟨_, _, rfl, _⟩ := isCentral_four.mp central
      have landed := starHop_centre_lastColumn big target taken
      rw [landed, validAddress_four] at nextValid
      omega
    · have offCentre : u ≠ 0 := by
        rintro rfl
        exact central (isCentral_four.mpr ⟨rfl, rfl, rfl, rfl⟩)
      have duZero : du = 0 := here.resolve_left offCentre
      have notThere :
          [n - 1, n - 1, u, 0] ≠ [n - 1, n - 1, du, dv] := by
        intro equality
        simp only [List.cons.injEq, and_true] at equality
        omega
      obtain ⟨_, _, uRange, _⟩ := validAddress_four.mp valid
      obtain ⟨_, _, _, dvRange⟩ := validAddress_four.mp target
      obtain ⟨port, moved, taken', move⟩ :=
        starHop_aside big valid target notThere (by simpa using central)
      rw [taken] at taken'
      cases taken'
      cases move with
      | inside _ _ inner =>
          refine ⟨_, _, rfl, nextValid, ?_⟩
          cases inner <;> omega
      | outbound different _ => exact absurd ⟨rfl, rfl⟩ different
      | toCentre different _ _ => exact absurd ⟨rfl, rfl⟩ different
  · rintro ⟨u', v', equality, _, outside⟩
    simp only [List.cons.injEq, and_true] at equality
    omega

end Star

/-- The pairs star mode can serve: inside one chiplet, unless the packet has
to leave the centre for a core behind it; to the centre; and to any chiplet
that is not in the last column. -/
def StarRouteClear (n : ℤ) (src des : Addr) : Prop :=
  if coord src 0 = coord des 0 ∧ coord src 1 = coord des 1 then
    coord src 0 = n - 1 → coord src 1 = n - 1 → coord src 3 = 0 →
      (coord src 2 = 0 ∨ coord des 2 = 0) →
      coord des 2 = 0 ∧ coord des 3 = 0
  else
    coord des 1 < n - 1 ∨
      (coord des 0 = n - 1 ∧ coord des 1 = n - 1 ∧
        coord des 2 = 0 ∧ coord des 3 = 0)

/-- In star mode a packet is delivered exactly when its route is clear. -/
theorem star_delivers_iff {n : ℤ} (big : 2 ≤ n) {src des : Addr}
    (source : validAddress n 4 src = true)
    (target : validAddress n 4 des = true) :
    Visits (starHop n des) src des ↔ StarRouteClear n src des := by
  obtain ⟨x, y, u, v, rfl⟩ := exists_of_validAddress source
  obtain ⟨dx, dy, du, dv, rfl⟩ := exists_of_validAddress target
  obtain ⟨_, dyRange, _, _⟩ := validAddress_four.mp target
  simp only [StarRouteClear, coord_four]
  by_cases same : x = dx ∧ y = dy
  · rw [if_pos same]
    constructor
    · intro delivered xEdge yEdge row passes
      by_contra core
      obtain ⟨rfl, rfl⟩ := same
      subst xEdge yEdge
      exact not_visits_behind_star_centre big target core source
        ⟨row, passes⟩ delivered
    · intro avoids
      exact StarClear.visits big (Or.inl ⟨same.1, same.2, avoids⟩)
        source target
  · rw [if_neg same]
    constructor
    · intro delivered
      by_contra blocked
      have lastColumn : dy = n - 1 := by omega
      subst lastColumn
      exact not_visits_lastColumn big target (by omega) source same delivered
    · intro reach
      exact StarClear.visits big (Or.inr ⟨same, reach⟩) source target

/-- To a chiplet before the last column, and to one in it. -/
theorem star_delivers_across_three :
    Visits (starHop 3 [2, 1, 1, 1]) [0, 2, 0, 1] [2, 1, 1, 1] ∧
      ¬ Visits (starHop 3 [1, 2, 1, 1]) [0, 2, 0, 1] [1, 2, 1, 1] := by
  constructor
  · refine (star_delivers_iff (by norm_num) (by decide) (by decide)).mpr ?_
    unfold StarRouteClear
    decide
  · rw [star_delivers_iff (by norm_num) (by decide) (by decide)]
    unfold StarRouteClear
    decide

/-- In the star of three chiplets a side, a packet from `(0, 0, 0, 0)` to
chiplet `(0, 2)` never arrives. -/
theorem star_packet_circulates :
    ¬ Visits (starHop 3 [0, 2, 0, 0]) [0, 0, 0, 0] [0, 2, 0, 0] :=
  not_visits_lastColumn (n := 3) (by norm_num) (by decide) (by norm_num)
    (by decide) (by norm_num)

end ChipletSniper.Popnet
