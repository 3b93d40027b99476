import Mathlib.Tactic.Linarith
import ChipletSniper.Popnet.Hops

/-!
# Delivery in mesh mode

`getNextAddress` treats the router `(n - 1, n - 1, 0, 0)` as the centre of a
star whatever the routing algorithm is.  In mesh mode that router is an
ordinary gateway, so a packet that has to leave it is thrown to another
chiplet.  Packets for other chiplets recover from the jump, unless the network
is so small that the port decodes to no router; packets for the cores behind
that gateway come back to it for ever.
-/

namespace ChipletSniper.Popnet

open Library

section Core

variable {n x y u v dx dy du dv : ℤ}

/-- The walk from core `(u, v)` to core `(du, dv)` of chiplet `(x, y)` does
not have to leave the centre. -/
def AvoidsCentre (n x y u v du dv : ℤ) : Prop :=
  x = n - 1 → y = n - 1 → v = 0 → (u = 0 ∨ du = 0) → du = 0 ∧ dv = 0

/-- A move that does not start at the centre changes nothing about that. -/
theorem XYMove.avoidsCentre_iff {port : Nat} {u' v' : ℤ}
    (move : XYMove 5 u v du dv port u' v') (source : 0 ≤ u ∧ 0 ≤ v)
    (target : 0 ≤ du ∧ 0 ≤ dv)
    (aside : isCentral [x, y, u, v] (n - 1) = false) :
    AvoidsCentre n x y u' v' du dv ↔ AvoidsCentre n x y u v du dv := by
  have offCentre : ¬ (x = n - 1 ∧ y = n - 1 ∧ u = 0 ∧ v = 0) := by
    intro there
    rw [isCentral_four.mpr there] at aside
    cases aside
  unfold AvoidsCentre
  cases move <;> omega

theorem AvoidsCentre.aside
    (avoids : AvoidsCentre n x y u v du dv)
    (apart : ¬ (u = du ∧ v = dv)) :
    isCentral [x, y, u, v] (n - 1) = false := by
  rw [Bool.eq_false_iff]
  intro central
  obtain ⟨xEdge, yEdge, rfl, rfl⟩ := isCentral_four.mp central
  obtain ⟨rfl, rfl⟩ := avoids xEdge yEdge rfl (Or.inl rfl)
  exact apart ⟨rfl, rfl⟩

end Core

section Mesh

variable {n x y u v dx dy du dv : ℤ}

/-- Away from the centre a mesh hop is a `ChipletMove`. -/
theorem meshHop_aside
    (source : validAddress n 4 [x, y, u, v] = true)
    (target : validAddress n 4 [dx, dy, du, dv] = true)
    (apart : [x, y, u, v] ≠ [dx, dy, du, dv])
    (aside : isCentral [x, y, u, v] (n - 1) = false) :
    ∃ port next,
      meshHop n [dx, dy, du, dv] [x, y, u, v] = some next ∧
        ChipletMove x y u v dx dy du dv port next := by
  obtain ⟨port, next, chosen, linked, move⟩ :=
    chipletPort_move source target apart
  refine ⟨port, next, ?_, move⟩
  have ringPort : (port - 1) / 2 ≠ 4 := by
    cases move with
    | inside _ _ core => cases core <;> omega
    | outbound _ core => cases core <;> omega
    | between _ _ chip => cases chip <;> omega
  have nextAddress : getNextAddress n [x, y, u, v] port = next := by
    rw [← linked]
    simp [getNextAddress, linkedRouter, aside, ringPort]
  rw [meshHop_eq, chosen]
  simp [nextAddress, move.valid source target]

/-- The ordinary route from `(x, y, u, v)` reaches the destination without
having to leave the centre. -/
def MeshClear (n x y u v dx dy du dv : ℤ) : Prop :=
  (x = dx ∧ y = dy ∧ AvoidsCentre n x y u v du dv) ∨
    (¬ (x = dx ∧ y = dy) ∧ ¬ (x = n - 1 ∧ y = n - 1) ∧
      (dx = n - 1 → dy = n - 1 → du = 0 ∧ dv = 0) ∧
      (y = n - 1 → dx = n - 1 → dy = n - 1))

/-- A hop that does not start at the centre changes nothing about that. -/
theorem ChipletMove.clear_iff {port : Nat} {next : Addr}
    (move : ChipletMove x y u v dx dy du dv port next)
    (source : validAddress n 4 [x, y, u, v] = true)
    (target : validAddress n 4 [dx, dy, du, dv] = true)
    (aside : isCentral [x, y, u, v] (n - 1) = false) :
    MeshClear n (coord next 0) (coord next 1) (coord next 2) (coord next 3)
        dx dy du dv ↔ MeshClear n x y u v dx dy du dv := by
  obtain ⟨xRange, yRange, uRange, vRange⟩ := validAddress_four.mp source
  obtain ⟨dxRange, dyRange, duRange, dvRange⟩ := validAddress_four.mp target
  cases move with
  | inside xSame ySame core =>
      have avoids := core.avoidsCentre_iff ⟨uRange.1, vRange.1⟩
        ⟨duRange.1, dvRange.1⟩ aside
      simp only [coord_four, MeshClear, avoids]
  | outbound different core =>
      simp only [coord_four, MeshClear, different, false_and, ← and_assoc]
  | @between x' y' uZero vZero chip =>
      subst uZero vZero
      have offCentre : ¬ (x = n - 1 ∧ y = n - 1) := by
        rintro ⟨xEdge, yEdge⟩
        rw [isCentral_four.mpr ⟨xEdge, yEdge, rfl, rfl⟩] at aside
        cases aside
      show MeshClear n x' y' 0 0 dx dy du dv ↔ _
      unfold MeshClear AvoidsCentre
      constructor
      · rintro (⟨xSame, ySame, avoids⟩ | ⟨_, _, final, corner⟩)
        · refine Or.inr ⟨chip.apart, offCentre, fun xEdge yEdge =>
            avoids (xSame ▸ xEdge) (ySame ▸ yEdge) rfl (Or.inl rfl), ?_⟩
          cases chip <;> omega
        · refine Or.inr ⟨chip.apart, offCentre, final, ?_⟩
          cases chip <;> omega
      · rintro (⟨xSame, ySame, _⟩ | ⟨_, _, final, corner⟩)
        · cases chip <;> omega
        · by_cases arrived : x' = dx ∧ y' = dy
          · exact Or.inl ⟨arrived.1, arrived.2, fun xEdge yEdge _ _ =>
              final (arrived.1 ▸ xEdge) (arrived.2 ▸ yEdge)⟩
          · refine Or.inr ⟨arrived, ?_, final, ?_⟩
            · cases chip <;> omega
            · cases chip <;> omega

/-- Hops between chiplets first, then hops between cores. -/
def meshRank (n x y u v dx dy du dv : ℤ) : Nat :=
  gridDistance x y dx dy * (2 * n.toNat + 1) +
    if x = dx ∧ y = dy then gridDistance u v du dv
    else gridDistance u v 0 0

private theorem gridDistance_lt (uRange : 0 ≤ u ∧ u < n)
    (vRange : 0 ≤ v ∧ v < n) (duRange : 0 ≤ du ∧ du < n)
    (dvRange : 0 ≤ dv ∧ dv < n) :
    gridDistance u v du dv < 2 * n.toNat + 1 := by
  unfold gridDistance
  omega

private theorem meshRank_between {port : Nat} {x' y' : ℤ}
    (move : XYMove 1 x y dx dy port x' y')
    (core : (if x' = dx ∧ y' = dy then gridDistance 0 0 du dv
      else gridDistance 0 0 0 0) < 2 * n.toNat + 1) :
    meshRank n x' y' 0 0 dx dy du dv < meshRank n x y 0 0 dx dy du dv := by
  have closer : gridDistance x' y' dx dy + 1 ≤ gridDistance x y dx dy :=
    move.lowers
  have scaled :
      (gridDistance x' y' dx dy + 1) * (2 * n.toNat + 1) ≤
        gridDistance x y dx dy * (2 * n.toNat + 1) :=
    Nat.mul_le_mul_right _ closer
  unfold meshRank
  rw [Nat.add_mul] at scaled
  omega

/-- Every hop of the ordinary route is closer. -/
theorem ChipletMove.lowers {port : Nat} {next : Addr}
    (move : ChipletMove x y u v dx dy du dv port next)
    (source : validAddress n 4 [x, y, u, v] = true)
    (target : validAddress n 4 [dx, dy, du, dv] = true) :
    meshRank n (coord next 0) (coord next 1) (coord next 2) (coord next 3)
        dx dy du dv < meshRank n x y u v dx dy du dv := by
  obtain ⟨_, _, uRange, vRange⟩ := validAddress_four.mp source
  obtain ⟨_, _, duRange, dvRange⟩ := validAddress_four.mp target
  cases move with
  | inside xSame ySame core =>
      have closer := core.lowers
      simp only [coord_four, meshRank, xSame, ySame, and_self, if_true]
      omega
  | outbound different core =>
      have closer := core.lowers
      simp only [coord_four, meshRank, if_neg different]
      omega
  | between uZero vZero chip =>
      subst uZero vZero
      simp only [coord_four]
      apply meshRank_between chip
      split_ifs
      · exact gridDistance_lt uRange vRange duRange dvRange
      · exact gridDistance_lt uRange vRange uRange vRange

theorem MeshClear.aside (clear : MeshClear n x y u v dx dy du dv)
    (apart : [x, y, u, v] ≠ [dx, dy, du, dv]) :
    isCentral [x, y, u, v] (n - 1) = false := by
  rcases clear with ⟨rfl, rfl, avoids⟩ | ⟨_, offCentre, _⟩
  · exact avoids.aside fun same => apart (by rw [same.1, same.2])
  · rw [Bool.eq_false_iff]
    intro central
    obtain ⟨xEdge, yEdge, _⟩ := isCentral_four.mp central
    exact offCentre ⟨xEdge, yEdge⟩

/-- A hop from a clear position is clear and closer. -/
theorem MeshClear.progress
    (clear : MeshClear n x y u v dx dy du dv)
    (source : validAddress n 4 [x, y, u, v] = true)
    (target : validAddress n 4 [dx, dy, du, dv] = true)
    (apart : [x, y, u, v] ≠ [dx, dy, du, dv]) :
    ∃ x' y' u' v',
      meshHop n [dx, dy, du, dv] [x, y, u, v] = some [x', y', u', v'] ∧
        MeshClear n x' y' u' v' dx dy du dv ∧
        meshRank n x' y' u' v' dx dy du dv <
          meshRank n x y u v dx dy du dv := by
  obtain ⟨xRange, yRange, uRange, vRange⟩ := validAddress_four.mp source
  obtain ⟨dxRange, dyRange, duRange, dvRange⟩ := validAddress_four.mp target
  have aside := clear.aside apart
  obtain ⟨port, next, taken, move⟩ :=
    meshHop_aside source target apart aside
  have lower := move.lowers source target
  have further := (move.clear_iff source target aside).mpr clear
  obtain ⟨x', y', u', v', rfl⟩ :=
    exists_of_validAddress (move.valid source target)
  exact ⟨x', y', u', v', taken, further, lower⟩

theorem MeshClear.visits
    (clear : MeshClear n x y u v dx dy du dv)
    (source : validAddress n 4 [x, y, u, v] = true)
    (target : validAddress n 4 [dx, dy, du, dv] = true) :
    Visits (meshHop n [dx, dy, du, dv]) [x, y, u, v] [dx, dy, du, dv] := by
  apply visits_of_rank
    (fun address => ∃ x y u v, address = [x, y, u, v] ∧
      validAddress n 4 address = true ∧ MeshClear n x y u v dx dy du dv)
    (fun address => meshRank n (coord address 0) (coord address 1)
      (coord address 2) (coord address 3) dx dy du dv)
  · rintro address ⟨x, y, u, v, rfl, valid, here⟩ apart
    obtain ⟨x', y', u', v', taken, there, lower⟩ :=
      here.progress valid target apart
    exact ⟨_, taken, ⟨x', y', u', v', rfl, hop_valid taken, there⟩, lower⟩
  · exact ⟨x, y, u, v, rfl, source, clear⟩

/-! ### Through the centre -/

/-- At the centre the port is decoded into a chiplet. -/
theorem meshHop_centre (n : ℤ) (desT : Addr) :
    meshHop n desT [n - 1, n - 1, 0, 0] =
      let t := chipletPort [n - 1, n - 1, 0, 0] desT - 1
      let next : Addr := [(t : ℤ).tdiv (n - 1), (t : ℤ).tmod (n - 1), 0, 0]
      if validAddress n 4 next then some next else none := by
  rw [meshHop_eq]
  simp [getNextAddress, linkedRouter, isCentral]

/-- A packet for another chiplet that leaves the centre lands on a clear
position, unless the network has two rows and the packet goes down. -/
theorem exists_clear_of_centre (big : 2 ≤ n)
    (target : validAddress n 4 [dx, dy, du, dv] = true)
    (other : ¬ (dx = n - 1 ∧ dy = n - 1))
    (roomy : ¬ (n = 2 ∧ dx = 1 ∧ dy = 0)) :
    ∃ x y,
      meshHop n [dx, dy, du, dv] [n - 1, n - 1, 0, 0] = some [x, y, 0, 0] ∧
        MeshClear n x y 0 0 dx dy du dv := by
  obtain ⟨dxRange, dyRange, duRange, dvRange⟩ := validAddress_four.mp target
  rw [meshHop_centre, chipletPort_four]
  by_cases row : dx = n - 1
  · subst row
    have down : dy < n - 1 := by omega
    have port :
        (if n - 1 - (n - 1) = 0 ∧ dy - (n - 1) = 0 then
          if du - 0 = 0 then (if dv - 0 < 0 then 7 else 8)
          else if du - 0 < 0 then 5 else 6
        else if (0 : ℤ) = 0 ∧ (0 : ℤ) = 0 then
          if n - 1 - (n - 1) = 0 then (if dy - (n - 1) < 0 then 3 else 4)
          else if n - 1 - (n - 1) < 0 then 1 else 2
        else if (0 : ℤ) < 0 then 5 else 7) = 3 := by
      split_ifs <;> omega
    rw [port]
    by_cases three : n = 3
    · subst three
      refine ⟨1, 0, by rfl, Or.inr ?_⟩
      omega
    · have quotient : ((2 : ℕ) : ℤ).tdiv (n - 1) = 0 := by
        exact Int.tdiv_eq_zero_of_lt (by norm_num) (by omega)
      have remainder : ((2 : ℕ) : ℤ).tmod (n - 1) = 2 := by
        exact Int.tmod_eq_of_lt (by norm_num) (by omega)
      have landing : validAddress n 4 [0, 2, 0, 0] = true :=
        validAddress_four.mpr (by omega)
      refine ⟨0, 2, ?_, Or.inr (by omega)⟩
      simp only [Nat.reduceSub, quotient, remainder, landing, if_true]
  · have port :
        (if dx - (n - 1) = 0 ∧ dy - (n - 1) = 0 then
          if du - 0 = 0 then (if dv - 0 < 0 then 7 else 8)
          else if du - 0 < 0 then 5 else 6
        else if (0 : ℤ) = 0 ∧ (0 : ℤ) = 0 then
          if dx - (n - 1) = 0 then (if dy - (n - 1) < 0 then 3 else 4)
          else if dx - (n - 1) < 0 then 1 else 2
        else if (0 : ℤ) < 0 then 5 else 7) = 1 := by
      split_ifs <;> omega
    have landing : validAddress n 4 [0, 0, 0, 0] = true :=
      validAddress_four.mpr (by omega)
    rw [port]
    refine ⟨0, 0, ?_, ?_⟩
    · simp [landing]
    · by_cases same : (0 : ℤ) = dx ∧ (0 : ℤ) = dy
      · exact Or.inl ⟨same.1, same.2, fun edge => by omega⟩
      · exact Or.inr ⟨same, by omega⟩

/-- The positions from which the ordinary route has to leave the centre for
another chiplet. -/
def ThroughCentre (n x y dx dy : ℤ) : Prop :=
  y = n - 1 ∧ (x = n - 1 ∨ dx = n - 1) ∧ ¬ (dx = n - 1 ∧ dy = n - 1)

theorem ThroughCentre.visits_centre
    (through : ThroughCentre n x y dx dy)
    (source : validAddress n 4 [x, y, u, v] = true)
    (target : validAddress n 4 [dx, dy, du, dv] = true) :
    Visits (meshHop n [dx, dy, du, dv]) [x, y, u, v]
      [n - 1, n - 1, 0, 0] := by
  apply visits_of_rank
    (fun address => ∃ x y u v, address = [x, y, u, v] ∧
      validAddress n 4 address = true ∧ ThroughCentre n x y dx dy)
    (fun address => meshRank n (coord address 0) (coord address 1)
      (coord address 2) (coord address 3) (n - 1) (n - 1) 0 0)
  · rintro address ⟨x, y, u, v, rfl, valid, edge, column, other⟩ apart
    obtain ⟨xRange, yRange, uRange, vRange⟩ := validAddress_four.mp valid
    obtain ⟨dxRange, dyRange, _, _⟩ := validAddress_four.mp target
    have different : ¬ (x = dx ∧ y = dy) := by omega
    have aside : isCentral [x, y, u, v] (n - 1) = false := by
      rw [Bool.eq_false_iff]
      intro central
      obtain ⟨rfl, rfl, rfl, rfl⟩ := isCentral_four.mp central
      exact apart rfl
    have notThere : [x, y, u, v] ≠ [dx, dy, du, dv] := by
      intro equality
      simp only [List.cons.injEq] at equality
      exact different ⟨equality.1, equality.2.1⟩
    obtain ⟨port, next, taken, move⟩ :=
      meshHop_aside valid target notThere aside
    have nextValid := hop_valid taken
    cases move with
    | inside xSame ySame _ => exact absurd ⟨xSame, ySame⟩ different
    | outbound _ core =>
        refine ⟨_, taken, ⟨_, _, _, _, rfl, nextValid, edge, column, other⟩, ?_⟩
        have closer := core.lowers
        simp only [meshRank, coord_four, ite_self]
        omega
    | @between x' y' uZero vZero chip =>
        subst uZero vZero
        -- the only chiplet hop left runs along the last row to the centre
        have along : x < n - 1 ∧ x' = x + 1 ∧ y' = y := by
          have notCentre : x ≠ n - 1 := by
            rintro rfl
            exact apart (by rw [edge])
          cases chip <;> omega
        obtain ⟨below, rfl, rfl⟩ := along
        refine ⟨_, taken, ⟨_, _, _, _, rfl, nextValid, edge, ?_, other⟩, ?_⟩
        · omega
        · simp only [coord_four]
          apply meshRank_between (.raiseFirst below)
          split_ifs <;> simp [gridDistance]
  · exact ⟨x, y, u, v, rfl, source, through⟩

/-! ### Exactly the deliverable pairs -/

/-- No packet from `src` to `des` is lost at the centre: not one for the cores
behind the centre that has to pass it, and, in a network of two rows, not one
from the upper row to chiplet `(1, 0)`. -/
def MeshRouteClear (n : ℤ) (src des : Addr) : Prop :=
  ¬ (coord des 0 = n - 1 ∧ coord des 1 = n - 1 ∧
      ¬ (coord des 2 = 0 ∧ coord des 3 = 0) ∧
      (¬ (coord src 0 = n - 1 ∧ coord src 1 = n - 1) ∨
        (coord src 3 = 0 ∧ (coord src 2 = 0 ∨ coord des 2 = 0)))) ∧
    ¬ (n = 2 ∧ coord des 0 = 1 ∧ coord des 1 = 0 ∧ coord src 1 = 1)

theorem MeshRouteClear.visits (big : 2 ≤ n)
    (source : validAddress n 4 [x, y, u, v] = true)
    (target : validAddress n 4 [dx, dy, du, dv] = true)
    (clear : MeshRouteClear n [x, y, u, v] [dx, dy, du, dv]) :
    Visits (meshHop n [dx, dy, du, dv]) [x, y, u, v] [dx, dy, du, dv] := by
  obtain ⟨xRange, yRange, uRange, vRange⟩ := validAddress_four.mp source
  obtain ⟨dxRange, dyRange, duRange, dvRange⟩ := validAddress_four.mp target
  simp only [MeshRouteClear, coord_four] at clear
  obtain ⟨behind, small⟩ := clear
  by_cases same : x = dx ∧ y = dy
  · refine MeshClear.visits (Or.inl ⟨same.1, same.2, ?_⟩) source target
    intro xEdge yEdge onRow passes
    by_contra coreApart
    exact behind ⟨by omega, by omega, coreApart, Or.inr ⟨onRow, passes⟩⟩
  · by_cases through : ThroughCentre n x y dx dy
    · obtain ⟨edge, column, other⟩ := through
      have landing : ∃ x y,
          meshHop n [dx, dy, du, dv] [n - 1, n - 1, 0, 0] =
            some [x, y, 0, 0] ∧ MeshClear n x y 0 0 dx dy du dv :=
        exists_clear_of_centre big target other (by omega)
      obtain ⟨x', y', taken, there⟩ := landing
      exact (ThroughCentre.visits_centre ⟨edge, column, other⟩ source
        target).trans
          (Visits.head taken (there.visits (hop_valid taken) target))
    · refine MeshClear.visits (Or.inr ⟨same, ?_, ?_, ?_⟩) source target
      · rintro ⟨xEdge, yEdge⟩
        refine through ⟨yEdge, Or.inl xEdge, ?_⟩
        omega
      · intro dxEdge dyEdge
        by_contra coreApart
        exact behind ⟨dxEdge, dyEdge, coreApart, Or.inl (by omega)⟩
      · intro yEdge dxEdge
        by_contra dyOff
        exact through ⟨yEdge, Or.inr dxEdge, by omega⟩

/-- A packet for a core behind the centre that has to pass the centre is
thrown off it every time. -/
theorem not_visits_behind_centre
    (target : validAddress n 4 [n - 1, n - 1, du, dv] = true)
    (core : ¬ (du = 0 ∧ dv = 0))
    (source : validAddress n 4 [x, y, u, v] = true)
    (passes : ¬ (x = n - 1 ∧ y = n - 1) ∨ (v = 0 ∧ (u = 0 ∨ du = 0))) :
    ¬ Visits (meshHop n [n - 1, n - 1, du, dv]) [x, y, u, v]
      [n - 1, n - 1, du, dv] := by
  refine not_visits_of_closed
    (fun address => ∃ x y u v, address = [x, y, u, v] ∧
      validAddress n 4 address = true ∧
      (¬ (x = n - 1 ∧ y = n - 1) ∨ (v = 0 ∧ (u = 0 ∨ du = 0))))
    ?_ ⟨x, y, u, v, rfl, source, passes⟩ ?_
  · rintro address next ⟨x, y, u, v, rfl, valid, here⟩ taken
    have nextValid := hop_valid taken
    by_cases central : isCentral [x, y, u, v] (n - 1) = true
    · obtain ⟨rfl, rfl, rfl, rfl⟩ := isCentral_four.mp central
      rw [meshHop_centre] at taken
      simp only [Option.ite_none_right_eq_some, Option.some.injEq] at taken
      exact ⟨_, _, _, _, taken.2.symm, nextValid, Or.inr ⟨rfl, Or.inl rfl⟩⟩
    · have notThere : [x, y, u, v] ≠ [n - 1, n - 1, du, dv] := by
        intro equality
        simp only [List.cons.injEq, and_true] at equality
        omega
      obtain ⟨port, moved, taken', move⟩ :=
        meshHop_aside valid target notThere (by simpa using central)
      rw [taken] at taken'
      cases taken'
      cases move with
      | inside xSame ySame inner =>
          refine ⟨_, _, _, _, rfl, nextValid, Or.inr ?_⟩
          have offCentre : ¬ (u = 0 ∧ v = 0) := by
            rintro ⟨rfl, rfl⟩
            exact central (isCentral_four.mpr ⟨xSame, ySame, rfl, rfl⟩)
          obtain ⟨_, _, uRange, _⟩ := validAddress_four.mp valid
          cases inner <;> omega
      | outbound different _ =>
          exact ⟨_, _, _, _, rfl, nextValid, Or.inl different⟩
      | between _ _ _ =>
          exact ⟨_, _, _, _, rfl, nextValid, Or.inr ⟨rfl, Or.inl rfl⟩⟩
  · rintro ⟨x', y', u', v', equality, _, outside⟩
    simp only [List.cons.injEq, and_true] at equality
    omega

/-- With two rows, port `3` of the centre decodes to no router. -/
theorem not_visits_two_rows
    (target : validAddress 2 4 [1, 0, du, dv] = true)
    (source : validAddress 2 4 [x, 1, u, v] = true) :
    ¬ Visits (meshHop 2 [1, 0, du, dv]) [x, 1, u, v] [1, 0, du, dv] := by
  refine not_visits_of_closed
    (fun address => ∃ x u v, address = [x, 1, u, v] ∧
      validAddress 2 4 address = true) ?_ ⟨x, u, v, rfl, source⟩ ?_
  · rintro address next ⟨x, u, v, rfl, valid⟩ taken
    have nextValid := hop_valid taken
    by_cases central : isCentral [x, 1, u, v] (2 - 1) = true
    · obtain ⟨rfl, _, rfl, rfl⟩ := isCentral_four.mp central
      exact absurd taken (by
        have stuck := meshHop_centre 2 [1, 0, du, dv]
        rw [chipletPort_four] at stuck
        simp [validAddress] at stuck
        simp [stuck])
    · have notThere : [x, 1, u, v] ≠ [1, 0, du, dv] := by
        intro equality
        simp at equality
      obtain ⟨port, moved, taken', move⟩ :=
        meshHop_aside valid target notThere (by simpa using central)
      rw [taken] at taken'
      cases taken'
      cases move with
      | inside _ ySame _ => exact absurd ySame (by norm_num)
      | outbound _ _ => exact ⟨_, _, _, rfl, nextValid⟩
      | @between x' y' uZero vZero chip =>
          subst uZero vZero
          obtain ⟨xRange, _⟩ := validAddress_four.mp valid
          have offCentre : x ≠ 1 := by
            rintro rfl
            exact central (by decide)
          have along : x' = x + 1 ∧ y' = 1 := by
            cases chip <;> omega
          obtain ⟨rfl, rfl⟩ := along
          exact ⟨_, _, _, rfl, nextValid⟩
  · rintro ⟨x', u', v', equality, _⟩
    simp at equality

end Mesh

/-- In mesh mode a packet is delivered exactly when its route is clear. -/
theorem mesh_delivers_iff {n : ℤ} (big : 2 ≤ n) {src des : Addr}
    (source : validAddress n 4 src = true)
    (target : validAddress n 4 des = true) :
    Visits (meshHop n des) src des ↔ MeshRouteClear n src des := by
  obtain ⟨x, y, u, v, rfl⟩ := exists_of_validAddress source
  obtain ⟨dx, dy, du, dv, rfl⟩ := exists_of_validAddress target
  constructor
  · intro delivered
    constructor
    · simp only [coord_four]
      rintro ⟨rfl, rfl, core, passes⟩
      exact not_visits_behind_centre target core source passes delivered
    · simp only [coord_four]
      rintro ⟨rfl, rfl, rfl, rfl⟩
      exact not_visits_two_rows target source delivered
  · exact MeshRouteClear.visits big source target

/-- To a core beside the centre, and to one behind it. -/
theorem mesh_delivers_across_three :
    Visits (meshHop 3 [1, 2, 1, 1]) [2, 2, 0, 1] [1, 2, 1, 1] ∧
      ¬ Visits (meshHop 3 [2, 2, 1, 1]) [0, 1, 0, 0] [2, 2, 1, 1] := by
  constructor
  · refine (mesh_delivers_iff (by norm_num) (by decide) (by decide)).mpr ?_
    unfold MeshRouteClear
    decide
  · rw [mesh_delivers_iff (by norm_num) (by decide) (by decide)]
    unfold MeshRouteClear
    decide

/-- In the mesh of three chiplets a side, a packet from `(0, 0, 0, 0)` to the
core `(2, 2, 1, 0)` never arrives. -/
theorem mesh_packet_circulates :
    ¬ Visits (meshHop 3 [2, 2, 1, 0]) [0, 0, 0, 0] [2, 2, 1, 0] :=
  not_visits_behind_centre (n := 3) (by decide) (by norm_num) (by decide)
    (Or.inl (by norm_num))

end ChipletSniper.Popnet
