import ChipletSniper.Popnet.Dependency

/-!
# Links of the star

An output port and the input port behind it form a link if the input port
returns its credits to that output port.  The maps of the source answer both
questions by the same function, so a link is an orbit of length two.  Every
port that a packet between leaf chiplets takes is one end of a link.
-/

namespace ChipletSniper.Popnet

section Links

variable (n : ℤ)

/-- The port at the other end. -/
def linked (channel : Channel) : Channel :=
  (linkedRouter n channel.1 channel.2, linkedPort n channel.1 channel.2)

/-- The other end leads back. -/
def Proper (channel : Channel) : Prop :=
  linked n (linked n channel) = channel

instance (channel : Channel) : Decidable (Proper n channel) := by
  unfold Proper
  infer_instance

/-- The input port that an output port leads to returns its credits there. -/
def CreditsReturn (address : Addr) (p : Nat) : Prop :=
  getFromRouter n (getNextAddress n address p) (getWirePc n address p) =
      address ∧
    getFromPort n (getNextAddress n address p) (getWirePc n address p) = p

instance (address : Addr) (p : Nat) :
    Decidable (CreditsReturn n address p) := by
  unfold CreditsReturn
  infer_instance

/-- The port is one end of a link between routers. -/
def IsLink (channel : Channel) : Prop :=
  Proper n channel ∧ linkedPort n channel.1 channel.2 ≠ 0

instance (channel : Channel) : Decidable (IsLink n channel) := by
  unfold IsLink
  infer_instance

/-- A router of a leaf chiplet or the centre. -/
def OnRoute (address : Addr) : Prop :=
  LeafAddress n address ∨ address = [n - 1, n - 1, 0, 0]

variable {n}

theorem Proper.linked {channel : Channel} (proper : Proper n channel) :
    Proper n (linked n channel) := by
  unfold Proper
  rw [proper]

/-- No link ends at port `0`. -/
theorem Proper.linkedPort_ne_zero {address : Addr} {port : Nat}
    (proper : Proper n (address, port)) (outer : 1 ≤ port) :
    linkedPort n address port ≠ 0 := by
  intro zero
  have back : linkedRouter n (linkedRouter n address port)
      (linkedPort n address port) = address :=
    congrArg Prod.fst proper
  have centre : isCentral [n - 1, n - 1, 0, 0] (n - 1) = true :=
    isCentral_four.mpr ⟨rfl, rfl, rfl, rfl⟩
  by_cases central : isCentral address (n - 1) = true
  · simp [linkedPort, central] at zero
  · by_cases isCentre : port = 2 * address.length + 1
    · have toCentre : linkedRouter n address port =
          [n - 1, n - 1, 0, 0] := by
        simp [linkedRouter, central, isCentre]
      rw [zero, toCentre] at back
      simp only [linkedRouter, centre, if_true, Nat.zero_sub, Nat.cast_zero,
        Int.zero_tdiv, Int.zero_tmod] at back
      rw [← back] at zero isCentre central
      simp [linkedPort, central, isCentre] at zero
    · simp only [linkedPort, central, isCentre, if_false] at zero
      split_ifs at zero <;> omega

theorem isLink_of_creditsReturn {address : Addr} {p : Nat} (outer : 1 ≤ p)
    (returns : CreditsReturn n address p) : IsLink n (address, p) := by
  obtain ⟨back, backPort⟩ := returns
  have proper : Proper n (address, p) := Prod.ext back backPort
  exact ⟨proper, proper.linkedPort_ne_zero outer⟩

/-- The rings stay inside the network. -/
theorem validAddress_ringNeighbour {address : Addr}
    (valid : validAddress n 4 address = true) (t : Nat) :
    validAddress n 4 (ringNeighbour n address t) = true := by
  obtain ⟨x, y, u, v, rfl⟩ := exists_of_validAddress valid
  obtain ⟨xRange, yRange, uRange, vRange⟩ := validAddress_four.mp valid
  unfold ringNeighbour
  dsimp only
  have raised : ∀ z : ℤ, 0 ≤ z ∧ z < n →
      0 ≤ (if z + 1 = n then 0 else z + 1) ∧
        (if z + 1 = n then 0 else z + 1) < n := by
    intro z inside
    split <;> omega
  have lowered : ∀ z : ℤ, 0 ≤ z ∧ z < n →
      0 ≤ (if z - 1 = -1 then n - 1 else z - 1) ∧
        (if z - 1 = -1 then n - 1 else z - 1) < n := by
    intro z inside
    split <;> omega
  match t / 2 with
  | 0 =>
      split <;> refine validAddress_four.mpr ⟨?_, yRange, uRange, vRange⟩
      · exact raised x xRange
      · exact lowered x xRange
  | 1 =>
      split <;> refine validAddress_four.mpr ⟨xRange, ?_, uRange, vRange⟩
      · exact raised y yRange
      · exact lowered y yRange
  | 2 =>
      split <;> refine validAddress_four.mpr ⟨xRange, yRange, ?_, vRange⟩
      · exact raised u uRange
      · exact lowered u uRange
  | 3 =>
      split <;> refine validAddress_four.mpr ⟨xRange, yRange, uRange, ?_⟩
      · exact raised v vRange
      · exact lowered v vRange
  | _ + 4 => split <;> exact valid

variable {x y u v tu tv : ℤ}

/-- The way back of a move inside a leaf chiplet. -/
private theorem linked_core {port : Nat} {u' v' : ℤ}
    (range : (0 ≤ u ∧ u < n) ∧ (0 ≤ v ∧ v < n))
    (aside : ∀ u v, isCentral [x, y, u, v] (n - 1) = false)
    (move : XYMove 5 u v tu tv port u' v') :
    linkedRouter n [x, y, u', v'] (linkedPort n [x, y, u, v] port) =
        [x, y, u, v] ∧
      linkedPort n [x, y, u', v'] (linkedPort n [x, y, u, v] port) = port ∧
      linkedPort n [x, y, u, v] port ≠ 0 := by
  cases move <;>
    simp [linkedPort, linkedRouter, aside, ringNeighbour, coord] <;> omega

/-- A port that a packet for a leaf chiplet takes is one end of a link. -/
theorem star_link (big : 2 ≤ n) {address des : Addr}
    (route : OnRoute n address) (leaf : LeafAddress n des)
    (apart : address ≠ des) :
    Proper n (address, chipletStarPort n address des) ∧
      OnRoute n (linkedRouter n address (chipletStarPort n address des)) ∧
      linkedPort n address (chipletStarPort n address des) ≠ 0 := by
  obtain ⟨desValid, desX, desY⟩ := leaf
  obtain ⟨dx, dy, du, dv, rfl⟩ := exists_of_validAddress desValid
  obtain ⟨dxRange, dyRange, duRange, dvRange⟩ := validAddress_four.mp desValid
  simp only [coord_four] at desX desY
  have edge : ∀ {x y : ℤ}, x < n - 1 →
      ∀ u v, isCentral [x, y, u, v] (n - 1) = false := by
    intro x y below u v
    rw [Bool.eq_false_iff]
    intro central
    have equal := (isCentral_four.mp central).1
    omega
  have centre : isCentral [n - 1, n - 1, 0, 0] (n - 1) = true :=
    isCentral_four.mpr ⟨rfl, rfl, rfl, rfl⟩
  rcases route with ⟨valid, below⟩ | rfl
  · obtain ⟨x, y, u, v, rfl⟩ := exists_of_validAddress valid
    obtain ⟨xRange, yRange, uRange, vRange⟩ := validAddress_four.mp valid
    simp only [coord_four] at below
    obtain ⟨port, next, chosen, behind, move⟩ :=
      chipletStarPort_move valid desValid apart (edge below.1 u v)
    have behind : linkedRouter n [x, y, u, v] port = next := behind
    rw [chosen]
    unfold Proper linked
    simp only [behind, Prod.mk.injEq]
    cases move with
    | @inside _ u' v' _ _ core =>
        obtain ⟨uNext, vNext⟩ :=
          core.inside ⟨uRange, vRange⟩ ⟨duRange, dvRange⟩
        obtain ⟨back, backPort, outer⟩ :=
          linked_core ⟨uRange, vRange⟩ (edge below.1) core
        refine ⟨⟨back, backPort⟩, Or.inl ⟨?_, ?_⟩, outer⟩
        · exact validAddress_four.mpr ⟨xRange, yRange, uNext, vNext⟩
        · simpa using below
    | @outbound _ u' v' _ core =>
        obtain ⟨uNext, vNext⟩ :=
          core.inside ⟨uRange, vRange⟩ (by omega : (_ ∧ _) ∧ (_ ∧ _))
        obtain ⟨back, backPort, outer⟩ :=
          linked_core ⟨uRange, vRange⟩ (edge below.1) core
        refine ⟨⟨back, backPort⟩, Or.inl ⟨?_, ?_⟩, outer⟩
        · exact validAddress_four.mpr ⟨xRange, yRange, uNext, vNext⟩
        · simpa using below
    | toCentre _ uZero vZero =>
        have product : 0 ≤ x * (n - 1) := mul_nonneg xRange.1 (by omega)
        have port : linkedPort n [x, y, u, v] 9 =
            (x * (n - 1) + y + 1).toNat := by
          simp [linkedPort, edge below.1]
        rw [port, linkedRouter_centre xRange.1 ⟨yRange.1, below.2⟩, uZero,
          vZero]
        refine ⟨⟨rfl, ?_⟩, Or.inr rfl, by omega⟩
        simp [linkedPort, centre]
  · have product : 0 ≤ dx * (n - 1) := mul_nonneg dxRange.1 (by omega)
    have port : linkedPort n [n - 1, n - 1, 0, 0]
        (dx * (n - 1) + dy + 1).toNat = 9 := by
      simp [linkedPort, centre]
    rw [chipletStarPort_centre]
    unfold Proper linked
    simp only [port, linkedRouter_centre dxRange.1 ⟨dyRange.1, desY⟩,
      Prod.mk.injEq]
    refine ⟨⟨?_, ?_⟩, Or.inl ⟨?_, ?_⟩, by omega⟩
    · simp [linkedRouter, edge desX]
    · simp [linkedPort, edge desX]
    · exact validAddress_four.mpr (by omega)
    · simp only [coord_four]
      exact ⟨desX, desY⟩

end Links

end ChipletSniper.Popnet
