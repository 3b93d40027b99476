import Mathlib.Tactic.Ring
import ChipletSniper.Mesh.EMesh

/-!
# The number of hops

The route of a packet is followed from master to master. In a dimension with
an odd size the route takes the longer way when the two ways differ by one.
-/

namespace ChipletSniper.Mesh

open Library

namespace EMesh

variable {mesh : EMesh} {traffic : Traffic} {x y dx dy size s d : ℤ}

/-! ## Positions -/

/-- The master of the group at a position. -/
def master (mesh : EMesh) (x y : ℤ) : CoreId :=
  (y * mesh.width + x) * mesh.concentration

/-- The position is one of the mesh. -/
structure Inside (mesh : EMesh) (x y : ℤ) : Prop where
  left : 0 ≤ x
  right : x < mesh.width
  bottom : 0 ≤ y
  top : y < mesh.height

theorem group_master (mesh : EMesh) (x y : ℤ) :
    mesh.master x y / mesh.concentration = y * mesh.width + x :=
  Int.mul_ediv_cancel _ mesh.concentration_pos.ne'

theorem computePosition_master (inside : mesh.Inside x y) :
    mesh.computePosition (mesh.master x y) = (x, y) := by
  unfold computePosition
  rw [group_master, Int.mul_add_emod_self_right,
    Int.emod_eq_of_lt inside.left inside.right, add_comm,
    Int.add_mul_ediv_right _ _ mesh.width_pos.ne',
    Int.ediv_eq_zero_of_lt inside.left inside.right, zero_add]

theorem group_lt (inside : mesh.Inside x y) :
    y * mesh.width + x < mesh.height * mesh.width := by
  have row : (y + 1) * mesh.width ≤ mesh.height * mesh.width :=
    mul_le_mul_of_nonneg_right (Int.add_one_le_iff.mpr inside.top)
      mesh.width_pos.le
  rw [add_mul, one_mul] at row
  exact (add_lt_add_right inside.right _).trans_le row

theorem master_lt (inside : mesh.Inside x y) :
    mesh.master x y < mesh.concentration * mesh.width * mesh.height := by
  rw [mul_assoc, mul_comm mesh.concentration, mul_comm mesh.width]
  exact mul_lt_mul_of_pos_right (group_lt inside) mesh.concentration_pos

theorem fakeNode_master (inside : mesh.Inside x y) :
    mesh.fakeNode (mesh.master x y) = false := by
  have own : mesh.master x y % mesh.concentration = 0 :=
    Int.mul_emod_left _ _
  simp [fakeNode, own, master_lt inside]

theorem inside_position {core : CoreId} (nonneg : 0 ≤ core)
    (below : core < mesh.applicationCores) :
    mesh.Inside (mesh.computePosition core).1 (mesh.computePosition core).2 := by
  have group : 0 ≤ core / mesh.concentration :=
    Int.ediv_nonneg nonneg mesh.concentration_pos.le
  refine ⟨Int.emod_nonneg _ mesh.width_pos.ne',
    Int.emod_lt_of_pos _ mesh.width_pos,
    Int.ediv_nonneg group mesh.width_pos.le, ?_⟩
  refine Int.ediv_lt_of_lt_mul mesh.width_pos
    (Int.ediv_lt_of_lt_mul mesh.concentration_pos ?_)
  refine below.trans_eq ?_
  unfold applicationCores
  rw [mul_assoc, mul_comm]

theorem group_eq (mesh : EMesh) (core : CoreId) :
    core / mesh.concentration =
      (mesh.computePosition core).2 * mesh.width +
        (mesh.computePosition core).1 :=
  (Int.ediv_mul_add_emod _ _).symm

theorem eq_master {core : CoreId} (own : core % mesh.concentration = 0) :
    core = mesh.master (mesh.computePosition core).1
      (mesh.computePosition core).2 := by
  unfold master
  rw [← group_eq]
  exact (Int.ediv_mul_cancel (Int.dvd_of_emod_eq_zero own)).symm

/-! ## Neighbours -/

theorem emod_stay (inside : 0 ≤ s ∧ s < size) : (s + size) % size = s := by
  rw [Int.add_emod_right, Int.emod_eq_of_lt inside.1 inside.2]

theorem emod_next (inside : 0 ≤ s ∧ s < size) :
    (s + 1 + size) % size = ringNext size s := by
  rw [Int.add_emod_right]
  unfold ringNext
  split
  next last => rw [last, Int.emod_self]
  next inner => exact Int.emod_eq_of_lt (by omega) (by omega)

theorem emod_previous (inside : 0 ≤ s ∧ s < size) :
    (s - 1 + size) % size = ringPrevious size s := by
  unfold ringPrevious
  split
  next first =>
    rw [first]
    exact (Int.emod_eq_of_lt (by omega) (by omega)).trans (by omega)
  next inner =>
    rw [Int.add_emod_right]
    exact Int.emod_eq_of_lt (by omega) (by omega)

theorem Inside.across (inside : mesh.Inside x y) : 0 ≤ x ∧ x < mesh.width :=
  ⟨inside.left, inside.right⟩

theorem Inside.along (inside : mesh.Inside x y) : 0 ≤ y ∧ y < mesh.height :=
  ⟨inside.bottom, inside.top⟩

theorem computeCoreId_left (inside : mesh.Inside x y) :
    mesh.computeCoreId (x - 1) y =
      mesh.master (ringPrevious mesh.width x) y := by
  unfold computeCoreId master
  rw [emod_previous inside.across, emod_stay inside.along]

theorem computeCoreId_right (inside : mesh.Inside x y) :
    mesh.computeCoreId (x + 1) y = mesh.master (ringNext mesh.width x) y := by
  unfold computeCoreId master
  rw [emod_next inside.across, emod_stay inside.along]

theorem computeCoreId_down (inside : mesh.Inside x y) :
    mesh.computeCoreId x (y - 1) =
      mesh.master x (ringPrevious mesh.height y) := by
  unfold computeCoreId master
  rw [emod_stay inside.across, emod_previous inside.along]

theorem computeCoreId_up (inside : mesh.Inside x y) :
    mesh.computeCoreId x (y + 1) = mesh.master x (ringNext mesh.height y) := by
  unfold computeCoreId master
  rw [emod_stay inside.across, emod_next inside.along]

/-! ## One dimension -/

/-- The next coordinate. -/
def nextCoordinate (mesh : EMesh) (size s d : ℤ) : ℤ :=
  if mesh.lowers size s d then ringPrevious size s else ringNext size s

/-- The hops that are left in one dimension. -/
def hopsLeft (mesh : EMesh) (size s d : ℤ) : Nat :=
  if mesh.wrapAround ∧ (size + 1) / 2 < |s - d| then (size - |s - d|).toNat
  else (s - d).natAbs

/-- The shorter way goes around the ring, but only by one hop. -/
def Detour (size s d : ℤ) : Prop :=
  2 * |s - d| = size + 1

instance : Decidable (Detour size s d) :=
  inferInstanceAs (Decidable (_ = _))

theorem nextCoordinate_inside (mesh : EMesh) (d : ℤ)
    (inside : 0 ≤ s ∧ s < size) :
    0 ≤ mesh.nextCoordinate size s d ∧ mesh.nextCoordinate size s d < size := by
  unfold nextCoordinate
  split
  · exact ringPrevious_inside inside
  · exact ringNext_inside inside

theorem lowers_iff :
    mesh.lowers size s d = true ↔
      if mesh.wrapAround ∧ (size + 1) / 2 < |s - d| then s ≤ d else d < s := by
  unfold lowers
  by_cases around : mesh.wrapAround = true ∧ (size + 1) / 2 < |s - d|
  · simp [around]
  · rw [if_neg around]
    simp only [not_and] at around
    by_cases wraps : mesh.wrapAround
    · simp [wraps, around wraps]
    · simp [wraps]

theorem lowers_self (positive : 0 < size) :
    mesh.lowers size d d = false := by
  rw [Bool.eq_false_iff, Ne, lowers_iff, sub_self, abs_zero, if_neg (by omega)]
  exact lt_irrefl d

theorem hopsLeft_self (positive : 0 < size) : mesh.hopsLeft size d d = 0 := by
  unfold hopsLeft
  rw [sub_self, abs_zero, if_neg (by omega)]
  rfl

theorem nextCoordinate_eq :
    mesh.nextCoordinate size s d =
      if (if mesh.wrapAround ∧ (size + 1) / 2 < |s - d| then s ≤ d
          else d < s)
      then ringPrevious size s else ringNext size s := by
  unfold nextCoordinate
  simp only [lowers_iff]

/-- Every hop is one of those that were left. -/
theorem hopsLeft_next (mesh : EMesh) (inside : 0 ≤ s ∧ s < size)
    (target : 0 ≤ d ∧ d < size) (apart : s ≠ d) :
    mesh.hopsLeft size (mesh.nextCoordinate size s d) d + 1 =
      mesh.hopsLeft size s d := by
  rw [nextCoordinate_eq]
  unfold hopsLeft ringPrevious ringNext
  simp only [Int.abs_eq_natAbs]
  by_cases wraps : mesh.wrapAround = true
  · simp only [wraps, true_and]
    split_ifs <;> omega
  · simp only [wraps, Bool.false_eq_true, false_and, if_false]
    split_ifs <;> omega

/-- The walk is one hop longer than the distance on a detour. -/
theorem hopsLeft_eq (inside : 0 ≤ s ∧ s < size)
    (target : 0 ≤ d ∧ d < size) :
    (mesh.hopsLeft size s d : ℤ) =
      (if mesh.wrapAround then min |s - d| (size - |s - d|) else |s - d|) +
        if mesh.wrapAround ∧ Detour size s d then 1 else 0 := by
  unfold hopsLeft Detour
  simp only [Int.abs_eq_natAbs]
  by_cases wraps : mesh.wrapAround = true
  · simp only [wraps, true_and, if_true]
    split_ifs <;> omega
  · simp only [wraps, Bool.false_eq_true, false_and, if_false]
    omega

/-! ## The route -/

theorem getNextDest_master (inside : mesh.Inside x y) {receiver : CoreId}
    (below : receiver < mesh.applicationCores)
    (position : mesh.computePosition receiver = (dx, dy)) :
    mesh.getNextDest (mesh.master x y) receiver =
      if x = dx ∧ y = dy then (.destination, receiver)
      else if x ≠ dx then
        (if mesh.lowers mesh.width x dx then .left else .right,
          mesh.master (mesh.nextCoordinate mesh.width x dx) y)
      else
        (if mesh.lowers mesh.height y dy then .down else .up,
          mesh.master x (mesh.nextCoordinate mesh.height y dy)) := by
  have target : receiver / mesh.concentration = dy * mesh.width + dx := by
    rw [group_eq, position]
  have here : y * mesh.width + x = dy * mesh.width + dx ↔ x = dx ∧ y = dy := by
    constructor
    · intro same
      have positions : mesh.computePosition (mesh.master x y) = (dx, dy) := by
        unfold computePosition
        rw [group_master, same, ← target]
        exact position
      rw [computePosition_master inside] at positions
      exact Prod.mk.inj positions
    · rintro ⟨rfl, rfl⟩
      rfl
  unfold getNextDest
  rw [if_neg (not_le.mpr below), group_master, target]
  by_cases arrived : x = dx ∧ y = dy
  · rw [if_pos (here.mpr arrived), if_pos arrived]
  rw [if_neg (mt here.mp arrived), if_neg arrived, fakeNode_master inside,
    computePosition_master inside, position, if_neg (by decide)]
  unfold nextCoordinate
  dsimp only
  by_cases across : x = dx
  · subst across
    have along : y ≠ dy := fun same => arrived ⟨rfl, same⟩
    rw [lowers_self mesh.width_pos, if_neg (by decide), if_neg (not_not.mpr rfl),
      if_neg (not_not.mpr rfl), if_pos along, computeCoreId_down inside,
      computeCoreId_up inside]
    split <;> rfl
  · rw [if_pos across, if_pos across, computeCoreId_left inside,
      computeCoreId_right inside]
    split <;> rfl

/-- A packet on its way: at its receiver, or at a master with hops left. -/
structure OnWay (mesh : EMesh) (traffic : Traffic) (receiver : CoreId)
    (total startTime : Nat) (packet : Packet) : Prop where
  place : (packet.core = receiver ∧ packet.links = total) ∨
    ∃ x y, mesh.Inside x y ∧ packet.core = mesh.master x y ∧
      packet.links +
        (mesh.hopsLeft mesh.width x (mesh.computePosition receiver).1 +
          mesh.hopsLeft mesh.height y (mesh.computePosition receiver).2) =
        total
  time : packet.time =
    startTime + packet.links * traffic.hopLatency + packet.queueDelay

variable {sender receiver : CoreId} {total startTime : Nat} {packet : Packet}

/-- A hop over a link. -/
theorem OnWay.link {next : CoreId} {direction : OutputDirection}
    (isLink : direction.isLink = true) (core : CoreId)
    (time : packet.time =
      startTime + packet.links * traffic.hopLatency + packet.queueDelay)
    (inside : mesh.Inside x y) (here : next = mesh.master x y)
    (left : packet.links + 1 +
      (mesh.hopsLeft mesh.width x (mesh.computePosition receiver).1 +
        mesh.hopsLeft mesh.height y (mesh.computePosition receiver).2) =
      total) :
    mesh.OnWay traffic receiver total startTime
        (addHop traffic core (direction, next) packet) ∧
      (addHop traffic core (direction, next) packet).links =
        packet.links + 1 := by
  unfold addHop
  rw [if_pos isLink]
  refine ⟨⟨.inr ⟨x, y, inside, here, left⟩, ?_⟩, rfl⟩
  dsimp only
  rw [time, Nat.succ_mul]
  omega

/-- A hop of the route arrives, or takes a link. -/
theorem OnWay.addHop_next (packet : Packet) (inside : mesh.Inside x y)
    (target : 0 ≤ receiver ∧ receiver < mesh.applicationCores)
    (here : packet.core = mesh.master x y)
    (time : packet.time =
      startTime + packet.links * traffic.hopLatency + packet.queueDelay)
    (left : packet.links +
      (mesh.hopsLeft mesh.width x (mesh.computePosition receiver).1 +
        mesh.hopsLeft mesh.height y (mesh.computePosition receiver).2) =
      total) :
    let next := addHop traffic packet.core
      (mesh.getNextDest packet.core receiver) packet
    mesh.OnWay traffic receiver total startTime next ∧
      (next.core = receiver ∧ next.links = packet.links ∨
        next.links = packet.links + 1) := by
  have there := inside_position target.1 target.2
  rcases position : mesh.computePosition receiver with ⟨dx, dy⟩
  rw [position] at there left
  dsimp only at there left ⊢
  rw [here, getNextDest_master inside target.2 position]
  split
  next arrived =>
    obtain ⟨rfl, rfl⟩ := arrived
    rw [hopsLeft_self mesh.width_pos, hopsLeft_self mesh.height_pos] at left
    exact ⟨⟨.inl ⟨rfl, left⟩, time⟩, .inl ⟨rfl, rfl⟩⟩
  split
  next apart =>
    have moved := hopsLeft_next mesh inside.across there.across apart
    obtain ⟨first, last⟩ := nextCoordinate_inside mesh dx inside.across
    refine (OnWay.link ?_ (mesh.master x y) time
      ⟨first, last, inside.bottom, inside.top⟩ rfl ?_).imp id .inr
    · split <;> rfl
    · rw [position]
      dsimp only
      omega
  next level =>
    rename_i elsewhere
    obtain rfl := not_not.mp level
    have apart : y ≠ dy := fun same => elsewhere ⟨rfl, same⟩
    have moved := hopsLeft_next mesh inside.along there.along apart
    obtain ⟨first, last⟩ := nextCoordinate_inside mesh dy inside.along
    refine (OnWay.link ?_ (mesh.master x y) time
      ⟨inside.left, inside.right, first, last⟩ rfl ?_).imp id .inr
    · split <;> rfl
    · rw [position]
      dsimp only
      omega

/-- `routePacket` at a master. -/
theorem OnWay.route (inside : mesh.Inside x y)
    (target : 0 ≤ receiver ∧ receiver < mesh.applicationCores)
    (here : packet.core = mesh.master x y)
    (time : packet.time =
      startTime + packet.links * traffic.hopLatency + packet.queueDelay)
    (left : packet.links +
      (mesh.hopsLeft mesh.width x (mesh.computePosition receiver).1 +
        mesh.hopsLeft mesh.height y (mesh.computePosition receiver).2) =
      total) :
    let next := mesh.routePacket traffic sender receiver packet
    mesh.OnWay traffic receiver total startTime next ∧
      (next.core = receiver ∧ next.links = packet.links ∨
        next.links = packet.links + 1) := by
  unfold routePacket
  rw [here, fakeNode_master inside, if_neg (by decide), ← here]
  refine OnWay.addHop_next
    { packet with
      time := packet.time + _
      queueDelay := packet.queueDelay + _ } inside target here ?_ left
  dsimp only
  rw [time, Nat.add_assoc]

/-- What is left of the route: every link, and the last hop. -/
def remaining (total : Nat) (receiver : CoreId) (packet : Packet) : Nat :=
  2 * (total - packet.links) + if packet.core = receiver then 0 else 1

theorem OnWay.links_le
    (way : mesh.OnWay traffic receiver total startTime packet) :
    packet.links ≤ total := by
  obtain ⟨-, same⟩ | ⟨x, y, -, -, left⟩ := way.place
  · exact same.le
  · omega

theorem OnWay.forward
    (target : 0 ≤ receiver ∧ receiver < mesh.applicationCores)
    (way : mesh.OnWay traffic receiver total startTime packet)
    (apart : packet.core ≠ receiver) :
    ∃ next, mesh.forward traffic sender receiver packet = some next ∧
      mesh.OnWay traffic receiver total startTime next ∧
      remaining total receiver next < remaining total receiver packet := by
  obtain ⟨arrived, -⟩ | ⟨x, y, inside, here, left⟩ := way.place
  · exact absurd arrived apart
  obtain ⟨nextWay, moved⟩ := OnWay.route inside target here way.time left
  refine ⟨_, if_neg apart, nextWay, ?_⟩
  have bound := nextWay.links_le
  unfold remaining
  rw [if_neg apart]
  obtain ⟨arrived, same⟩ | more := moved
  · rw [if_pos arrived, same]
    exact Nat.lt_succ_self _
  · split <;> omega

/-- The route ends at the receiver, after all the hops that were left. -/
theorem exists_route (own : sender % mesh.concentration = 0)
    (source : 0 ≤ sender ∧ sender < mesh.applicationCores)
    (target : 0 ≤ receiver ∧ receiver < mesh.applicationCores)
    (startTime : Nat) :
    ∃ count packet,
      after (mesh.forward traffic sender receiver) count
        (mesh.netSend traffic sender receiver startTime) = some packet ∧
      packet.core = receiver ∧
      packet.links =
        mesh.hopsLeft mesh.width (mesh.computePosition sender).1
            (mesh.computePosition receiver).1 +
          mesh.hopsLeft mesh.height (mesh.computePosition sender).2
            (mesh.computePosition receiver).2 ∧
      packet.time =
        startTime + packet.links * traffic.hopLatency + packet.queueDelay := by
  have first : mesh.OnWay traffic receiver
      (mesh.hopsLeft mesh.width (mesh.computePosition sender).1
          (mesh.computePosition receiver).1 +
        mesh.hopsLeft mesh.height (mesh.computePosition sender).2
          (mesh.computePosition receiver).2) startTime
      (mesh.netSend traffic sender receiver startTime) :=
    (OnWay.route (inside_position source.1 source.2) target (eq_master own)
      (by simp) (Nat.zero_add _)).1
  obtain ⟨count, packet, reached, way, arrived⟩ :=
    exists_after_of_rank (mesh.OnWay traffic receiver _ startTime)
      (fun packet => packet.core = receiver) (remaining _ receiver)
      (fun packet way apart => way.forward target apart) _ first
  refine ⟨count, packet, reached, arrived, ?_, way.time⟩
  obtain ⟨-, same⟩ | ⟨x, y, inside, here, left⟩ := way.place
  · exact same
  · have position := computePosition_master inside
    rw [← here, arrived] at position
    rw [position, hopsLeft_self mesh.width_pos,
      hopsLeft_self mesh.height_pos] at left
    rw [position]
    exact left

/-- The packet takes as many links as the modelled distance, and only what it
waited counts as contention. -/
def Direct (mesh : EMesh) (traffic : Traffic) (sender receiver : CoreId)
    (startTime : Nat) : Prop :=
  ∃ count packet,
    after (mesh.forward traffic sender receiver) count
      (mesh.netSend traffic sender receiver startTime) = some packet ∧
    packet.core = receiver ∧
    (packet.links : ℤ) = mesh.computeDistance sender receiver ∧
    (mesh.processReceivedPacket traffic sender startTime packet).1 =
      (mesh.processReceivedPacket traffic sender startTime packet).2

/-- A dimension in which the route is longer than the distance. -/
def detour (mesh : EMesh) (size s d : ℤ) : ℤ :=
  if mesh.wrapAround ∧ Detour size s d then 1 else 0

theorem hops_eq (source : 0 ≤ sender ∧ sender < mesh.applicationCores)
    (target : 0 ≤ receiver ∧ receiver < mesh.applicationCores) :
    ((mesh.hopsLeft mesh.width (mesh.computePosition sender).1
          (mesh.computePosition receiver).1 +
        mesh.hopsLeft mesh.height (mesh.computePosition sender).2
          (mesh.computePosition receiver).2 : Nat) : ℤ) =
      mesh.computeDistance sender receiver +
        (mesh.detour mesh.width (mesh.computePosition sender).1
            (mesh.computePosition receiver).1 +
          mesh.detour mesh.height (mesh.computePosition sender).2
            (mesh.computePosition receiver).2) := by
  have here := inside_position source.1 source.2
  have there := inside_position target.1 target.2
  rw [Nat.cast_add, hopsLeft_eq here.across there.across,
    hopsLeft_eq here.along there.along]
  unfold computeDistance detour
  dsimp only
  split <;> ring

/-- The route of a packet from a master is as long as the distance if and only
if it takes no detour around an odd ring. -/
theorem direct_iff (mesh : EMesh) (traffic : Traffic)
    {sender receiver : CoreId} (own : sender % mesh.concentration = 0)
    (source : 0 ≤ sender ∧ sender < mesh.applicationCores)
    (target : 0 ≤ receiver ∧ receiver < mesh.applicationCores)
    (startTime : Nat) :
    mesh.Direct traffic sender receiver startTime ↔
      (mesh.wrapAround = true →
        ¬ Detour mesh.width (mesh.computePosition sender).1
            (mesh.computePosition receiver).1 ∧
          ¬ Detour mesh.height (mesh.computePosition sender).2
            (mesh.computePosition receiver).2) := by
  obtain ⟨count, packet, reached, arrived, links, time⟩ :=
    @exists_route mesh traffic sender receiver own source target startTime
  have total := hops_eq source target
  rw [← links] at total
  unfold detour at total
  constructor
  · intro ⟨count', packet', reached', arrived', same, _⟩ wraps
    obtain rfl : packet = packet' :=
      after_unique (if_pos arrived) (if_pos arrived') reached reached'
    rw [same] at total
    simp only [wraps, true_and] at total
    constructor
    · intro around
      rw [if_pos around] at total
      split at total <;> omega
    · intro around
      rw [if_pos around] at total
      split at total <;> omega
  · intro straight
    have same : (packet.links : ℤ) = mesh.computeDistance sender receiver := by
      rw [total, if_neg fun around => (straight around.1).1 around.2,
        if_neg fun around => (straight around.1).2 around.2]
      ring
    refine ⟨count, packet, reached, arrived, same, ?_⟩
    unfold processReceivedPacket
    dsimp only
    rw [arrived, ← same, time]
    push_cast
    ring

/-- A ring of three cores. -/
def triangle : EMesh where
  width := 3
  height := 1
  concentration := 1
  wrapAround := true
  width_pos := by decide
  height_pos := by decide
  concentration_pos := by decide

/-- Two cycles for a hop, and no waiting. -/
def unloaded : Traffic where
  hopLatency := 2
  linkDelay _ _ _ := 0
  injectionDelay _ := 0
  ejectionDelay _ := 0

theorem direct_iff_triangle : triangle.Direct unloaded 0 1 0 :=
  (direct_iff triangle unloaded (by decide) (by decide) (by decide) 0).mpr
    (by decide)

/-- From core 0 to core 2 the packet takes two links, while the distance is
one: the link latency of the second counts as contention. -/
theorem triangle_detour : ¬ triangle.Direct unloaded 0 2 0 := by
  intro ⟨count, packet, reached, arrived, same, _⟩
  have known : after (triangle.forward unloaded 0 2) 1
      (triangle.netSend unloaded 0 2 0) = some ⟨2, 4, 0, 2⟩ := rfl
  have unique : packet = ⟨2, 4, 0, 2⟩ :=
    after_unique (if_pos arrived) (if_pos rfl) reached known
  rw [unique] at same
  exact absurd same (by decide)

end EMesh

end ChipletSniper.Mesh
