import Mathlib.Data.List.Nodup
import Mathlib.Data.List.Perm.Subperm
import ChipletSniper.Mesh.HopCount

/-!
# The broadcast tree

A node that receives a broadcast packet sends it on in every direction that
leads away from the sender, and then processes it. The neighbour beyond the
border is the node at the other end, so that the packet is sent on for ever.
-/

namespace ChipletSniper.Mesh

open Library

/-- A packet in the transport; without a receiver it is a broadcast. -/
structure Message where
  receiver : Option CoreId
  core : CoreId
  deriving DecidableEq

/-- One broadcast packet: what is in flight, and the cores that processed it,
in this order. -/
structure Broadcast where
  inFlight : List Message
  processed : List CoreId

namespace EMesh

variable (mesh : EMesh) (totalCores : Nat)

/-- The hops of `routePacket` for a broadcast packet with the tree enabled. -/
def broadcastTree (sender core : CoreId) : List Message :=
  let (sx, sy) := mesh.computePosition sender
  let (cx, cy) := mesh.computePosition core
  (if sy ≤ cy then [⟨none, mesh.computeCoreId cx (cy + 1)⟩] else []) ++
    (if cy ≤ sy then [⟨none, mesh.computeCoreId cx (cy - 1)⟩] else []) ++
    if cy = sy then
      (if sx ≤ cx then [⟨none, mesh.computeCoreId (cx + 1) cy⟩] else []) ++
        (if cx ≤ sx then [⟨none, mesh.computeCoreId (cx - 1) cy⟩] else []) ++
        if cx = sx then [⟨some core, core⟩] else []
    else []

/-- `netSend` of a broadcast packet at a core. -/
def broadcastHops (sender core : CoreId) : List Message :=
  if mesh.fakeNode core then
    (List.range totalCores).map fun i => ⟨some (i : ℤ), (i : ℤ)⟩
  else
    mesh.broadcastTree sender core

/-- `netPullFromTransport` at the core that the message is for: a packet for
somebody else is sent on, and a broadcast packet is processed as well. -/
def netPullFromTransport (sender : CoreId) (message : Message) :
    List Message × List CoreId :=
  match message.receiver with
  | none =>
      (mesh.broadcastHops totalCores sender message.core, [message.core])
  | some receiver =>
      if receiver = message.core then ([], [message.core])
      else ([⟨some receiver, receiver⟩], [])

/-- A message is received. -/
def deliver (sender : CoreId) (state : Broadcast) (index : Nat) :
    Option Broadcast :=
  state.inFlight[index]?.map fun message =>
    let (sent, processed) :=
      mesh.netPullFromTransport totalCores sender message
    { inFlight := state.inFlight.eraseIdx index ++ sent
      processed := state.processed ++ processed }

/-- The messages are received in any order. -/
def deliverAll (sender : CoreId) (order : List Nat) : Option Broadcast :=
  order.foldlM (mesh.deliver totalCores sender)
    ⟨mesh.broadcastHops totalCores sender sender, []⟩

/-- There are only so many messages, and after the last one every core has
processed the packet exactly once. -/
def DeliversOnce (sender : CoreId) : Prop :=
  (∃ bound, ∀ order state,
    mesh.deliverAll totalCores sender order = some state →
      order.length ≤ bound) ∧
  ∀ order state, mesh.deliverAll totalCores sender order = some state →
    state.inFlight = [] →
      ∀ core, 0 ≤ core → core < mesh.applicationCores →
        state.processed.count core = 1

variable {mesh totalCores} {sender core : CoreId} {x y : ℤ}

/-! ## Every node sends on -/

/-- A message of the tree: a broadcast for a master of the mesh, or the packet
that a core sends itself. -/
def TreeMessage (mesh : EMesh) (message : Message) : Prop :=
  (∃ x y, mesh.Inside x y ∧ message.core = mesh.master x y) ∧
    (message.receiver = none ∨ message.receiver = some message.core)

theorem mem_broadcastTree {message : Message} {sx sy : ℤ}
    (inside : mesh.Inside x y)
    (position : mesh.computePosition sender = (sx, sy)) :
    message ∈ mesh.broadcastTree sender (mesh.master x y) ↔
      (sy ≤ y ∧ message = ⟨none, mesh.master x (ringNext mesh.height y)⟩) ∨
      (y ≤ sy ∧
        message = ⟨none, mesh.master x (ringPrevious mesh.height y)⟩) ∨
      (y = sy ∧ sx ≤ x ∧
        message = ⟨none, mesh.master (ringNext mesh.width x) y⟩) ∨
      (y = sy ∧ x ≤ sx ∧
        message = ⟨none, mesh.master (ringPrevious mesh.width x) y⟩) ∨
      (y = sy ∧ x = sx ∧
        message = ⟨some (mesh.master x y), mesh.master x y⟩) := by
  unfold broadcastTree
  rw [computePosition_master inside, position]
  dsimp only
  rw [computeCoreId_up inside, computeCoreId_down inside,
    computeCoreId_right inside, computeCoreId_left inside]
  simp only [List.mem_append, List.mem_ite_nil_right, List.mem_singleton,
    and_or_left, or_assoc]

theorem treeMessage_of_mem (inside : mesh.Inside x y) {message : Message}
    (member : message ∈ mesh.broadcastTree sender (mesh.master x y)) :
    mesh.TreeMessage message := by
  have up := ringNext_inside inside.along
  have down := ringPrevious_inside inside.along
  have right := ringNext_inside inside.across
  have left := ringPrevious_inside inside.across
  rcases position : mesh.computePosition sender with ⟨sx, sy⟩
  rcases (mem_broadcastTree inside position).mp member with
    ⟨_, rfl⟩ | ⟨_, rfl⟩ | ⟨_, _, rfl⟩ | ⟨_, _, rfl⟩ | ⟨_, _, rfl⟩
  · exact ⟨⟨_, _, ⟨inside.left, inside.right, up.1, up.2⟩, rfl⟩, .inl rfl⟩
  · exact ⟨⟨_, _, ⟨inside.left, inside.right, down.1, down.2⟩, rfl⟩, .inl rfl⟩
  · exact ⟨⟨_, _, ⟨right.1, right.2, inside.bottom, inside.top⟩, rfl⟩, .inl rfl⟩
  · exact ⟨⟨_, _, ⟨left.1, left.2, inside.bottom, inside.top⟩, rfl⟩, .inl rfl⟩
  · exact ⟨⟨x, y, inside, rfl⟩, .inr rfl⟩

/-- A node is not below the sender, or not above it. -/
theorem exists_broadcast (inside : mesh.Inside x y) :
    ∃ message ∈ mesh.broadcastTree sender (mesh.master x y),
      message.receiver = none := by
  rcases position : mesh.computePosition sender with ⟨sx, sy⟩
  rcases le_total sy y with above | below
  · exact ⟨_, (mem_broadcastTree inside position).mpr (.inl ⟨above, rfl⟩), rfl⟩
  · exact ⟨_, (mem_broadcastTree inside position).mpr
      (.inr (.inl ⟨below, rfl⟩)), rfl⟩

/-! ## Runs -/

/-- Only messages of the tree are in flight, and one of them is a
broadcast. -/
structure Spreading (mesh : EMesh) (state : Broadcast) : Prop where
  tree : ∀ message ∈ state.inFlight, mesh.TreeMessage message
  broadcast : ∃ message ∈ state.inFlight, message.receiver = none
  processed : ∀ core ∈ state.processed,
    ∃ x y, mesh.Inside x y ∧ core = mesh.master x y

theorem broadcastHops_master (inside : mesh.Inside x y) :
    mesh.broadcastHops totalCores sender (mesh.master x y) =
      mesh.broadcastTree sender (mesh.master x y) := by
  unfold broadcastHops
  rw [fakeNode_master inside, if_neg (by decide)]

theorem spreading_start (own : sender % mesh.concentration = 0)
    (source : 0 ≤ sender ∧ sender < mesh.applicationCores) :
    mesh.Spreading ⟨mesh.broadcastHops totalCores sender sender, []⟩ := by
  have inside := inside_position source.1 source.2
  rw [eq_master own, broadcastHops_master inside]
  exact ⟨fun _ => treeMessage_of_mem inside, exists_broadcast inside,
    fun _ member => by cases member⟩

theorem Spreading.deliver {state next : Broadcast} {index : Nat}
    (spreading : mesh.Spreading state)
    (delivered : mesh.deliver totalCores sender state index = some next) :
    mesh.Spreading next ∧
      next.processed.length = state.processed.length + 1 := by
  unfold EMesh.deliver at delivered
  rw [Option.map_eq_some_iff] at delivered
  obtain ⟨message, found, rfl⟩ := delivered
  have member := List.mem_of_getElem? found
  obtain ⟨⟨x, y, inside, here⟩, kind⟩ := spreading.tree message member
  have kept : ∀ other ∈ state.inFlight.eraseIdx index,
      mesh.TreeMessage other := fun other still =>
    spreading.tree other (List.mem_of_mem_eraseIdx still)
  have counted : ∀ core ∈ state.processed ++ [message.core],
      ∃ x y, mesh.Inside x y ∧ core = mesh.master x y := by
    intro core member
    rcases List.mem_append.mp member with before | now
    · exact spreading.processed core before
    · exact ⟨x, y, inside, (List.mem_singleton.mp now).trans here⟩
  rcases kind with none | own
  · have sent : mesh.netPullFromTransport totalCores sender message =
        (mesh.broadcastTree sender message.core, [message.core]) := by
      unfold netPullFromTransport
      rw [none, here, broadcastHops_master inside]
    rw [sent]
    refine ⟨⟨fun other still => ?_, ?_, counted⟩, List.length_append⟩
    · rcases List.mem_append.mp still with before | new
      · exact kept other before
      · rw [here] at new
        exact treeMessage_of_mem inside new
    · rw [here]
      obtain ⟨other, new, broadcast⟩ := exists_broadcast inside
      exact ⟨other, List.mem_append_right _ new, broadcast⟩
  · have sent : mesh.netPullFromTransport totalCores sender message =
        ([], [message.core]) := by
      unfold netPullFromTransport
      rw [own]
      exact if_pos rfl
    rw [sent]
    dsimp only
    refine ⟨⟨?_, ?_, counted⟩, List.length_append⟩
    · rw [List.append_nil]
      exact kept
    · obtain ⟨other, there, broadcast⟩ := spreading.broadcast
      refine ⟨other, ?_, broadcast⟩
      rw [List.append_nil, List.mem_eraseIdx_iff_getElem?]
      obtain ⟨place, at_place⟩ := List.mem_iff_getElem?.mp there
      refine ⟨place, fun same => ?_, at_place⟩
      rw [same, found] at at_place
      rw [← Option.some.inj at_place, own] at broadcast
      cases broadcast

theorem Spreading.run {order : List Nat} {state last : Broadcast}
    (spreading : mesh.Spreading state)
    (run : order.foldlM (mesh.deliver totalCores sender) state = some last) :
    mesh.Spreading last ∧
      last.processed.length = state.processed.length + order.length := by
  induction order generalizing state with
  | nil =>
      cases run
      exact ⟨spreading, rfl⟩
  | cons index rest ih =>
      rw [List.foldlM_cons] at run
      obtain ⟨next, delivered, later⟩ := Option.bind_eq_some_iff.mp run
      obtain ⟨kept, one⟩ := spreading.deliver delivered
      obtain ⟨spread, more⟩ := ih kept later
      refine ⟨spread, more.trans ?_⟩
      rw [one, List.length_cons]
      omega

/-- There is always a next message. -/
theorem exists_run (totalCores : Nat) (own : sender % mesh.concentration = 0)
    (source : 0 ≤ sender ∧ sender < mesh.applicationCores) (count : Nat) :
    ∃ order state, order.length = count ∧
      mesh.deliverAll totalCores sender order = some state := by
  induction count with
  | zero => exact ⟨[], _, rfl, rfl⟩
  | succ count ih =>
      obtain ⟨order, state, length, run⟩ := ih
      have spreading := (Spreading.run (spreading_start own source) run).1
      obtain ⟨message, member, -⟩ := spreading.broadcast
      obtain ⟨index, found⟩ := List.mem_iff_getElem?.mp member
      obtain ⟨next, delivered⟩ :
          ∃ next, mesh.deliver totalCores sender state index = some next := by
        unfold EMesh.deliver
        rw [found]
        exact ⟨_, rfl⟩
      refine ⟨order ++ [index], next, ?_, ?_⟩
      · rw [List.length_append, length]
        rfl
      · unfold deliverAll at run ⊢
        rw [List.foldlM_append, run]
        simp [delivered]

/-- The masters of the mesh. -/
def masters (mesh : EMesh) : List CoreId :=
  (List.range mesh.height.toNat).flatMap fun y : Nat =>
    (List.range mesh.width.toNat).map fun x : Nat => mesh.master x y

theorem length_masters :
    mesh.masters.length = mesh.height.toNat * mesh.width.toNat := by
  unfold masters
  simp [List.length_flatMap]

theorem mem_masters (inside : mesh.Inside x y) :
    mesh.master x y ∈ mesh.masters := by
  unfold masters
  rw [List.mem_flatMap]
  refine ⟨y.toNat, List.mem_range.mpr ?_, List.mem_map.mpr
    ⟨x.toNat, List.mem_range.mpr ?_, ?_⟩⟩
  · exact (Int.toNat_lt_toNat (inside.bottom.trans_lt inside.top)).mpr inside.top
  · exact (Int.toNat_lt_toNat (inside.left.trans_lt inside.right)).mpr inside.right
  · rw [Int.toNat_of_nonneg inside.left, Int.toNat_of_nonneg inside.bottom]

/-- After more messages than there are masters some core has processed the
packet twice. -/
theorem Spreading.twice {state : Broadcast} (spreading : mesh.Spreading state)
    (many : mesh.height.toNat * mesh.width.toNat < state.processed.length) :
    ∃ core, 2 ≤ state.processed.count core := by
  have repeated : ¬ state.processed.Nodup := by
    intro distinct
    have inside : state.processed ⊆ mesh.masters := fun core member => by
      obtain ⟨x, y, inside, rfl⟩ := spreading.processed core member
      exact mem_masters inside
    have few := (distinct.subperm inside).length_le
    rw [length_masters] at few
    exact absurd many (Nat.not_lt.mpr few)
  by_contra never
  refine repeated (List.nodup_iff_count_le_one.mpr fun core => ?_)
  exact Nat.le_of_lt_succ (not_le.mp fun twice => never ⟨core, twice⟩)

/-- A broadcast with the tree never comes to an end: in every run some message
is left, and after more messages than routers some core has processed the
packet again. -/
theorem broadcast_never_once (mesh : EMesh) (totalCores : Nat)
    {sender : CoreId} (own : sender % mesh.concentration = 0)
    (source : 0 ≤ sender ∧ sender < mesh.applicationCores) :
    ¬ mesh.DeliversOnce totalCores sender ∧
      ∀ order state, mesh.deliverAll totalCores sender order = some state →
        state.inFlight ≠ [] ∧
          (mesh.height.toNat * mesh.width.toNat < order.length →
            ∃ core, 2 ≤ state.processed.count core) := by
  constructor
  · rintro ⟨⟨bound, few⟩, -⟩
    obtain ⟨order, state, length, run⟩ :=
      exists_run totalCores own source (bound + 1)
    have least := few order state run
    omega
  · intro order state run
    obtain ⟨spreading, total⟩ := Spreading.run (spreading_start own source) run
    refine ⟨fun empty => ?_, fun many => spreading.twice ?_⟩
    · obtain ⟨message, member, -⟩ := spreading.broadcast
      rw [empty] at member
      cases member
    · rw [total]
      exact many.trans_le (Nat.le_add_left _ _)

/-- A mesh of two by two cores. -/
def square : EMesh where
  width := 2
  height := 2
  concentration := 1
  wrapAround := false
  width_pos := by decide
  height_pos := by decide
  concentration_pos := Int.zero_lt_one

theorem broadcast_never_once_square :
    ¬ square.DeliversOnce 4 0 :=
  (broadcast_never_once square 4 (by decide) (by decide)).1

/-- Core 2, above the sender, gets the packet from core 0 twice: once over the
link between them and once around the border. -/
theorem square_processes_twice :
    ∃ state, square.deliverAll 4 0 [0, 0] = some state ∧
      state.processed = [2, 2] :=
  ⟨_, rfl, by decide⟩

end EMesh

end ChipletSniper.Mesh
