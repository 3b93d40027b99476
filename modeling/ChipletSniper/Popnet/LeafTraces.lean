import ChipletSniper.Popnet.NetworkMoves

/-!
# Traces between leaf chiplets

A packet from one leaf chiplet of the star to another stays on the routers of
leaf chiplets and the centre, and takes links only.
-/

namespace ChipletSniper.Popnet

open Library Relation Function

variable {Time : Type}

/-- Every local trace file has records of its own router only, from leaf
chiplet to leaf chiplet. -/
def LeafFiles (n : ℤ) (files : Addr → List (Record Time)) : Prop :=
  ∀ address, ∀ record ∈ files address,
    record.sorAddr = address ∧ LeafAddress n record.sorAddr ∧
      LeafAddress n record.desAddr

/-- Where the packets of such a trace are. -/
structure LeafInv (config : Config) (sim : Sim Time) : Prop where
  pending : ∀ address, ∀ record ∈ (sim.network address).pending,
    LeafAddress config.arySize address ∧
      LeafAddress config.arySize record.desAddr
  arrived : ∀ address vc, ∀ flit ∈ (sim.network address).arrivals vc,
    OnRoute config.arySize address ∧
      LeafAddress config.arySize flit.desAddr
  passed : ∀ address out, ∀ flit ∈ (sim.network address).passedTo out,
    OnRoute config.arySize (linkedRouter config.arySize address out.1) ∧
      LeafAddress config.arySize flit.desAddr

section Links

variable {config : Config} {sim next : Sim Time}

/-- One router changes. -/
theorem LeafInv.of_update (inv : LeafInv config sim) {address : Addr}
    {router : Router Time}
    (network : next.network = update sim.network address router)
    (pending : ∀ record ∈ router.pending,
      record ∈ (sim.network address).pending)
    (arrived : ∀ vc, ∀ flit ∈ router.arrivals vc,
      flit ∈ (sim.network address).arrivals vc ∨
        OnRoute config.arySize address ∧
          LeafAddress config.arySize flit.desAddr)
    (passed : ∀ out, ∀ flit ∈ router.passedTo out,
      flit ∈ (sim.network address).passedTo out ∨
        OnRoute config.arySize (linkedRouter config.arySize address out.1) ∧
          LeafAddress config.arySize flit.desAddr) :
    LeafInv config next := by
  refine ⟨?_, ?_, ?_⟩
  · intro other record member
    rw [network] at member
    by_cases same : other = address
    · rw [same, update_self] at member
      rw [same]
      exact inv.pending address record (pending record member)
    · rw [update_of_ne same] at member
      exact inv.pending other record member
  · intro other vc flit member
    rw [network] at member
    by_cases same : other = address
    · rw [same, update_self] at member
      rw [same]
      exact (arrived vc flit member).elim (inv.arrived address vc flit) id
    · rw [update_of_ne same] at member
      exact inv.arrived other vc flit member
  · intro other out flit member
    rw [network] at member
    by_cases same : other = address
    · rw [same, update_self] at member
      rw [same]
      exact (passed out flit member).elim (inv.passed address out flit) id
    · rw [update_of_ne same] at member
      exact inv.passed other out flit member

/-- A router reads a record. -/
theorem LeafInv.readRecord (inv : LeafInv config sim) {address : Addr}
    {held : Option VC} {record : Record Time} {rest : List (Record Time)}
    (network : next.network = update sim.network address
      (readRecord config held (sim.network address) record rest))
    (pending : (sim.network address).pending = record :: rest) :
    LeafInv config next := by
  obtain ⟨fromLeaf, toLeaf⟩ :=
    inv.pending address record (by rw [pending]; exact List.mem_cons_self)
  refine inv.of_update network ?_ ?_ ?_
  · intro other member
    rw [readRecord_same.2.2.2] at member
    rw [pending]
    exact List.mem_cons_of_mem _ member
  · intro vc flit member
    rw [readRecord_arrivals, List.mem_append] at member
    refine member.imp_right ?_
    intro new
    split at new
    · rw [desAddr_of_recordFlits new]
      exact ⟨Or.inl fromLeaf, toLeaf⟩
    · cases new
  · intro out flit member
    rw [readRecord_passedTo] at member
    exact Or.inl member

end Links

section Moves

variable [LinearOrder Time] {config : Config} {clock : Clock Time}
variable {sim next : Sim Time} {address : Addr}

/-- The candidates of the star algorithm share one port. -/
theorem port_of_currAlgorithm (star : StarConfig config) {des : Addr}
    {out : VC}
    (candidate : out ∈ currAlgorithm config.arySize address des
      config.routingAlg) :
    out.1 = chipletStarPort config.arySize address des := by
  rw [star.routingAlg] at candidate
  simp only [currAlgorithm, chipletStarTopoRoutingAlg,
    addRoutingForDifferentVC, List.mem_cons, List.not_mem_nil,
    or_false] at candidate
  rcases candidate with rfl | rfl <;> rfl

/-- The output that a leaf packet is sent to is one end of a link. -/
theorem LeafInv.link_of_send (inv : LeafInv config sim)
    (star : StarConfig config) (netInv : NetInv config clock sim)
    {vc out : VC} {flit : Flit Time} {rest : List (Flit Time)}
    (state : ((sim.network address).input vc).state = .swTr)
    (crouting : ((sim.network address).input vc).crouting = some out)
    (buffered : ((sim.network address).input vc).buffer = flit :: rest) :
    Proper config.arySize (address, out.1) ∧
      OnRoute config.arySize (linkedRouter config.arySize address out.1) ∧
      LeafAddress config.arySize flit.desAddr := by
  have big : (2 : ℤ) ≤ config.arySize := by exact_mod_cast star.arySize.1
  have ok := (netInv.router address).channel vc
  have arrived : flit ∈ (sim.network address).arrivals vc := by
    rw [ok.history, buffered]
    exact List.mem_append_right _ List.mem_cons_self
  obtain ⟨route, leaf⟩ := inv.arrived address vc flit arrived
  obtain ⟨_, target, isHeld⟩ := ok.of_active (Or.inr state)
  have holds := ok.holds target isHeld
  rw [holds.crouting, Option.some.injEq] at crouting
  obtain ⟨current, isCurrent, sameTarget⟩ := ok.current_head buffered
  obtain ⟨apart, candidate⟩ := holds.routed current isCurrent
  rw [netInv.address, sameTarget] at apart candidate
  have port := port_of_currAlgorithm star candidate
  obtain ⟨proper, nextRoute, _⟩ := star_link big route leaf apart
  rw [← port, crouting] at proper nextRoute
  exact ⟨proper, nextRoute, leaf⟩

/-- A router makes a move. -/
theorem LeafInv.work (inv : LeafInv config sim) (star : StarConfig config)
    (netInv : NetInv config clock sim) {after : Work Time}
    (move : Move config clock sim.currentTime (sim.work address) after) :
    LeafInv config (sim.absorb address after) := by
  have network : (sim.absorb address after).network =
      update sim.network address after.router := rfl
  have itself : (sim.work address).router = sim.network address := rfl
  cases (move.effect rfl).2 with
  | quiet same _ =>
      refine inv.of_update network ?_ ?_ ?_
      · rw [same.pending]
        exact fun _ member => member
      · intro vc flit member
        rw [same.arrivals] at member
        exact Or.inl member
      · intro out flit member
        rw [same.passedTo] at member
        exact Or.inl member
  | send vc out flit rest state crouting buffered result _ =>
      obtain ⟨_, route, leaf⟩ :=
        inv.link_of_send star netInv state crouting buffered
      rw [result] at network
      refine inv.of_update network ?_ ?_ ?_
      · rw [afterSend_pending]
        exact fun _ member => member
      · intro other earlier member
        rw [afterSend_arrivals] at member
        exact Or.inl member
      · intro target earlier member
        rw [afterSend_passedTo, List.mem_append] at member
        refine member.imp_right ?_
        intro new
        split at new
        case isFalse => cases new
        case isTrue isOut =>
          rw [List.mem_singleton] at new
          rw [new, isOut]
          exact ⟨route, leaf⟩
  | traverse i flit outadd rest _ result _ =>
      rw [result] at network
      exact inv.of_update network (fun _ member => member)
        (fun _ _ member => Or.inl member) (fun _ _ member => Or.inl member)
  | read held record rest pending result _ =>
      rw [result] at network
      exact inv.readRecord network pending

/-- A leaf packet arrives. -/
theorem LeafInv.arrive (inv : LeafInv config sim)
    (netInv : NetInv config clock sim) {time : Time} {src : Addr}
    {pc v : Nat} {flit : Flit Time} {rest : List (Event Time)}
    (queue : sim.queue = ⟨time, .wire src address pc v flit⟩ :: rest)
    (network : next.network = update sim.network address
      (receiveFlit (sim.network address) (pc, v) flit)) :
    LeafInv config next := by
  obtain ⟨proper, outer, _⟩ :=
    netInv.links.flying ⟨time, .wire src address pc v flit⟩
      (by rw [queue]; exact List.mem_cons_self) src address pc v flit rfl
  have sent : flit ∈ sim.passedOver config.arySize address (pc, v) := by
    rw [netInv.links.fifo address (pc, v) outer proper]
    refine List.mem_append_left _ (List.mem_append_right _ ?_)
    unfold Sim.wires
    rw [queue]
    refine List.mem_filterMap.mpr ⟨_, List.mem_cons_self, ?_⟩
    simp [Event.wireTo]
  obtain ⟨route, leaf⟩ := inv.passed _ _ flit sent
  have back : linkedRouter config.arySize
      (linkedRouter config.arySize address pc)
      (linkedPort config.arySize address pc) = address :=
    congrArg Prod.fst proper
  rw [back] at route
  refine inv.of_update network (fun _ member => member) ?_ ?_
  · intro other earlier member
    rw [receiveFlit_arrivals, List.mem_append] at member
    refine member.imp_right ?_
    intro new
    split at new
    case isFalse => cases new
    case isTrue =>
      rw [List.mem_singleton] at new
      rw [new]
      exact ⟨route, leaf⟩
  · intro out earlier member
    rw [receiveFlit_passedTo] at member
    exact Or.inl member

/-- Every move keeps leaf packets on their routes. -/
theorem LeafInv.move {Allowed : Addr → VC → Prop}
    (inv : LeafInv config sim) (star : StarConfig config)
    (netInv : NetInv config clock sim)
    (move : NetMove config clock Allowed sim next) : LeafInv config next := by
  cases move with
  | work address after _ _ move => exact inv.work star netInv move
  | advance | readTrace | announce | evg | router =>
      exact ⟨inv.pending, inv.arrived, inv.passed⟩
  | read address record rest _ pending _ => exact inv.readRecord rfl pending
  | wire time src des pc vc flit rest address _ queue located _ =>
      obtain ⟨_, _, unique⟩ :=
        netInv.links.flying ⟨time, .wire src des pc vc flit⟩
          (by rw [queue]; exact List.mem_cons_self) src des pc vc flit rfl
      obtain ⟨rfl, _⟩ := unique address located
      exact inv.arrive netInv queue rfl
  | credit =>
      exact inv.of_update rfl (fun _ member => member)
        (fun _ _ member => Or.inl member) (fun _ _ member => Or.inl member)

/-- Leaf packets are passed over links only. -/
theorem LeafInv.onLinks (inv : LeafInv config sim)
    (star : StarConfig config) (netInv : NetInv config clock sim) :
    sim.OnLinks config := by
  intro _ address _ vc out state crouting
  have filled := (((netInv.router address).channel vc).of_active
    (Or.inr state)).1
  obtain ⟨flit, rest, buffered⟩ := List.exists_cons_of_ne_nil filled
  have proper :=
    (inv.link_of_send star netInv state crouting buffered).1
  exact ⟨congrArg Prod.fst proper, congrArg Prod.snd proper⟩

/-- Every run of a trace between leaf chiplets stays on links. -/
theorem onLinks_of_leafFiles (star : StarConfig config)
    {simLength time : Time} {trace : List (Record Time)}
    {files : Addr → List (Record Time)} {rng : Rng}
    (leaf : LeafFiles config.arySize files)
    (reached : Sim.Reachable config clock simLength time trace files rng
      sim) :
    Sim.ReachableWhile config clock (Sim.OnLinks config) simLength time trace
      files rng sim := by
  suffices joint : Sim.ReachableWhile config clock (Sim.OnLinks config)
      simLength time trace files rng sim ∧ LeafInv config sim from joint.1
  refine invariant_of_reflTransGen
    (fun sim => Sim.ReachableWhile config clock (Sim.OnLinks config)
      simLength time trace files rng sim ∧ LeafInv config sim) ?_ ?_ reached
  · rintro before after ⟨onLinks, inv⟩ step
    have ready := (netMoves_of_reachable onLinks).1
    have netInv := netInv_of_reachable star onLinks
    have allowed := inv.onLinks star netInv
    refine ⟨onLinks.tail ⟨allowed, step⟩, ?_⟩
    refine (invariant_of_reflTransGen
      (fun sim => NetInv config clock sim ∧ LeafInv config sim) ?_
      ⟨netInv, inv⟩ (ready.step allowed step).2).2
    rintro earlier later ⟨netInv, inv⟩ move
    exact ⟨netInv.move star move, inv.move star netInv move⟩
  · refine ⟨ReflTransGen.refl, ?_, ?_, ?_⟩
    · intro address record member
      obtain ⟨source, fromLeaf, toLeaf⟩ := leaf address record member
      exact ⟨source ▸ fromLeaf, toLeaf⟩
    · intro _ _ _ member
      cases member
    · intro _ _ _ member
      cases member

end Moves

end ChipletSniper.Popnet
