import ChipletSniper.Popnet.Network

/-!
# Every move keeps the invariant of the network
-/

namespace ChipletSniper.Popnet

open Library Relation Function

variable {Time : Type}

/-! ## Moves of a router -/

section Moves

variable [LinearOrder Time] {config : Config} {clock : Clock Time}
variable {sim : Sim Time} {address : Addr}

/-- An output that is assigned is not one of the injection port. -/
theorem NetInv.outward_of_send (inv : NetInv config clock sim) {vc out : VC}
    (state : ((sim.network address).input vc).state = .swTr)
    (crouting : ((sim.network address).input vc).crouting = some out) :
    1 ≤ out.1 := by
  have ok := (inv.router address).channel vc
  obtain ⟨_, target, isHeld⟩ := ok.of_active (Or.inr state)
  have holds := ok.holds target isHeld
  rw [holds.crouting, Option.some.injEq] at crouting
  rw [← crouting]
  exact holds.outward

omit [LinearOrder Time] in
/-- A router reads a record. -/
theorem LinkInv.readRecord {next : Sim Time} (inv : LinkInv config sim)
    {held : Option VC} {record : Record Time} {rest : List (Record Time)}
    (network : next.network = update sim.network address
      (readRecord config held (sim.network address) record rest))
    (queue : next.queue = sim.queue) : LinkInv config next :=
  inv.read network queue readRecord_arrivals readRecord_passedTo
    readRecord_same.1

/-- One router changes. -/
theorem NetInv.of_update {next : Sim Time} {router : Router Time}
    (inv : NetInv config clock sim)
    (network : next.network = update sim.network address router)
    (itsAddress : router.address = address)
    (routerInv : RouterInv config router)
    (switchInv : SwitchInv config router)
    (links : LinkInv config next) (clockInv : ClockInv config clock next) :
    NetInv config clock next := by
  refine ⟨?_, ?_, ?_, links, clockInv⟩ <;> intro other <;> rw [network] <;>
    by_cases same : other = address
  · rw [same, update_self]
    exact itsAddress
  · rw [update_of_ne same]
    exact inv.address other
  · rw [same, update_self]
    exact routerInv
  · rw [update_of_ne same]
    exact inv.router other
  · rw [same, update_self]
    exact switchInv
  · rw [update_of_ne same]
    exact inv.switch other

omit [LinearOrder Time] in
theorem wireTo_of_isCredit {event : Event Time} (isCredit : event.IsCredit)
    (other : Addr) (vc : VC) : event.wireTo other vc = none := by
  obtain ⟨src, des, pc, v, mess⟩ := isCredit
  simp [Event.wireTo, mess]

/-- Credits are added to the queue. -/
theorem wires_of_credits {next : Sim Time} {events : List (Event Time)}
    (queue : next.queue = enqueueAll Event.time events sim.queue)
    (credits : ∀ event ∈ events, event.IsCredit) :
    (∀ other vc, next.wires other vc = sim.wires other vc) ∧
      ∀ event ∈ next.queue, ∀ src des pc vc flit,
        event.mess = .wire src des pc vc flit → event ∈ sim.queue := by
  constructor
  · intro other vc
    unfold Sim.wires
    rw [queue]
    exact filterMap_enqueueAll_of_none fun event member =>
      wireTo_of_isCredit (credits event member) other vc
  · intro event member src des pc vc flit isWire
    rw [queue, mem_enqueueAll] at member
    refine member.resolve_left ?_
    intro new
    obtain ⟨_, _, _, _, mess⟩ := credits event new
    rw [isWire] at mess
    cases mess

theorem ClockInv.credits {next : Sim Time} {events : List (Event Time)}
    (inv : ClockInv config clock sim)
    (credits : ∀ event ∈ events, event.IsCredit)
    (queue : next.queue = enqueueAll Event.time events sim.queue)
    (currentTime : next.currentTime = sim.currentTime)
    (agenda : next.agenda = sim.agenda) : ClockInv config clock next := by
  refine inv.add ?_ queue currentTime (fun busy => by rwa [← agenda])
  intro event member
  obtain ⟨_, _, _, _, mess⟩ := credits event member
  rw [mess]
  exact ⟨by simp, fun _ _ _ _ _ => by simp⟩

/-- The queue stays as it is. -/
theorem ClockInv.keep {next : Sim Time} (inv : ClockInv config clock sim)
    (queue : next.queue = sim.queue)
    (currentTime : next.currentTime = sim.currentTime)
    (agenda : next.agenda ≠ [] → sim.agenda ≠ []) :
    ClockInv config clock next := by
  have nothing : next.queue = enqueueAll Event.time [] sim.queue := queue
  refine inv.add ?_ nothing currentTime agenda
  intro event member
  cases member

/-- A router makes a move. -/
theorem NetInv.work (star : StarConfig config)
    (inv : NetInv config clock sim) (running : sim.agenda ≠ [])
    (listed : address ∈ config.addresses) {after : Work Time}
    (move : Move config clock sim.currentTime (sim.work address) after)
    (returns : ∀ out, after.router.passedTo out ≠
      (sim.network address).passedTo out →
        CreditsReturn config.arySize address out.1) :
    NetInv config clock (sim.absorb address after) := by
  have positive : 0 < config.arySize :=
    Nat.lt_of_lt_of_le Nat.two_pos star.arySize.1
  have valid : validAddress config.arySize 4 address = true :=
    star.cubeSize ▸ config.valid_of_mem_addresses positive listed
  obtain ⟨sameAddress, effect⟩ := move.effect rfl
  have itself : (sim.work address).router = sim.network address := rfl
  have network : (sim.absorb address after).network =
      update sim.network address after.router := rfl
  have queue : (sim.absorb address after).queue =
      enqueueAll Event.time after.emitted sim.queue := rfl
  have itsAddress := sameAddress.trans (inv.address address)
  have routerInv := RouterInv.move (inv.router address) move
  have switchInv :=
    SwitchInv.move (inv.switch address) (inv.router address) move
  cases effect with
  | quiet same credits =>
      obtain ⟨wires, old⟩ := wires_of_credits queue credits
      refine inv.of_update network itsAddress routerInv switchInv
        (inv.links.of_same ?_ wires old)
        (inv.clock.credits credits queue rfl rfl)
      intro other
      rw [network]
      by_cases here : other = address
      · rw [here, update_self]
        exact same
      · rw [update_of_ne here]
        exact SameLinks.refl _
  | send vc out flit rest state crouting buffered result credits =>
      obtain ⟨wires, old⟩ := wires_of_credits queue credits
      have passedTo : ∀ target, after.router.passedTo target =
          (sim.network address).passedTo target ++
            if target = out then [flit] else [] := by
        intro target
        rw [result]
        exact afterSend_passedTo target
      have grown : after.router.passedTo out ≠
          (sim.network address).passedTo out := by
        rw [passedTo, if_pos rfl]
        simp
      have isLink : IsLink config.arySize (address, out.1) :=
        isLink_of_creditsReturn (inv.outward_of_send state crouting)
          (returns out grown)
      refine inv.of_update network itsAddress routerInv switchInv
        (inv.links.send network wires old ?_ passedTo ?_ isLink valid)
        (inv.clock.credits credits queue rfl rfl)
      · intro other
        rw [result]
        exact afterSend_arrivals other
      · intro i v
        rw [result]
        exact afterSend_tagged i v
  | traverse i flit outadd rest leaving result emitted =>
      rw [itself, inv.address] at emitted
      rw [emitted, enqueueAll_singleton] at queue
      have passed :
          flit ∈ (sim.network address).passedTo (i, outadd.2) := by
        obtain ⟨sent, history⟩ := (inv.switch address).tagged (i, outadd.2)
        rw [history, OutputPort.tagged, ← itself, leaving]
        simp
      obtain ⟨⟨proper, _⟩, _⟩ :=
        inv.links.passed address (i, outadd.2) flit passed
      have link : linked config.arySize
          (linkedRouter config.arySize address i,
            linkedPort config.arySize address i) = (address, i) := proper
      refine inv.of_update network itsAddress routerInv switchInv
        (inv.links.launch inv.clock running network queue ?_ ?_ ?_ passed
          (located_linkedRouter star valid i))
        (inv.clock.launch running rfl ?_ queue rfl)
      · intro vc
        rw [result]
        rfl
      · intro target
        rw [result]
        rfl
      · intro k w
        rw [result, ← itself]
        unfold Router.setPort
        dsimp only
        by_cases here : k = i
        · rw [here, update_self, OutputPort.tagged, leaving]
          by_cases sameChannel : w = outadd.2
          · simp [sameChannel, OutputPort.tagged]
          · simp [sameChannel, Ne.symm sameChannel, OutputPort.tagged]
        · have different : (k, w) ≠ (i, outadd.2) := fun equal =>
            here (congrArg Prod.fst equal)
          rw [update_of_ne here, if_neg different, List.nil_append]
      · show clock.wire (getWireDelay config.arySize address i) _ = _
        unfold delayTo
        rw [show linkedRouter config.arySize _ _ = address from
            congrArg Prod.fst link,
          show linkedPort config.arySize _ _ = i from
            congrArg Prod.snd link]
  | read held record rest pending result emitted =>
      rw [emitted, enqueueAll_nil] at queue
      rw [itself] at pending result
      rw [result] at network
      exact inv.of_update network (result ▸ itsAddress) (result ▸ routerInv)
        (result ▸ switchInv) (inv.links.readRecord network queue)
        (inv.clock.keep queue rfl fun busy => busy)

/-! ## Events -/

variable {next : Sim Time}

/-- The routers stay as they are. -/
theorem NetInv.of_network (inv : NetInv config clock sim)
    (network : next.network = sim.network) (links : LinkInv config next)
    (clockInv : ClockInv config clock next) : NetInv config clock next := by
  refine ⟨?_, ?_, ?_, links, clockInv⟩ <;> rw [network]
  exacts [inv.address, inv.router, inv.switch]

omit [LinearOrder Time] in
/-- Neither the routers nor the flits in flight change. -/
theorem LinkInv.of_network (inv : LinkInv config sim)
    (network : next.network = sim.network)
    (wires : ∀ other vc, next.wires other vc = sim.wires other vc)
    (old : ∀ event ∈ next.queue, ∀ src des pc vc flit,
      event.mess = .wire src des pc vc flit → event ∈ sim.queue) :
    LinkInv config next :=
  inv.of_same (fun other => by rw [network]; exact SameLinks.refl _) wires old

omit [LinearOrder Time] in
/-- An event other than a flit is removed. -/
theorem wires_of_removal {event : Event Time} {rest : List (Event Time)}
    (queue : sim.queue = event :: rest) (remaining : next.queue = rest)
    (plain : ∀ other vc, event.wireTo other vc = none) :
    (∀ other vc, next.wires other vc = sim.wires other vc) ∧
      ∀ event ∈ next.queue, ∀ src des pc vc flit,
        event.mess = .wire src des pc vc flit → event ∈ sim.queue := by
  constructor
  · intro other vc
    unfold Sim.wires
    rw [queue, remaining, List.filterMap_cons_none (plain other vc)]
  · intro event member _ _ _ _ _ _
    rw [queue]
    rw [remaining] at member
    exact List.mem_cons_of_mem _ member

/-- The flit that arrives continues the packets of its channel. -/
theorem NetInv.accepts_arrival (inv : NetInv config clock sim) {time : Time}
    {src : Addr} {pc v : Nat} {flit : Flit Time} {rest : List (Event Time)}
    (queue : sim.queue = ⟨time, .wire src address pc v flit⟩ :: rest) :
    pc ≠ 0 ∧ ∃ last,
      framing ((sim.network address).arrivals (pc, v)) = some last ∧
        accepts last flit = true := by
  obtain ⟨proper, outer, _⟩ :=
    inv.links.flying ⟨time, .wire src address pc v flit⟩
      (by rw [queue]; exact List.mem_cons_self) src address pc v flit rfl
  obtain ⟨last, framed⟩ := ((inv.router address).channel (pc, v)).framed
  refine ⟨outer, last, framed, ?_⟩
  have history := inv.links.fifo address (pc, v) outer proper
  have selected : sim.wires address (pc, v) =
      flit :: rest.filterMap (Event.wireTo address (pc, v)) := by
    unfold Sim.wires
    rw [queue]
    exact List.filterMap_cons_some (by simp [Event.wireTo])
  have sent := (inv.router
    (linkedRouter config.arySize address pc)).sent
      (linkedPort config.arySize address pc, v)
  unfold Sim.passedOver at history
  rw [history, selected, List.append_assoc, List.cons_append] at sent
  exact accepts_of_framing sent framed

/-- Every move keeps the invariant of the network. -/
theorem NetInv.move (star : StarConfig config)
    (inv : NetInv config clock sim)
    (move : NetMove config clock
      (fun address out => CreditsReturn config.arySize address out.1) sim
      next) :
    NetInv config clock next := by
  cases move with
  | work address after running listed move returns =>
      exact inv.work star running listed move returns
  | advance agenda stage running =>
      exact inv.of_network rfl
        (inv.links.of_network rfl (fun _ _ => rfl)
          (fun _ member _ _ _ _ _ _ => member))
        (inv.clock.keep rfl rfl fun _ => running)
  | read address record rest _ pending admitted =>
      refine inv.of_update rfl ?_ ((inv.router address).readRecord none
          admitted) ((inv.switch address).readRecord none record rest)
        (inv.links.readRecord rfl rfl)
        (inv.clock.keep rfl rfl fun busy => busy)
      rw [readRecord_same.2.2.1]
      exact inv.address address
  | readTrace trace =>
      exact ⟨inv.address, inv.router, inv.switch,
        ⟨inv.links.passed, inv.links.flying, inv.links.fifo,
          inv.links.silent⟩,
        ⟨inv.clock.ordered, inv.clock.timely, inv.clock.upcoming⟩⟩
  | announce time =>
      have queue : (sim.addMessage ⟨time, .evg⟩).queue =
          enqueueAll Event.time [⟨time, .evg⟩] sim.queue := rfl
      refine inv.of_network rfl (inv.links.of_network rfl ?_ ?_)
        (inv.clock.add ?_ queue rfl fun busy => busy)
      · intro other vc
        exact filterMap_enqueue_of_none rfl
      · intro event member src des pc vc flit isWire
        rw [queue, mem_enqueueAll, List.mem_singleton] at member
        refine member.resolve_left ?_
        rintro rfl
        cases isWire
      · intro event member
        rw [List.mem_singleton] at member
        rw [member]
        exact ⟨by simp, fun _ _ _ _ _ => by simp⟩
  | evg time rest between queue =>
      obtain ⟨wires, old⟩ :=
        wires_of_removal queue
          (show ({ sim with queue := rest, currentTime := time } :
            Sim Time).queue = rest from rfl)
          (fun _ _ => rfl)
      exact inv.of_network rfl (inv.links.of_network rfl wires old)
        (inv.clock.remove queue rfl between)
  | router time rest between queue =>
      refine inv.of_network rfl (inv.links.of_network rfl ?_ ?_)
        (inv.clock.tick queue rfl rfl)
      · intro other vc
        unfold Sim.wires
        rw [queue]
        exact filterMap_enqueue_of_none rfl
      · intro event member src des pc vc flit isWire
        change event ∈ enqueue Event.time _ rest at member
        rw [mem_enqueue] at member
        rw [queue]
        refine List.mem_cons_of_mem _ (member.resolve_left ?_)
        rintro rfl
        cases isWire
  | wire time src des pc vc flit rest address between queue located inRange =>
      obtain ⟨_, _, unique⟩ :=
        inv.links.flying ⟨time, .wire src des pc vc flit⟩
          (by rw [queue]; exact List.mem_cons_self) src des pc vc flit rfl
      obtain ⟨rfl, valid⟩ := unique address located
      obtain ⟨outer, last, before, inPlace⟩ := inv.accepts_arrival queue
      exact inv.of_update rfl (inv.address address)
        ((inv.router address).receiveFlit inRange outer before inPlace)
        (inv.switch address).receiveFlit
        (inv.links.arrive queue rfl rfl receiveFlit_arrivals
          receiveFlit_passedTo rfl)
        (inv.clock.remove queue rfl between)
  | credit time src des pc vc rest address between queue located inRange =>
      obtain ⟨wires, old⟩ :=
        wires_of_removal queue
          (show ({ sim with queue := rest, currentTime := time } :
            Sim Time).queue = rest from rfl)
          (fun _ _ => rfl)
      refine inv.of_update rfl (inv.address address)
        ((inv.router address).receiveCredit (pc, vc))
        (inv.switch address).receiveCredit
        (inv.links.of_same ?_ wires old)
        (inv.clock.remove queue rfl between)
      intro other
      unfold Sim.setRouter
      dsimp only
      by_cases here : other = address
      · rw [here, update_self]
        exact ⟨fun _ => rfl, fun _ => rfl, fun _ _ => rfl, rfl⟩
      · rw [update_of_ne here]
        exact SameLinks.refl _

/-- Flits are passed only to output ports that get their credits back. -/
def Sim.OnLinks (config : Config) : Sim Time → Prop :=
  Sim.PassesOnly fun address out =>
    CreditsReturn config.arySize address out.1

/-- The invariant of the network holds in every run that stays on links. -/
theorem netInv_of_reachable (star : StarConfig config)
    {simLength time : Time} {trace : List (Record Time)}
    {files : Addr → List (Record Time)} {rng : Rng}
    (reached : Sim.ReachableWhile config clock (Sim.OnLinks config) simLength
      time trace files rng sim) :
    NetInv config clock sim :=
  invariant_of_reflTransGen (NetInv config clock) (NetInv.move star)
    netInv_start (netMoves_of_reachable reached).2

end Moves

end ChipletSniper.Popnet
