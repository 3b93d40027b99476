import ChipletSniper.Popnet.Links
import ChipletSniper.Popnet.Simulator

/-!
# The links of the network

For a trace between leaf chiplets of the star, what a router passed to an
output is what the router behind it received, followed by what is in flight
and by what waits in the output buffer.  Together with the invariant of the
sender this keeps the packets of every channel framed.
-/

namespace ChipletSniper.Popnet

open Library Relation Function

variable {Time : Type}

/-! ## Selections -/

/-- The flit of a `WIRE_` event for a channel of a router. -/
def Event.wireTo (address : Addr) (vc : VC) (event : Event Time) :
    Option (Flit Time) :=
  match event.mess with
  | .wire _ des pc v flit =>
      if des = address ∧ pc = vc.1 ∧ v = vc.2 then some flit else none
  | _ => none

namespace Sim

variable (sim : Sim Time)

/-- The flits in flight to a channel of a router. -/
def wires (address : Addr) (vc : VC) : List (Flit Time) :=
  sim.queue.filterMap (Event.wireTo address vc)

/-- The flits that were passed to the output behind an input channel. -/
def passedOver (n : ℤ) (address : Addr) (vc : VC) : List (Flit Time) :=
  (sim.network (linkedRouter n address vc.1)).passedTo
    (linkedPort n address vc.1, vc.2)

/-- Those of them that wait in the output buffer. -/
def waiting (n : ℤ) (address : Addr) (vc : VC) : List (Flit Time) :=
  ((sim.network (linkedRouter n address vc.1)).port
    (linkedPort n address vc.1)).tagged vc.2

end Sim

/-- The delay of the link that ends at an input port. -/
def delayTo (n : ℤ) (address : Addr) (pc : Nat) : WireDelay :=
  getWireDelay n (linkedRouter n address pc) (linkedPort n address pc)

/-! ## The invariant -/

/-- Star mode, as far as the links depend on it. -/
structure StarConfig (config : Config) : Prop where
  routingAlg : config.routingAlg = .chipletStarTopoRouting
  cubeSize : config.cubeSize = 4
  arySize : 2 ≤ config.arySize ∧ config.arySize ≤ 5
  vcNumber : 2 ≤ config.vcNumber
  bufferSize : 1 ≤ config.bufferSize
  outbufferSize : 1 ≤ config.outbufferSize

/-- If `sim_foundation::router` finds a router for the address, it is the one
of that address. -/
def Located (config : Config) (des : Addr) : Prop :=
  ∀ address, config.router des = .ok address →
    address = des ∧ validAddress config.arySize 4 des = true

theorem located_of_valid {config : Config} (star : StarConfig config)
    {des : Addr} (valid : validAddress config.arySize 4 des = true) :
    Located config des := by
  intro address found
  rw [config.router_of_valid (star.cubeSize ▸ valid), Except.ok.injEq]
    at found
  exact ⟨found.symm, valid⟩

/-- A gateway of a chiplet column that does not exist is not found. -/
theorem valid_of_router {config : Config} (star : StarConfig config)
    {x y : ℤ} (lower : 0 ≤ x) (yRange : 0 ≤ y ∧ y < config.arySize)
    {address : Addr} (found : config.router [x, y, 0, 0] = .ok address) :
    validAddress config.arySize 4 [x, y, 0, 0] = true := by
  have big : (2 : ℤ) ≤ config.arySize := by exact_mod_cast star.arySize.1
  unfold Config.router at found
  dsimp only at found
  split at found
  case isFalse => cases found
  case isTrue bound =>
    refine validAddress_four.mpr ⟨⟨lower, ?_⟩, yRange, by omega, by omega⟩
    by_contra large
    have index : config.routerIndex [x, y, 0, 0] =
        (x * config.arySize + y) * config.arySize ^ 2 := by
      simp [Config.routerIndex]
      ring
    have whole : (config.routerCounter : ℤ) =
        (config.arySize * config.arySize) * config.arySize ^ 2 := by
      unfold Config.routerCounter
      rw [star.cubeSize]
      push_cast
      ring
    rw [index, whole] at bound
    have smaller := lt_of_mul_lt_mul_right bound.2 (by positivity)
    nlinarith

/-- The centre has ports for chiplets that do not exist; no router is found
behind them. -/
theorem located_linkedRouter {config : Config} (star : StarConfig config)
    {address : Addr}
    (valid : validAddress config.arySize 4 address = true) (port : Nat) :
    Located config (linkedRouter config.arySize address port) := by
  have big : (2 : ℤ) ≤ config.arySize := by exact_mod_cast star.arySize.1
  unfold linkedRouter
  dsimp only
  split
  case isTrue =>
    intro found isFound
    have lower : 0 ≤ ((port - 1 : ℕ) : ℤ).tdiv (config.arySize - 1) :=
      Int.tdiv_nonneg (Int.natCast_nonneg _) (by omega)
    have remainder :
        0 ≤ ((port - 1 : ℕ) : ℤ).tmod (config.arySize - 1) ∧
          ((port - 1 : ℕ) : ℤ).tmod (config.arySize - 1) <
            config.arySize := by
      have bound := Int.tmod_lt_of_pos ((port - 1 : ℕ) : ℤ)
        (show (0 : ℤ) < config.arySize - 1 by omega)
      exact ⟨Int.tmod_nonneg _ (Int.natCast_nonneg _), by omega⟩
    exact located_of_valid star (valid_of_router star lower remainder isFound)
      found isFound
  case isFalse =>
    refine located_of_valid star ?_
    split
    · exact validAddress_four.mpr (by omega)
    · exact validAddress_ringNeighbour valid _

section Invariant

variable [LinearOrder Time] (config : Config) (clock : Clock Time)

/-- What the links carry. -/
structure LinkInv (sim : Sim Time) : Prop where
  passed : ∀ address out, ∀ flit ∈ (sim.network address).passedTo out,
    IsLink config.arySize (address, out.1) ∧
      validAddress config.arySize 4 address = true
  flying : ∀ event ∈ sim.queue, ∀ src des pc vc flit,
    event.mess = .wire src des pc vc flit →
      Proper config.arySize (des, pc) ∧ pc ≠ 0 ∧ Located config des
  fifo : ∀ address vc, vc.1 ≠ 0 →
    Proper config.arySize (address, vc.1) →
      sim.passedOver config.arySize address vc =
        (sim.network address).arrivals vc ++ sim.wires address vc ++
          sim.waiting config.arySize address vc
  silent : ∀ address vc, vc.1 ≠ 0 →
    ¬ Proper config.arySize (address, vc.1) →
      (sim.network address).arrivals vc = []

/-- The times of the events. -/
structure ClockInv (sim : Sim Time) : Prop where
  ordered : Ordered Event.time sim.queue
  /-- A flit in flight was sent no later than the current `ROUTER_` event, or
  any that is to come. -/
  timely : ∀ event ∈ sim.queue, ∀ src des pc vc flit,
    event.mess = .wire src des pc vc flit →
      (sim.agenda ≠ [] →
        event.time ≤ clock.wire (delayTo config.arySize des pc)
          sim.currentTime) ∧
      ∀ tick ∈ sim.queue, tick.mess = .router →
        event.time ≤ clock.wire (delayTo config.arySize des pc) tick.time
  upcoming : sim.agenda ≠ [] →
    ∀ tick ∈ sim.queue, tick.mess = .router → sim.currentTime ≤ tick.time

/-- The invariant of the network. -/
structure NetInv (sim : Sim Time) : Prop where
  address : ∀ address, (sim.network address).address = address
  router : ∀ address, RouterInv config (sim.network address)
  switch : ∀ address, SwitchInv config (sim.network address)
  links : LinkInv config sim
  clock : ClockInv config clock sim

variable {config clock} {sim next : Sim Time}

theorem netInv_start {time : Time} {trace : List (Record Time)}
    {files : Addr → List (Record Time)} {rng : Rng} :
    NetInv config clock (Sim.start config time trace files rng) := by
  have noWire : ∀ event ∈ (Sim.start config time trace files rng).queue,
      ∀ src des pc vc flit, event.mess ≠ .wire src des pc vc flit := by
    intro event member src des pc vc flit isWire
    simp only [Sim.start, mem_enqueue, List.mem_singleton] at member
    rcases member with rfl | rfl <;> cases isWire
  refine ⟨fun _ => rfl, fun address => routerInv_start config address _,
    fun address => switchInv_start config address _,
    ⟨?_, ?_, ?_, fun _ _ _ _ => rfl⟩, ⟨?_, ?_, ?_⟩⟩
  · intro _ _ _ member
    cases member
  · intro event member src des pc vc flit isWire
    exact absurd isWire (noWire event member src des pc vc flit)
  · intro address vc _ _
    have none : (Sim.start config time trace files rng).wires address vc =
        [] := by
      simp [Sim.wires, Sim.start, Event.wireTo]
    rw [none]
    rfl
  · exact Ordered.enqueue (List.pairwise_singleton _ _) _
  · intro event member src des pc vc flit isWire
    exact absurd isWire (noWire event member src des pc vc flit)
  · exact fun running => absurd rfl running

/-! ### Times -/

/-- Events are added that are neither flits nor `ROUTER_` events. -/
theorem ClockInv.add (inv : ClockInv config clock sim)
    {events : List (Event Time)}
    (plain : ∀ event ∈ events, event.mess ≠ .router ∧
      ∀ src des pc vc flit, event.mess ≠ .wire src des pc vc flit)
    (queue : next.queue = enqueueAll Event.time events sim.queue)
    (currentTime : next.currentTime = sim.currentTime)
    (agenda : next.agenda ≠ [] → sim.agenda ≠ []) :
    ClockInv config clock next := by
  have old : ∀ event ∈ next.queue, event ∈ events ∨ event ∈ sim.queue := by
    intro event member
    rwa [queue, mem_enqueueAll] at member
  have oldTick : ∀ tick ∈ next.queue, tick.mess = .router →
      tick ∈ sim.queue := by
    intro tick member isTick
    refine (old tick member).resolve_left ?_
    exact fun new => (plain tick new).1 isTick
  refine ⟨?_, ?_, ?_⟩
  · rw [queue]
    exact inv.ordered.enqueueAll events
  · intro event member src des pc vc flit isWire
    have before := (old event member).resolve_left fun new =>
      (plain event new).2 src des pc vc flit isWire
    obtain ⟨running, ticks⟩ :=
      inv.timely event before src des pc vc flit isWire
    refine ⟨?_, fun tick present isTick =>
      ticks tick (oldTick tick present isTick) isTick⟩
    intro busy
    rw [currentTime]
    exact running (agenda busy)
  · intro busy tick member isTick
    rw [currentTime]
    exact inv.upcoming (agenda busy) tick (oldTick tick member isTick) isTick

/-- The first event is removed. -/
theorem ClockInv.remove (inv : ClockInv config clock sim)
    {event : Event Time} {rest : List (Event Time)}
    (queue : sim.queue = event :: rest) (remaining : next.queue = rest)
    (between : next.agenda = []) : ClockInv config clock next := by
  have old : ∀ other ∈ next.queue, other ∈ sim.queue := by
    intro other member
    rw [queue]
    rw [remaining] at member
    exact List.mem_cons_of_mem event member
  have ordered := inv.ordered
  rw [queue] at ordered
  refine ⟨?_, ?_, fun busy => absurd between busy⟩
  · rw [remaining]
    exact (List.pairwise_cons.mp ordered).2
  · intro event member src des pc vc flit isWire
    obtain ⟨_, ticks⟩ :=
      inv.timely event (old event member) src des pc vc flit isWire
    exact ⟨fun busy => absurd between busy,
      fun tick present isTick => ticks tick (old tick present) isTick⟩

/-- A `ROUTER_` event starts and adds the next one. -/
theorem ClockInv.tick (inv : ClockInv config clock sim) {time : Time}
    {rest : List (Event Time)} (queue : sim.queue = ⟨time, .router⟩ :: rest)
    (added : next.queue =
      enqueue Event.time ⟨clock.pipe time, .router⟩ rest)
    (currentTime : next.currentTime = time) :
    ClockInv config clock next := by
  have ordered := inv.ordered
  rw [queue] at ordered
  obtain ⟨later, behind⟩ := List.pairwise_cons.mp ordered
  have tickTime : ∀ tick ∈ next.queue, tick.mess = .router →
      time ≤ tick.time := by
    intro tick member isTick
    rw [added, mem_enqueue] at member
    rcases member with rfl | old
    · exact clock.le_pipe time
    · exact later tick old
  refine ⟨?_, ?_, ?_⟩
  · rw [added]
    exact Ordered.enqueue behind _
  · intro event member src des pc vc flit isWire
    rw [added, mem_enqueue] at member
    have old : event ∈ sim.queue := by
      rcases member with rfl | old
      · cases isWire
      · rw [queue]
        exact List.mem_cons_of_mem _ old
    have bound :
        event.time ≤ clock.wire (delayTo config.arySize des pc) time :=
      (inv.timely event old src des pc vc flit isWire).2 ⟨time, .router⟩
        (by rw [queue]; exact List.mem_cons_self) rfl
    refine ⟨fun _ => by rw [currentTime]; exact bound, ?_⟩
    intro tick present isTick
    exact bound.trans (clock.wire_mono _ (tickTime tick present isTick))
  · intro _ tick member isTick
    rw [currentTime]
    exact tickTime tick member isTick

/-- A flit is put on a wire during a `ROUTER_` event. -/
theorem ClockInv.launch (inv : ClockInv config clock sim)
    (running : sim.agenda ≠ []) {event : Event Time} {src des : Addr}
    {pc vc : Nat} {flit : Flit Time}
    (isWire : event.mess = .wire src des pc vc flit)
    (time : event.time =
      clock.wire (delayTo config.arySize des pc) sim.currentTime)
    (queue : next.queue = enqueue Event.time event sim.queue)
    (currentTime : next.currentTime = sim.currentTime) :
    ClockInv config clock next := by
  have oldTick : ∀ tick ∈ next.queue, tick.mess = .router →
      tick ∈ sim.queue := by
    intro tick member isTick
    rw [queue, mem_enqueue] at member
    refine member.resolve_left ?_
    rintro rfl
    rw [isWire] at isTick
    cases isTick
  refine ⟨?_, ?_, ?_⟩
  · rw [queue]
    exact inv.ordered.enqueue event
  · intro other member src' des' pc' vc' flit' isOther
    rw [queue, mem_enqueue] at member
    rcases member with rfl | old
    · rw [isWire] at isOther
      cases isOther
      rw [time, currentTime]
      exact ⟨fun _ => le_refl _, fun tick present isTick =>
        clock.wire_mono _ (inv.upcoming running tick
          (oldTick tick present isTick) isTick)⟩
    · obtain ⟨bound, ticks⟩ := inv.timely other old src' des' pc' vc' flit'
        isOther
      rw [currentTime]
      exact ⟨fun _ => bound running, fun tick present isTick =>
        ticks tick (oldTick tick present isTick) isTick⟩
  · intro _ tick member isTick
    rw [currentTime]
    exact inv.upcoming running tick (oldTick tick member isTick) isTick

end Invariant

/-! ## What a move does to the links -/

/-- Nothing happens on the links of a router. -/
structure SameLinks (router next : Router Time) : Prop where
  arrivals : ∀ vc, next.arrivals vc = router.arrivals vc
  passedTo : ∀ out, next.passedTo out = router.passedTo out
  tagged : ∀ i v, (next.port i).tagged v = (router.port i).tagged v
  pending : next.pending = router.pending

theorem SameLinks.refl (router : Router Time) : SameLinks router router :=
  ⟨fun _ => rfl, fun _ => rfl, fun _ _ => rfl, rfl⟩

/-- The event is a credit. -/
def Event.IsCredit (event : Event Time) : Prop :=
  ∃ src des pc vc, event.mess = .credit src des pc vc

/-- A note that is neither an arrival nor a passage. -/
theorem sameLinks_of_note {router next : Router Time} {note : Note Time}
    (log : next.log = router.log ++ [note])
    (arrival : ∀ vc, note.arrival vc = none)
    (passage : ∀ out, note.passage out = none)
    (port : next.port = router.port)
    (pending : next.pending = router.pending) :
    SameLinks router next := by
  refine ⟨?_, ?_, fun _ _ => by rw [port], pending⟩
  · intro vc
    simp [arrivals_of_log log, arrival]
  · intro out
    simp [passedTo_of_log log, passage]

section Effects

variable [LinearOrder Time] {config : Config} {clock : Clock Time}
variable {now : Time} {work after : Work Time}

/-- A move changes nothing on the links, passes a flit to an output, puts a
flit on a wire or reads a record. -/
inductive LinkEffect (config : Config) (clock : Clock Time) (now : Time)
    (work after : Work Time) : Prop
  | quiet :
      SameLinks work.router after.router →
      (∀ event ∈ after.emitted, event.IsCredit) →
      LinkEffect config clock now work after
  | send (vc out : VC) (flit : Flit Time) (rest : List (Flit Time)) :
      (work.router.input vc).state = .swTr →
      (work.router.input vc).crouting = some out →
      (work.router.input vc).buffer = flit :: rest →
      after.router = afterSend work.router vc out flit rest →
      (∀ event ∈ after.emitted, event.IsCredit) →
      LinkEffect config clock now work after
  | traverse (i : Nat) (flit : Flit Time) (outadd : VC)
      (rest : List (Flit Time × VC)) :
      (work.router.port i).outbuffers = (flit, outadd) :: rest →
      after.router =
        work.router.setPort i
          ⟨rest, (work.router.port i).localcounter + 1⟩ →
      after.emitted =
        [⟨clock.wire (getWireDelay config.arySize work.router.address i) now,
          .wire work.router.address
            (linkedRouter config.arySize work.router.address i)
            (linkedPort config.arySize work.router.address i) outadd.2
            flit⟩] →
      LinkEffect config clock now work after
  | read (held : Option VC) (record : Record Time)
      (rest : List (Record Time)) :
      work.router.pending = record :: rest →
      after.router = readRecord config held work.router record rest →
      after.emitted = [] →
      LinkEffect config clock now work after

theorem isCredit_of_returnCredit (fresh : work.emitted = []) (vc : VC) :
    ∀ event ∈ (returnCredit config clock now work vc).emitted,
      event.IsCredit := by
  intro event member
  unfold returnCredit at member
  split at member
  · rw [fresh] at member
    cases member
  · split at member
    · rw [fresh, List.nil_append, List.mem_singleton] at member
      rw [member]
      exact ⟨_, _, _, _, rfl⟩
    · rw [fresh] at member
      cases member

theorem Move.effect (move : Move config clock now work after)
    (fresh : work.emitted = []) :
    after.router.address = work.router.address ∧
      LinkEffect config clock now work after := by
  have nothing : ∀ event ∈ work.emitted, event.IsCredit := by
    intro event member
    rw [fresh] at member
    cases member
  cases move with
  | draw => exact ⟨rfl, .quiet (SameLinks.refl _) nothing⟩
  | traverse i _ _ =>
      unfold flitTraversalPort
      dsimp only
      split
      case h_1 => exact ⟨rfl, .quiet (SameLinks.refl _) nothing⟩
      case h_2 flit outadd rest leaving =>
        refine ⟨rfl, .traverse i flit outadd rest leaving rfl ?_⟩
        rw [fresh]
        rfl
  | send vc out flit rest _ state crouting buffered =>
      refine ⟨afterSend_address,
        .send vc out flit rest state crouting buffered rfl ?_⟩
      intro event member
      dsimp only at member
      split at member
      · exact nothing event member
      · rw [fresh, List.nil_append, List.mem_singleton] at member
        rw [member]
        exact ⟨_, _, _, _, rfl⟩
  | reopen =>
      exact ⟨rfl, .quiet ⟨fun _ => rfl, fun _ => rfl, fun _ _ => rfl, rfl⟩
        nothing⟩
  | read held record rest pending _ =>
      refine ⟨?_, .read held record rest pending rfl fresh⟩
      unfold readRecord addPacketHolding
      dsimp only
      split <;> rfl
  | grantSwitch | route =>
      exact ⟨rfl, .quiet ⟨fun _ => rfl, fun _ => rfl, fun _ _ => rfl, rfl⟩
        nothing⟩
  | grantChannel vc out =>
      refine ⟨rfl, .quiet ?_ nothing⟩
      exact sameLinks_of_note rfl (fun _ => rfl) (fun _ => rfl) rfl rfl
  | acceptFirst vc flit rest | acceptNext vc flit rest =>
      refine ⟨?_, .quiet ?_ (isCredit_of_returnCredit fresh vc)⟩
      · simp [acceptFlit, returnCredit_router, Router.record, Router.setInput]
      · simp only [acceptFlit, returnCredit_router]
        exact sameLinks_of_note rfl (fun _ => rfl) (fun _ => rfl) rfl rfl
  | strayCredit =>
      refine ⟨rfl, .quiet (SameLinks.refl _) ?_⟩
      intro event member
      rw [fresh, List.nil_append, List.mem_singleton] at member
      rw [member]
      exact ⟨_, _, _, _, rfl⟩

end Effects

/-! ## The links are kept -/

section Links

variable {config : Config} {sim next : Sim Time}

theorem LinkInv.of_same (inv : LinkInv config sim)
    (same : ∀ address,
      SameLinks (sim.network address) (next.network address))
    (wires : ∀ address vc, next.wires address vc = sim.wires address vc)
    (old : ∀ event ∈ next.queue, ∀ src des pc vc flit,
      event.mess = .wire src des pc vc flit → event ∈ sim.queue) :
    LinkInv config next := by
  refine ⟨?_, ?_, ?_, ?_⟩
  · intro address out
    rw [(same address).passedTo out]
    exact inv.passed address out
  · intro event member src des pc vc flit isWire
    exact inv.flying event (old event member src des pc vc flit isWire) src
      des pc vc flit isWire
  · intro address vc outer proper
    have before := inv.fifo address vc outer proper
    unfold Sim.passedOver Sim.waiting at before ⊢
    rw [(same _).passedTo, (same _).tagged, (same address).arrivals,
      wires address vc]
    exact before
  · intro address vc outer improper
    rw [(same address).arrivals]
    exact inv.silent address vc outer improper

variable {address : Addr} {router : Router Time}

/-- A router passes a flit to an output. -/
theorem LinkInv.send (inv : LinkInv config sim) {out : VC} {flit : Flit Time}
    (network : next.network = update sim.network address router)
    (queue : ∀ other vc, next.wires other vc = sim.wires other vc)
    (old : ∀ event ∈ next.queue, ∀ src des pc vc flit,
      event.mess = .wire src des pc vc flit → event ∈ sim.queue)
    (arrivals : ∀ vc, router.arrivals vc = (sim.network address).arrivals vc)
    (passedTo : ∀ target, router.passedTo target =
      (sim.network address).passedTo target ++
        if target = out then [flit] else [])
    (tagged : ∀ i v, (router.port i).tagged v =
      ((sim.network address).port i).tagged v ++
        if (i, v) = out then [flit] else [])
    (isLink : IsLink config.arySize (address, out.1))
    (valid : validAddress config.arySize 4 address = true) :
    LinkInv config next := by
  have itself : next.network address = router := by
    rw [network, update_self]
  have elsewhere : ∀ other, other ≠ address →
      next.network other = sim.network other := by
    intro other different
    rw [network, update_of_ne different]
  have sameArrivals : ∀ other vc,
      (next.network other).arrivals vc = (sim.network other).arrivals vc := by
    intro other vc
    by_cases same : other = address
    · rw [same, itself, arrivals]
    · rw [elsewhere other same]
  refine ⟨?_, ?_, ?_, ?_⟩
  · intro other target earlier member
    by_cases same : other = address
    · rw [same, itself, passedTo, List.mem_append] at member
      rw [same]
      rcases member with already | new
      · exact inv.passed address target earlier already
      · split at new
        case isTrue isOut =>
          rw [isOut]
          exact ⟨isLink, valid⟩
        case isFalse => cases new
    · rw [elsewhere other same] at member
      exact inv.passed other target earlier member
  · intro event member src des pc vc flit isWire
    exact inv.flying event (old event member src des pc vc flit isWire) src
      des pc vc flit isWire
  · intro other vc outer otherProper
    have before := inv.fifo other vc outer otherProper
    unfold Sim.passedOver Sim.waiting at before ⊢
    rw [sameArrivals, queue]
    by_cases same : linkedRouter config.arySize other vc.1 = address
    · rw [same, itself, passedTo, tagged]
      rw [same] at before
      rw [before]
      simp only [List.append_assoc]
    · rw [elsewhere _ same]
      exact before
  · intro other vc outer improper
    rw [sameArrivals]
    exact inv.silent other vc outer improper

/-- A router reads packets. -/
theorem LinkInv.read (inv : LinkInv config sim) {flits : List (Flit Time)}
    {j : Nat}
    (network : next.network = update sim.network address router)
    (queue : next.queue = sim.queue)
    (arrivals : ∀ vc, router.arrivals vc =
      (sim.network address).arrivals vc ++
        if vc = (0, j) then flits else [])
    (passedTo : ∀ target,
      router.passedTo target = (sim.network address).passedTo target)
    (port : router.port = (sim.network address).port) :
    LinkInv config next := by
  have itself : next.network address = router := by
    rw [network, update_self]
  have elsewhere : ∀ other, other ≠ address →
      next.network other = sim.network other := by
    intro other different
    rw [network, update_of_ne different]
  have outerArrivals : ∀ other vc, vc.1 ≠ 0 →
      (next.network other).arrivals vc = (sim.network other).arrivals vc := by
    intro other vc outer
    by_cases same : other = address
    · have notInjection : vc ≠ (0, j) := fun equal => outer (by rw [equal])
      rw [same, itself, arrivals, if_neg notInjection, List.append_nil]
    · rw [elsewhere other same]
  have samePassedTo : ∀ other target,
      (next.network other).passedTo target =
        (sim.network other).passedTo target := by
    intro other target
    by_cases same : other = address
    · rw [same, itself, passedTo]
    · rw [elsewhere other same]
  have samePort : ∀ other,
      (next.network other).port = (sim.network other).port := by
    intro other
    by_cases same : other = address
    · rw [same, itself, port]
    · rw [elsewhere other same]
  refine ⟨?_, ?_, ?_, ?_⟩
  · intro other target
    rw [samePassedTo]
    exact inv.passed other target
  · rw [queue]
    exact inv.flying
  · intro other vc outer proper
    have before := inv.fifo other vc outer proper
    unfold Sim.passedOver Sim.waiting Sim.wires at before ⊢
    rw [samePassedTo, samePort, outerArrivals other vc outer, queue]
    exact before
  · intro other vc outer improper
    rw [outerArrivals other vc outer]
    exact inv.silent other vc outer improper

/-- A flit arrives. -/
theorem LinkInv.arrive (inv : LinkInv config sim) {time : Time}
    {src : Addr} {pc v : Nat} {flit : Flit Time} {rest : List (Event Time)}
    (queue : sim.queue = ⟨time, .wire src address pc v flit⟩ :: rest)
    (network : next.network = update sim.network address router)
    (remaining : next.queue = rest)
    (arrivals : ∀ vc, router.arrivals vc =
      (sim.network address).arrivals vc ++
        if vc = (pc, v) then [flit] else [])
    (passedTo : ∀ target,
      router.passedTo target = (sim.network address).passedTo target)
    (port : router.port = (sim.network address).port) :
    LinkInv config next := by
  obtain ⟨proper, outer, _⟩ :=
    inv.flying ⟨time, .wire src address pc v flit⟩
      (by rw [queue]; exact List.mem_cons_self) src address pc v flit rfl
  have itself : next.network address = router := by
    rw [network, update_self]
  have elsewhere : ∀ other, other ≠ address →
      next.network other = sim.network other := by
    intro other different
    rw [network, update_of_ne different]
  have newArrivals : ∀ other vc,
      (next.network other).arrivals vc ++ next.wires other vc =
        (sim.network other).arrivals vc ++ sim.wires other vc := by
    intro other vc
    unfold Sim.wires
    rw [queue, remaining, List.filterMap_cons]
    by_cases here : other = address ∧ vc = (pc, v)
    · obtain ⟨rfl, rfl⟩ := here
      rw [itself, arrivals]
      simp [Event.wireTo]
    · have skipped : Event.wireTo other vc
          ⟨time, .wire src address pc v flit⟩ = none := by
        simp only [Event.wireTo, ite_eq_right_iff, reduceCtorEq, imp_false]
        rintro ⟨rfl, samePc, sameV⟩
        exact here ⟨rfl, Prod.ext samePc.symm sameV.symm⟩
      rw [skipped]
      by_cases same : other = address
      · have different : vc ≠ (pc, v) := fun equal => here ⟨same, equal⟩
        rw [same, itself, arrivals, if_neg different, List.append_nil]
      · rw [elsewhere other same]
  have samePassedTo : ∀ other target,
      (next.network other).passedTo target =
        (sim.network other).passedTo target := by
    intro other target
    by_cases same : other = address
    · rw [same, itself, passedTo]
    · rw [elsewhere other same]
  have samePort : ∀ other,
      (next.network other).port = (sim.network other).port := by
    intro other
    by_cases same : other = address
    · rw [same, itself, port]
    · rw [elsewhere other same]
  refine ⟨?_, ?_, ?_, ?_⟩
  · intro other target
    rw [samePassedTo]
    exact inv.passed other target
  · intro event member
    exact inv.flying event (by
      rw [queue]
      rw [remaining] at member
      exact List.mem_cons_of_mem _ member)
  · intro other vc notInjection otherProper
    have before := inv.fifo other vc notInjection otherProper
    unfold Sim.passedOver Sim.waiting at before ⊢
    rw [samePassedTo, samePort, newArrivals]
    exact before
  · intro other vc notInjection improper
    by_cases same : other = address
    · have different : vc ≠ (pc, v) := by
        rintro rfl
        exact improper (same ▸ proper)
      rw [same, itself, arrivals, if_neg different, List.append_nil]
      exact inv.silent address vc notInjection (same ▸ improper)
    · rw [elsewhere other same]
      exact inv.silent other vc notInjection improper

/-- A flit leaves an output buffer. -/
theorem LinkInv.launch [LinearOrder Time] {clock : Clock Time}
    (inv : LinkInv config sim) (clockInv : ClockInv config clock sim)
    (running : sim.agenda ≠ []) {i v : Nat} {flit : Flit Time}
    (network : next.network = update sim.network address router)
    (queue : next.queue =
      enqueue Event.time
        ⟨clock.wire (getWireDelay config.arySize address i) sim.currentTime,
          .wire address (linkedRouter config.arySize address i)
            (linkedPort config.arySize address i) v flit⟩ sim.queue)
    (arrivals : ∀ vc, router.arrivals vc = (sim.network address).arrivals vc)
    (passedTo : ∀ target,
      router.passedTo target = (sim.network address).passedTo target)
    (tagged : ∀ k w, ((sim.network address).port k).tagged w =
      (if (k, w) = (i, v) then [flit] else []) ++ (router.port k).tagged w)
    (passed : flit ∈ (sim.network address).passedTo (i, v))
    (located : Located config (linkedRouter config.arySize address i)) :
    LinkInv config next := by
  obtain ⟨⟨proper, outer⟩, _⟩ := inv.passed address (i, v) flit passed
  have itself : next.network address = router := by
    rw [network, update_self]
  have elsewhere : ∀ other, other ≠ address →
      next.network other = sim.network other := by
    intro other different
    rw [network, update_of_ne different]
  have sameArrivals : ∀ other vc,
      (next.network other).arrivals vc = (sim.network other).arrivals vc := by
    intro other vc
    by_cases same : other = address
    · rw [same, itself, arrivals]
    · rw [elsewhere other same]
  have samePassedTo : ∀ other target,
      (next.network other).passedTo target =
        (sim.network other).passedTo target := by
    intro other target
    by_cases same : other = address
    · rw [same, itself, passedTo]
    · rw [elsewhere other same]
  -- the flit is the last one in flight on its link
  have newWires : ∀ other vc, Proper config.arySize (other, vc.1) →
      next.wires other vc ++ next.waiting config.arySize other vc =
        sim.wires other vc ++ sim.waiting config.arySize other vc := by
    intro other vc otherProper
    unfold Sim.wires Sim.waiting
    rw [queue]
    by_cases here : linked config.arySize (other, vc.1) = (address, i) ∧
        vc.2 = v
    · obtain ⟨link, sameV⟩ := here
      have backLink : linked config.arySize (address, i) = (other, vc.1) := by
        rw [← link]
        exact otherProper
      have backRouter :
          linkedRouter config.arySize address i = other :=
        congrArg Prod.fst backLink
      have backPort : linkedPort config.arySize address i = vc.1 :=
        congrArg Prod.snd backLink
      have linkRouter : linkedRouter config.arySize other vc.1 = address :=
        congrArg Prod.fst link
      have linkPort : linkedPort config.arySize other vc.1 = i :=
        congrArg Prod.snd link
      have picked : Event.wireTo other vc
          ⟨clock.wire (getWireDelay config.arySize address i)
              sim.currentTime,
            .wire address (linkedRouter config.arySize address i)
              (linkedPort config.arySize address i) v flit⟩ = some flit := by
        simp [Event.wireTo, backRouter, backPort, sameV]
      have last : ∀ event ∈ sim.queue, Event.wireTo other vc event ≠ none →
          event.time ≤ clock.wire (getWireDelay config.arySize address i)
            sim.currentTime := by
        intro event member selected
        unfold Event.wireTo at selected
        split at selected
        case h_2 => exact absurd rfl selected
        case h_1 src des pc w flit' isWire =>
          split at selected
          case isFalse => exact absurd rfl selected
          case isTrue target =>
            obtain ⟨rfl, rfl, _⟩ := target
            have bound :=
              (clockInv.timely event member src des vc.1 w flit' isWire).1
                running
            unfold delayTo at bound
            rwa [linkRouter, linkPort] at bound
      rw [filterMap_enqueue_of_last clockInv.ordered picked last, linkRouter,
        linkPort, itself, tagged i vc.2, sameV, if_pos rfl,
        List.append_assoc]
    · rw [filterMap_enqueue_of_none]
      · congr 1
        by_cases same : linkedRouter config.arySize other vc.1 = address
        · have different :
              (linkedPort config.arySize other vc.1, vc.2) ≠ (i, v) := by
            intro equal
            have ports := congrArg Prod.fst equal
            have channels := congrArg Prod.snd equal
            exact here ⟨Prod.ext same ports, channels⟩
          rw [same, itself, tagged, if_neg different, List.nil_append]
        · rw [elsewhere _ same]
      · simp only [Event.wireTo, ite_eq_right_iff, reduceCtorEq, imp_false]
        rintro ⟨sameRouter, samePort, sameV⟩
        refine here ⟨?_, sameV.symm⟩
        rw [← sameRouter, ← samePort]
        exact proper
  refine ⟨?_, ?_, ?_, ?_⟩
  · intro other target
    rw [samePassedTo]
    exact inv.passed other target
  · intro event member src des pc vc flit' isWire
    rw [queue, mem_enqueue] at member
    rcases member with rfl | old
    · cases isWire
      exact ⟨proper.linked, outer, located⟩
    · exact inv.flying event old src des pc vc flit' isWire
  · intro other vc notInjection otherProper
    have before := inv.fifo other vc notInjection otherProper
    rw [List.append_assoc, ← newWires other vc otherProper,
      ← List.append_assoc] at before
    unfold Sim.passedOver at before ⊢
    rw [samePassedTo, sameArrivals]
    exact before
  · intro other vc notInjection improper
    rw [sameArrivals]
    exact inv.silent other vc notInjection improper

end Links

end ChipletSniper.Popnet
