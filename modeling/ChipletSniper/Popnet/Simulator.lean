import Mathlib.Algebra.Order.Ring.Int
import ChipletSniper.Library.Queue
import ChipletSniper.Popnet.Histories

/-!
# The simulator

The events of the message queue are handled in the order of their times.  A
`ROUTER_` event runs the five stages of every router; the model takes one
stage at a time, so that the states between the stages can be observed.
-/

namespace ChipletSniper.Popnet

open Library Relation

variable {Time : Type}

/-! ## Addresses of routers -/

section Addresses

/-- The address of router `i` of `inter_network_`: the constructor of
`sim_foundation` counts with the last coordinate running fastest. -/
def addressAt (arySize : Nat) : Nat → Nat → Addr
  | 0, _ => []
  | cubeSize + 1, i =>
      addressAt arySize cubeSize (i / arySize) ++ [((i % arySize : Nat) : ℤ)]

namespace Config

variable (config : Config)

/-- `router_counter_`. -/
def routerCounter : Nat :=
  config.arySize ^ config.cubeSize

/-- The routers in the order of `inter_network_`. -/
def addresses : List Addr :=
  (List.range config.routerCounter).map
    (addressAt config.arySize config.cubeSize)

/-- The index that `sim_foundation::router` computes. -/
def routerIndex (address : Addr) : ℤ :=
  address.foldl (fun i x => i * config.arySize + x) 0

/-- `sim_foundation::router`, by the address of the router found. -/
def router (address : Addr) : Except Halt Addr :=
  let i := config.routerIndex address
  if 0 ≤ i ∧ i < config.routerCounter then
    .ok (addressAt config.arySize config.cubeSize i.toNat)
  else .error .outOfRange

/-- The index of an address and the address at the index. -/
theorem addressAt_routerIndex (address : Addr)
    (inside : ∀ x ∈ address, 0 ≤ x ∧ x < (config.arySize : ℤ)) :
    0 ≤ config.routerIndex address ∧
      config.routerIndex address <
        ((config.arySize ^ address.length : ℕ) : ℤ) ∧
      addressAt config.arySize address.length
        (config.routerIndex address).toNat = address := by
  induction address using List.reverseRecOn with
  | nil => exact ⟨Int.le_refl 0, by simp [routerIndex], rfl⟩
  | append_singleton front x ih =>
      obtain ⟨nonneg, below, same⟩ := ih fun y member =>
        inside y (List.mem_append_left _ member)
      obtain ⟨lower, upper⟩ :=
        inside x (List.mem_append_right _ (List.mem_singleton_self x))
      have index : config.routerIndex (front ++ [x]) =
          config.routerIndex front * config.arySize + x := by
        simp [routerIndex]
      obtain ⟨i, iIs⟩ := Int.eq_ofNat_of_zero_le nonneg
      obtain ⟨k, kIs⟩ := Int.eq_ofNat_of_zero_le lower
      rw [iIs] at index below same
      rw [kIs] at index upper
      have small : k < config.arySize := by exact_mod_cast upper
      have bound : i < config.arySize ^ front.length := by
        exact_mod_cast below
      have whole : config.routerIndex (front ++ [x]) =
          ((i * config.arySize + k : ℕ) : ℤ) := by
        rw [kIs, index]
        push_cast
        rfl
      have quotient : (i * config.arySize + k) / config.arySize = i := by
        rw [Nat.mul_comm, Nat.mul_add_div (by omega),
          Nat.div_eq_of_lt small, Nat.add_zero]
      have remainder : (i * config.arySize + k) % config.arySize = k := by
        rw [Nat.mul_comm, Nat.mul_add_mod, Nat.mod_eq_of_lt small]
      rw [whole, List.length_append, List.length_singleton]
      refine ⟨Int.natCast_nonneg _, ?_, ?_⟩
      · have room : i * config.arySize + k <
            config.arySize ^ (front.length + 1) := by
          calc i * config.arySize + k
              < i * config.arySize + config.arySize := by omega
            _ = (i + 1) * config.arySize := by
                rw [Nat.add_mul, Nat.one_mul]
            _ ≤ config.arySize ^ front.length * config.arySize :=
                Nat.mul_le_mul_right _ bound
            _ = config.arySize ^ (front.length + 1) := (pow_succ _ _).symm
        exact_mod_cast room
      · rw [Int.toNat_natCast, addressAt, quotient, remainder, kIs]
        rw [Int.toNat_natCast] at same
        rw [same]

theorem router_of_valid {address : Addr}
    (valid : validAddress config.arySize config.cubeSize address = true) :
    config.router address = .ok address := by
  simp only [validAddress, Bool.and_eq_true, beq_iff_eq, List.all_eq_true,
    Bool.not_eq_true', Bool.or_eq_false_iff, decide_eq_false_iff_not,
    Int.not_le, Int.not_lt] at valid
  obtain ⟨length, inside⟩ := valid
  obtain ⟨nonneg, below, same⟩ :=
    config.addressAt_routerIndex address fun x member =>
      ⟨(inside x member).2, (inside x member).1⟩
  rw [length] at below same
  rw [router, if_pos ⟨nonneg, below⟩, same]

theorem mem_addresses_of_router {des address : Addr}
    (found : config.router des = .ok address) :
    address ∈ config.addresses := by
  unfold router at found
  dsimp only at found
  split at found
  case isFalse => cases found
  case isTrue bound =>
    have same : addressAt config.arySize config.cubeSize
        (config.routerIndex des).toNat = address := by
      simpa using found
    refine List.mem_map.mpr ⟨_, List.mem_range.mpr ?_, same⟩
    omega

theorem valid_of_mem_addresses (positive : 0 < config.arySize)
    {address : Addr} (listed : address ∈ config.addresses) :
    validAddress config.arySize config.cubeSize address = true := by
  obtain ⟨i, _, rfl⟩ := List.mem_map.mp listed
  suffices inside : ∀ cubeSize i,
      validAddress config.arySize cubeSize
        (addressAt config.arySize cubeSize i) = true from inside _ _
  intro cubeSize
  induction cubeSize with
  | zero => exact fun _ => rfl
  | succ cubeSize ih =>
      intro i
      have front := ih (i / config.arySize)
      have last := Nat.mod_lt i positive
      simp only [validAddress, Bool.and_eq_true, beq_iff_eq] at front ⊢
      rw [addressAt, List.length_append, List.all_append, front.1, front.2]
      simp
      omega

end Config

end Addresses

/-! ## State -/

/-- `mess_queue` and `sim_foundation`.  `trace` is the unread part of the
trace file, the time of its first record having been read.  In the middle of a
`ROUTER_` event `agenda` lists the routers that are still to run, the first of
them from `stage` on. -/
structure Sim (Time : Type) where
  network : Addr → Router Time
  queue : List (Event Time)
  currentTime : Time
  totalFinished : Nat
  trace : List (Record Time)
  rng : Rng
  agenda : List Addr
  stage : Stage

namespace Sim

variable [LinearOrder Time]

/-- `add_message`. -/
def addMessage (sim : Sim Time) (event : Event Time) : Sim Time :=
  { sim with queue := enqueue Event.time event sim.queue }

omit [LinearOrder Time] in
/-- Replaces a router. -/
def setRouter (sim : Sim Time) (address : Addr) (router : Router Time) :
    Sim Time :=
  { sim with network := Function.update sim.network address router }

/-- The state at the start of `simulator`; `time` is `TIME_0`, `trace` the
trace file and `files` the local trace files of the routers. -/
def start (config : Config) (time : Time) (trace : List (Record Time))
    (files : Addr → List (Record Time)) (rng : Rng) : Sim Time where
  network := fun address => Router.start config address (files address)
  queue :=
    enqueue Event.time ⟨(trace.head?.map Record.time).getD time, .evg⟩
      [⟨time, .router⟩]
  currentTime := time
  totalFinished := 0
  trace := trace
  rng := rng
  agenda := []
  stage := .flitTraversal

omit [LinearOrder Time] in
/-- A router begins to work. -/
def work (sim : Sim Time) (address : Addr) : Work Time :=
  ⟨sim.network address, [], sim.rng, sim.totalFinished⟩

/-- A router has worked: its events are added to the queue. -/
def absorb (sim : Sim Time) (address : Addr) (work : Work Time) : Sim Time :=
  { sim with
    network := Function.update sim.network address work.router
    queue := enqueueAll Event.time work.emitted sim.queue
    totalFinished := work.totalFinished
    rng := work.rng }

variable (config : Config) (clock : Clock Time)

/-- `receive_EVG_message`. -/
def receiveEVGMessage (sim : Sim Time) : Except Halt (Sim Time) :=
  match sim.trace with
  | [] => .error .endOfTrace
  | record :: rest => do
      let address ← config.router record.sorAddr
      let router ←
        receivePacket config clock sim.currentTime (sim.network address)
      let received := { sim.setRouter address router with trace := rest }
      match rest with
      | [] => .ok received
      | next :: _ => .ok (received.addMessage ⟨next.time, .evg⟩)

/-- `receive_ROUTER_message`, up to the loop over the routers. -/
def receiveROUTERMessage (sim : Sim Time) : Sim Time :=
  { sim.addMessage ⟨clock.pipe sim.currentTime, .router⟩ with
    agenda := config.addresses
    stage := .flitTraversal }

omit [LinearOrder Time] in
/-- `receive_WIRE_message`. -/
def receiveWIREMessage (sim : Sim Time) (des : Addr) (pc vc : Nat)
    (flit : Flit Time) : Except Halt (Sim Time) := do
  let address ← config.router des
  if config.InRange (pc, vc) then
    .ok (sim.setRouter address
      (receiveFlit (sim.network address) (pc, vc) flit))
  else .error .outOfRange

omit [LinearOrder Time] in
/-- `receive_CREDIT_message`. -/
def receiveCREDITMessage (sim : Sim Time) (des : Addr) (pc vc : Nat) :
    Except Halt (Sim Time) := do
  let address ← config.router des
  if config.InRange (pc, vc) then
    .ok (sim.setRouter address (receiveCredit (sim.network address) (pc, vc)))
  else .error .outOfRange

/-- The body of the loop of `simulator`, after the event was removed. -/
def receive (sim : Sim Time) (mess : Mess Time) : Except Halt (Sim Time) :=
  match mess with
  | .evg => sim.receiveEVGMessage config clock
  | .router => .ok (sim.receiveROUTERMessage config clock)
  | .wire _ des pc vc flit => sim.receiveWIREMessage config des pc vc flit
  | .credit _ des pc vc => sim.receiveCREDITMessage config des pc vc

/-- One turn of the loop of `simulator`. -/
def handle (simLength : Time) (sim : Sim Time) : Except Halt (Sim Time) :=
  match sim.queue with
  | [] => .error .finished
  | event :: rest =>
      if simLength < sim.currentTime then .error .finished
      else if clock.slack event.time < sim.currentTime then .error .pastEvent
      else
        { sim with queue := rest, currentTime := event.time }.receive config
          clock event.mess

omit [LinearOrder Time] in
/-- The first router of the agenda has run its stage. -/
def advance (sim : Sim Time) : Sim Time :=
  match sim.stage.next with
  | some stage => { sim with stage := stage }
  | none => { sim with agenda := sim.agenda.tail, stage := .flitTraversal }

/-- One step: the next stage of a `ROUTER_` event, or the next event. -/
def step (simLength : Time) (sim : Sim Time) : Except Halt (Sim Time) :=
  match sim.agenda with
  | [] => sim.handle config clock simLength
  | address :: _ => do
      let work ←
        sim.stage.run config clock sim.currentTime (sim.work address)
      .ok (sim.absorb address work).advance

/-- The states that are reached from the start. -/
def Reachable (simLength time : Time) (trace : List (Record Time))
    (files : Addr → List (Record Time)) (rng : Rng) : Sim Time → Prop :=
  ReflTransGen (fun sim next => sim.step config clock simLength = .ok next)
    (start config time trace files rng)

/-- The states that are reached from the start by runs in which a condition
holds before every step. -/
def ReachableWhile (Condition : Sim Time → Prop) (simLength time : Time)
    (trace : List (Record Time)) (files : Addr → List (Record Time))
    (rng : Rng) : Sim Time → Prop :=
  ReflTransGen
    (fun sim next =>
      Condition sim ∧ sim.step config clock simLength = .ok next)
    (start config time trace files rng)

end Sim

/-! ## Elementary moves of the network -/

section Moves

variable [LinearOrder Time] (config : Config) (clock : Clock Time)
variable (Allowed : Addr → VC → Prop)

/-- What happens in the network, in the smallest steps, if flits are passed to
allowed outputs only. -/
inductive NetMove : Sim Time → Sim Time → Prop
  /-- A router makes a move during a `ROUTER_` event. -/
  | work (sim : Sim Time) (address : Addr) (after : Work Time) :
      sim.agenda ≠ [] → address ∈ config.addresses →
      Move config clock sim.currentTime (sim.work address) after →
      (∀ out, after.router.passedTo out ≠
        (sim.network address).passedTo out → Allowed address out) →
      NetMove sim (sim.absorb address after)
  /-- A router has run a stage. -/
  | advance (sim : Sim Time) (agenda : List Addr) (stage : Stage) :
      sim.agenda ≠ [] →
      NetMove sim { sim with agenda := agenda, stage := stage }
  /-- A router reads a record of its trace file. -/
  | read (sim : Sim Time) (address : Addr) (record : Record Time)
      (rest : List (Record Time)) :
      address ∈ config.addresses →
      (sim.network address).pending = record :: rest →
      record.Admitted config →
      NetMove sim
        (sim.setRouter address
          (readRecord config none (sim.network address) record rest))
  /-- The trace file is read. -/
  | readTrace (sim : Sim Time) (trace : List (Record Time)) :
      NetMove sim { sim with trace := trace }
  /-- An `EVG_` event is added. -/
  | announce (sim : Sim Time) (time : Time) :
      NetMove sim (sim.addMessage ⟨time, .evg⟩)
  /-- An `EVG_` event is removed. -/
  | evg (sim : Sim Time) (time : Time) (rest : List (Event Time)) :
      sim.agenda = [] → sim.queue = ⟨time, .evg⟩ :: rest →
      NetMove sim { sim with queue := rest, currentTime := time }
  /-- A `ROUTER_` event. -/
  | router (sim : Sim Time) (time : Time) (rest : List (Event Time)) :
      sim.agenda = [] → sim.queue = ⟨time, .router⟩ :: rest →
      NetMove sim
        ({ sim with queue := rest, currentTime := time }.receiveROUTERMessage
          config clock)
  /-- A flit arrives. -/
  | wire (sim : Sim Time) (time : Time) (src des : Addr) (pc vc : Nat)
      (flit : Flit Time) (rest : List (Event Time)) (address : Addr) :
      sim.agenda = [] → sim.queue = ⟨time, .wire src des pc vc flit⟩ :: rest →
      config.router des = .ok address → config.InRange (pc, vc) →
      NetMove sim
        ({ sim with queue := rest, currentTime := time }.setRouter address
          (receiveFlit (sim.network address) (pc, vc) flit))
  /-- A credit arrives. -/
  | credit (sim : Sim Time) (time : Time) (src des : Addr) (pc vc : Nat)
      (rest : List (Event Time)) (address : Addr) :
      sim.agenda = [] → sim.queue = ⟨time, .credit src des pc vc⟩ :: rest →
      config.router des = .ok address → config.InRange (pc, vc) →
      NetMove sim
        ({ sim with queue := rest, currentTime := time }.setRouter address
          (receiveCredit (sim.network address) (pc, vc)))

abbrev NetMoves : Sim Time → Sim Time → Prop :=
  ReflTransGen (NetMove config clock Allowed)

end Moves

section Decomposition

variable [LinearOrder Time] {config : Config} {clock : Clock Time}
variable {now : Time} {Allowed : Addr → VC → Prop}

theorem returnCredit_fresh (config : Config) (clock : Clock Time)
    (now : Time) (work : Work Time) (vc : VC) :
    ∃ added,
      (returnCredit config clock now work vc).emitted =
        work.emitted ++ added ∧
      returnCredit config clock now { work with emitted := [] } vc =
        { returnCredit config clock now work vc with emitted := added } := by
  unfold returnCredit
  dsimp only
  split
  · exact ⟨[], (List.append_nil _).symm, rfl⟩
  · split
    · exact ⟨_, rfl, rfl⟩
    · exact ⟨[], (List.append_nil _).symm, rfl⟩

/-- A move does not depend on the events that were added before it. -/
theorem Move.fresh {work after : Work Time}
    (move : Move config clock now work after) :
    ∃ added, after.emitted = work.emitted ++ added ∧
      Move config clock now { work with emitted := [] }
        { after with emitted := added } := by
  cases move with
  | draw rng => exact ⟨[], (List.append_nil _).symm, .draw _ rng⟩
  | traverse i first last =>
      have fresh : Move config clock now _ _ :=
        Move.traverse { work with emitted := [] } i first last
      unfold flitTraversalPort at fresh ⊢
      dsimp only at fresh ⊢
      split at fresh
      · exact ⟨[], (List.append_nil _).symm, fresh⟩
      · exact ⟨_, rfl, fresh⟩
  | send vc out flit rest inRange state crouting buffered =>
      have fresh : Move config clock now _ _ :=
        Move.send { work with emitted := [] } vc out flit rest inRange state
          crouting buffered
      dsimp only at fresh ⊢
      split at fresh
      case isTrue injection =>
        rw [if_pos injection]
        exact ⟨[], (List.append_nil _).symm, fresh⟩
      case isFalse outer =>
        rw [if_neg outer]
        exact ⟨_, rfl, fresh⟩
  | reopen => exact ⟨[], (List.append_nil _).symm, .reopen _⟩
  | read held record rest pending admitted =>
      exact ⟨[], (List.append_nil _).symm,
        .read _ held record rest pending admitted⟩
  | grantSwitch vc out inRange state crouting credit room nonempty alone =>
      exact ⟨[], (List.append_nil _).symm,
        .grantSwitch _ vc out inRange state crouting credit room nonempty
          alone⟩
  | grantChannel vc out inRange outInRange outward state candidate free =>
      exact ⟨[], (List.append_nil _).symm,
        .grantChannel _ vc out inRange outInRange outward state candidate
          free⟩
  | route vc flit rest inRange state buffered away =>
      exact ⟨[], (List.append_nil _).symm,
        .route _ vc flit rest inRange state buffered away⟩
  | acceptFirst vc flit rest inRange state buffered home =>
      have fresh : Move config clock now _ _ :=
        Move.acceptFirst { work with emitted := [] } vc flit rest inRange
          state buffered home
      obtain ⟨added, emitted, same⟩ :=
        returnCredit_fresh config clock now work vc
      rw [same] at fresh
      exact ⟨added, emitted, fresh⟩
  | acceptNext vc flit rest inRange state buffered further =>
      have fresh : Move config clock now _ _ :=
        Move.acceptNext { work with emitted := [] } vc flit rest inRange
          state buffered further
      obtain ⟨added, emitted, same⟩ :=
        returnCredit_fresh config clock now work vc
      rw [same] at fresh
      exact ⟨added, emitted, fresh⟩
  | strayCredit vc flit rest inRange outer routing home buffered atHome =>
      exact ⟨_, rfl,
        .strayCredit _ vc flit rest inRange outer routing home buffered
          atHome⟩

theorem absorb_absorb (sim : Sim Time) (address : Addr)
    (work after : Work Time) {added : List (Event Time)}
    (emitted : after.emitted = work.emitted ++ added) :
    (sim.absorb address work).absorb address
        { after with emitted := added } =
      sim.absorb address after := by
  simp [Sim.absorb, emitted, enqueueAll_append]

theorem absorb_work (sim : Sim Time) (address : Addr) :
    sim.absorb address (sim.work address) = sim := by
  simp [Sim.absorb, Sim.work]

/-- The moves of a router are moves of the network. -/
theorem netMoves_of_moves {sim : Sim Time} {address : Addr}
    (running : sim.agenda ≠ []) (listed : address ∈ config.addresses)
    {after : Work Time}
    (moves : Moves config clock sim.currentTime (sim.work address) after)
    (allowed : ∀ out, after.router.passedTo out ≠
      (sim.network address).passedTo out → Allowed address out) :
    NetMoves config clock Allowed sim (sim.absorb address after) := by
  induction moves with
  | refl =>
      rw [absorb_work]
  | @tail middle last earlier move ih =>
      -- what was passed before the last move, or in it, is not lost
      have first : ∀ out, (sim.network address).passedTo out <+:
          middle.router.passedTo out :=
        passedTo_of_moves earlier
      have second := move.passedTo
      obtain ⟨added, emitted, fresh⟩ := move.fresh
      refine (ih ?_).tail ?_
      · intro out changed
        refine allowed out ?_
        intro same
        refine changed ((first out).eq_of_length_le ?_).symm
        rw [← same]
        exact (second out).length_le
      · rw [← absorb_absorb sim address _ _ emitted]
        refine NetMove.work _ address _ running listed ?_ ?_
        · simpa [Sim.absorb, Sim.work] using fresh
        · intro out changed
          refine allowed out ?_
          intro same
          have whole : middle.router.passedTo out =
              last.router.passedTo out := by
            refine (second out).eq_of_length_le ?_
            rw [same]
            exact (first out).length_le
          simp [Sim.absorb, whole] at changed

omit [LinearOrder Time] in
theorem setRouter_setRouter (sim : Sim Time) (address : Addr)
    (first second : Router Time) :
    (sim.setRouter address first).setRouter address second =
      sim.setRouter address second := by
  simp [Sim.setRouter]

omit [LinearOrder Time] in
theorem setRouter_network (sim : Sim Time) (address : Addr)
    (router : Router Time) :
    (sim.setRouter address router).network address = router :=
  Function.update_self _ _ _

/-- The loop of `receive_packet` reads records. -/
theorem netMoves_of_receiveRecords (Allowed : Addr → VC → Prop)
    (sim : Sim Time) {address : Addr}
    (listed : address ∈ config.addresses) :
    ∀ {records : List (Record Time)} {router next : Router Time},
      receiveRecords config clock now records router = .ok next →
      NetMoves config clock Allowed
        (sim.setRouter address { router with pending := records })
        (sim.setRouter address next) := by
  intro records
  induction records with
  | nil =>
      intro router next run
      cases run
      exact ReflTransGen.refl
  | cons record rest ih =>
      intro router next run
      unfold receiveRecords at run
      split at run
      case isFalse =>
        cases run
        exact ReflTransGen.refl
      case isTrue =>
        obtain ⟨injected, taken, remaining⟩ := bind_eq_ok.mp run
        obtain ⟨admitted, shape⟩ := injectPacket_ok taken
        have same :
            { injected with pending := rest } =
              readRecord config none { router with pending := record :: rest }
                record rest := by
          rw [shape]
          unfold readRecord addPacketHolding
          split <;> rfl
        refine ReflTransGen.head ?_ (ih remaining)
        have read : NetMove config clock Allowed _ _ :=
          NetMove.read
            (sim.setRouter address { router with pending := record :: rest })
            address record rest listed (by rw [setRouter_network]) admitted
        rw [setRouter_network, setRouter_setRouter, ← same] at read
        exact read

theorem netMoves_of_receivePacket (Allowed : Addr → VC → Prop)
    {sim : Sim Time} {address : Addr} (listed : address ∈ config.addresses)
    {next : Router Time}
    (run : receivePacket config clock now (sim.network address) = .ok next) :
    NetMoves config clock Allowed sim (sim.setRouter address next) := by
  have moves := netMoves_of_receiveRecords Allowed sim listed run
  have unchanged : sim.setRouter address (sim.network address) = sim := by
    simp [Sim.setRouter]
  rwa [show { sim.network address with
    pending := (sim.network address).pending } = sim.network address from rfl,
    unchanged] at moves

/-! ## Steps -/

/-- If `flit_outbuffer` is the next step, it passes flits to allowed outputs
only: those that the channels in `SW_TR_` have chosen. -/
def Sim.PassesOnly (Allowed : Addr → VC → Prop) (sim : Sim Time) : Prop :=
  sim.stage = .flitOutbuffer → ∀ address ∈ sim.agenda.head?, ∀ vc out,
    ((sim.network address).input vc).state = .swTr →
    ((sim.network address).input vc).crouting = some out →
    Allowed address out

/-- Between events no stage is under way, and the switch of a router that is
about to arbitrate it is free. -/
structure Sim.Ready (config : Config) (sim : Sim Time) : Prop where
  listed : ∀ address ∈ sim.agenda, address ∈ config.addresses
  between : sim.agenda = [] → sim.stage = .flitTraversal
  free : sim.stage = .swArbitration →
    ∀ address ∈ sim.agenda.head?, SwitchFree config (sim.network address)

/-- Handling an event. -/
theorem netMoves_of_receive {sim next : Sim Time} {event : Event Time}
    {rest : List (Event Time)} (between : sim.agenda = [])
    (queue : sim.queue = event :: rest)
    (run : { sim with queue := rest, currentTime := event.time }.receive
      config clock event.mess = .ok next) :
    NetMoves config clock Allowed sim next := by
  obtain ⟨time, mess⟩ := event
  cases mess with
  | evg =>
      refine ReflTransGen.head (NetMove.evg sim time rest between queue) ?_
      unfold Sim.receive Sim.receiveEVGMessage at run
      dsimp only at run
      split at run
      case h_1 => cases run
      case h_2 record records _ =>
      obtain ⟨address, located, run⟩ := bind_eq_ok.mp run
      obtain ⟨router, packets, run⟩ := bind_eq_ok.mp run
      have reads :=
        netMoves_of_receivePacket Allowed
          (config.mem_addresses_of_router located)
          (show receivePacket config clock time
            (({ sim with queue := rest, currentTime := time } :
              Sim Time).network address) = .ok router from packets)
      refine reads.trans
        (ReflTransGen.head (NetMove.readTrace _ records) ?_)
      split at run
      · cases run
        exact ReflTransGen.refl
      · cases run
        exact ReflTransGen.single (NetMove.announce _ _)
  | router =>
      cases run
      exact ReflTransGen.single (NetMove.router sim time rest between queue)
  | wire src des pc vc flit =>
      obtain ⟨address, located, run⟩ := bind_eq_ok.mp run
      split at run
      case isFalse => cases run
      case isTrue inRange =>
        cases run
        exact ReflTransGen.single
          (NetMove.wire sim time src des pc vc flit rest address between queue
            located inRange)
  | credit src des pc vc =>
      obtain ⟨address, located, run⟩ := bind_eq_ok.mp run
      split at run
      case isFalse => cases run
      case isTrue inRange =>
        cases run
        exact ReflTransGen.single
          (NetMove.credit sim time src des pc vc rest address between queue
            located inRange)

/-- An event leaves the simulator between events or starts the routers. -/
theorem stage_of_receive {sim next : Sim Time} {mess : Mess Time}
    (between : sim.agenda = []) (stage : sim.stage = .flitTraversal)
    (run : sim.receive config clock mess = .ok next) :
    next.stage = .flitTraversal ∧
      ∀ address ∈ next.agenda, address ∈ config.addresses := by
  have nobody : ∀ address ∈ sim.agenda, address ∈ config.addresses := by
    rw [between]
    intro address member
    cases member
  cases mess with
  | evg =>
      unfold Sim.receive Sim.receiveEVGMessage at run
      dsimp only at run
      split at run
      case h_1 => cases run
      case h_2 =>
      obtain ⟨_, _, run⟩ := bind_eq_ok.mp run
      obtain ⟨_, _, run⟩ := bind_eq_ok.mp run
      split at run <;> cases run <;> exact ⟨stage, nobody⟩
  | router =>
      cases run
      exact ⟨rfl, fun address member => member⟩
  | wire _ des pc vc flit | credit _ des pc vc =>
      obtain ⟨_, _, run⟩ := bind_eq_ok.mp run
      split at run
      case isFalse => cases run
      case isTrue =>
        cases run
        exact ⟨stage, nobody⟩

/-- A step is a sequence of moves of the network. -/
theorem Sim.Ready.step {simLength : Time} {sim next : Sim Time}
    (ready : sim.Ready config) (allowed : sim.PassesOnly Allowed)
    (run : sim.step config clock simLength = .ok next) :
    next.Ready config ∧ NetMoves config clock Allowed sim next := by
  unfold Sim.step at run
  split at run
  case h_1 between =>
    unfold Sim.handle at run
    split at run
    case h_1 => cases run
    case h_2 event rest queue =>
    split_ifs at run
    obtain ⟨stage, listed⟩ : next.stage = .flitTraversal ∧
        ∀ address ∈ next.agenda, address ∈ config.addresses := by
      refine stage_of_receive ?_ ?_ run
      · exact between
      · exact ready.between between
    refine ⟨⟨listed, fun _ => stage, ?_⟩,
      netMoves_of_receive between queue run⟩
    rw [stage]
    intro impossible
    cases impossible
  case h_2 address rest agenda =>
    have running : sim.agenda ≠ [] := by simp [agenda]
    obtain ⟨after, ran, run⟩ := bind_eq_ok.mp run
    cases run
    have free : sim.stage = .swArbitration →
        SwitchFree config (sim.work address).router :=
      fun atSwitch => ready.free atSwitch address (by simp [agenda])
    have itsTurn : address ∈ config.addresses :=
      ready.listed address (by simp [agenda])
    have moves :
        NetMoves config clock Allowed sim (sim.absorb address after) := by
      refine netMoves_of_moves running itsTurn (moves_stage free ran) ?_
      intro out changed
      obtain ⟨sending, vc, busy, crouting⟩ := stage_passes ran out changed
      exact allowed sending address (by simp [agenda]) vc out busy crouting
    have itself : (sim.absorb address after).network address =
        after.router :=
      Function.update_self _ _ _
    have sameStage : (sim.absorb address after).stage = sim.stage := rfl
    have busy : (sim.absorb address after).agenda ≠ [] := running
    unfold Sim.advance
    rw [sameStage]
    cases stage : sim.stage with
    | routingDecision =>
        refine ⟨⟨?_, fun _ => rfl, fun impossible => by cases impossible⟩,
          moves.tail (NetMove.advance _ _ _ busy)⟩
        intro other member
        exact ready.listed other (List.mem_of_mem_tail member)
    | flitOutbuffer =>
        rw [stage] at ran
        refine ⟨⟨ready.listed, fun empty => absurd empty busy, ?_⟩,
          moves.tail (NetMove.advance _ _ _ busy)⟩
        intro _ other first
        have same : sim.agenda.head? = some other := first
        rw [agenda, List.head?_cons, Option.some.injEq] at same
        rw [← same]
        exact itself ▸ switchFree_flitOutbuffer ran
    | flitTraversal | swArbitration | vcArbitration =>
        refine ⟨⟨ready.listed, fun empty => absurd empty busy,
            fun impossible => by cases impossible⟩,
          moves.tail (NetMove.advance _ _ _ busy)⟩

theorem ready_start {time : Time} {trace : List (Record Time)}
    {files : Addr → List (Record Time)} {rng : Rng} :
    (Sim.start config time trace files rng).Ready config := by
  refine ⟨?_, fun _ => rfl, fun impossible => by cases impossible⟩
  intro address member
  cases member

/-- The states between the stages of every run that passes flits to allowed
outputs only are reached by moves. -/
theorem netMoves_of_reachable {simLength time : Time}
    {trace : List (Record Time)} {files : Addr → List (Record Time)}
    {rng : Rng} {sim : Sim Time}
    (reached : Sim.ReachableWhile config clock (Sim.PassesOnly Allowed)
      simLength time trace files rng sim) :
    sim.Ready config ∧
      NetMoves config clock Allowed (Sim.start config time trace files rng)
        sim := by
  refine invariant_of_reflTransGen
    (fun sim => sim.Ready config ∧
      NetMoves config clock Allowed (Sim.start config time trace files rng)
        sim)
    ?_ ⟨ready_start, ReflTransGen.refl⟩ reached
  rintro before after ⟨ready, moves⟩ ⟨allowed, step⟩
  obtain ⟨readyAfter, further⟩ := ready.step allowed step
  exact ⟨readyAfter, moves.trans further⟩

end Decomposition

end ChipletSniper.Popnet
