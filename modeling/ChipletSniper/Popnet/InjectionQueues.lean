import Mathlib.Data.List.Chain
import ChipletSniper.Popnet.Accounting
import ChipletSniper.Popnet.Injection

/-!
# The queues of the injection port

The injection channels hold whole packets, in the order of the local trace
file.  Packets for the router itself are accepted in `routing_decision`, all
others leave through `flit_outbuffer`.
-/

namespace ChipletSniper.Popnet

open Library Relation Function

variable {Time : Type}

/-! ## Queues of whole packets -/

/-- The flits up to the next tail go to the same router, and the last packet
is complete. -/
def Whole (buffer : List (Flit Time)) : Prop :=
  buffer.IsChain (fun flit next =>
      isTail flit.type = true ∨ next.desAddr = flit.desAddr) ∧
    ∀ last ∈ buffer.getLast?, isTail last.type = true

theorem Whole.tail {flit : Flit Time} {rest : List (Flit Time)}
    (whole : Whole (flit :: rest)) : Whole rest := by
  refine ⟨whole.1.tail, ?_⟩
  intro last isLast
  refine whole.2 last ?_
  cases rest with
  | nil => cases isLast
  | cons => exact isLast

/-- A packet goes on behind a flit that is not its tail. -/
theorem Whole.next {flit : Flit Time} {rest : List (Flit Time)}
    (whole : Whole (flit :: rest)) (further : isTail flit.type = false) :
    ∃ next ∈ rest.head?, next.desAddr = flit.desAddr := by
  cases rest with
  | nil =>
      have closed := whole.2 flit rfl
      rw [further] at closed
      cases closed
  | cons next rest =>
      refine ⟨next, rfl, ?_⟩
      have chained := (List.isChain_cons.mp whole.1).1 next rfl
      rw [further] at chained
      exact chained.resolve_left (by simp)

theorem Whole.append {first second : List (Flit Time)}
    (wholeFirst : Whole first) (wholeSecond : Whole second) :
    Whole (first ++ second) := by
  refine ⟨List.isChain_append.mpr ⟨wholeFirst.1, wholeSecond.1, ?_⟩, ?_⟩
  · intro last isLast next _
    exact Or.inl (wholeFirst.2 last isLast)
  · intro last isLast
    rw [List.getLast?_append, Option.mem_def, Option.or_eq_some_iff] at isLast
    rcases isLast with inSecond | ⟨_, inFirst⟩
    · exact wholeSecond.2 last inSecond
    · exact wholeFirst.2 last inFirst

theorem whole_packetFlits (origin : Addr) (a : Nat) (b c : Addr) (d : Time)
    (e : Nat) : Whole (packetFlits origin a b c d e) := by
  refine ⟨?_, ?_⟩
  · refine (List.isChain_map _).mpr
      (List.Pairwise.isChain (List.pairwise_of_forall ?_))
    intro l k
    exact Or.inr rfl
  · intro last isLast
    cases e with
    | zero => cases isLast
    | succ e =>
        unfold packetFlits at isLast
        rw [List.range_succ, List.map_append, List.map_singleton,
          List.getLast?_concat, Option.mem_some_iff] at isLast
        rw [← isLast]
        show isTail (flitType (e + 1) e) = true
        rw [isTail_flitType (Nat.lt_succ_self e)]
        simp

/-! ## The records that were read -/

/-- The flits of the packets of some records, injected in their order. -/
def injectedFlits (address : Addr) (records : List (Record Time)) :
    List (Flit Time) :=
  records.zipIdx.flatMap fun (record, i) =>
    packetFlits address i record.sorAddr record.desAddr record.time
      record.packSize.toNat

theorem injectedFlits_snoc (address : Addr) (records : List (Record Time))
    (record : Record Time) :
    injectedFlits address (records ++ [record]) =
      injectedFlits address records ++
        packetFlits address records.length record.sorAddr record.desAddr
          record.time record.packSize.toNat := by
  simp [injectedFlits, List.zipIdx_append]

/-- What holds at the injection port of the router at `address` with the local
trace file `file`. -/
structure QueueInv (address : Addr) (file : List (Record Time))
    (router : Router Time) : Prop where
  located : router.address = address
  whole : ∀ j, Whole (router.input (0, j)).buffer
  /-- A packet is accepted only by the router it goes to. -/
  home : ∀ j, (router.input (0, j)).state = .home →
    ∃ flit ∈ (router.input (0, j)).buffer.head?, flit.desAddr = address
  accepted : ∀ j, ∀ flit ∈ router.acceptedAt (0, j), flit.desAddr = address
  read : ∃ consumed, file = consumed ++ router.pending ∧
    router.packetCounter = consumed.length ∧
    router.injected = injectedFlits address consumed

theorem queueInv_start (config : Config) (address : Addr)
    (file : List (Record Time)) :
    QueueInv address file (Router.start config address file) where
  located := rfl
  whole := fun _ => ⟨List.isChain_nil, fun _ nobody => by cases nobody⟩
  home := fun _ atHome => by cases atHome
  accepted := fun _ _ nobody => by cases nobody
  read := ⟨[], rfl, rfl, rfl⟩

section Moves

variable {config : Config} {address : Addr} {file : List (Record Time)}
variable {router next : Router Time}

/-- One channel changes. -/
theorem QueueInv.of_channel (inv : QueueInv address file router) {vc : VC}
    {channel : InputVC Time}
    (sameAddress : next.address = router.address)
    (input : next.input = update router.input vc channel)
    (injection : vc.1 = 0 → Whole channel.buffer ∧
      (channel.state = .home →
        ∃ flit ∈ channel.buffer.head?, flit.desAddr = address))
    (accepted : ∀ j, ∀ flit ∈ next.acceptedAt (0, j),
      flit ∈ router.acceptedAt (0, j) ∨ flit.desAddr = address)
    (pending : next.pending = router.pending)
    (packetCounter : next.packetCounter = router.packetCounter)
    (injected : next.injected = router.injected) :
    QueueInv address file next := by
  refine ⟨sameAddress.trans inv.located, ?_, ?_, ?_, ?_⟩
  · intro j
    rw [input]
    by_cases same : ((0, j) : VC) = vc
    · rw [same, update_self]
      exact (injection (congrArg Prod.fst same).symm).1
    · rw [update_of_ne same]
      exact inv.whole j
  · intro j
    rw [input]
    by_cases same : ((0, j) : VC) = vc
    · rw [same, update_self]
      exact (injection (congrArg Prod.fst same).symm).2
    · rw [update_of_ne same]
      exact inv.home j
  · intro j flit member
    exact (accepted j flit member).elim (inv.accepted j flit) id
  · rw [pending, packetCounter, injected]
    exact inv.read

/-- No channel changes. -/
theorem QueueInv.of_same (inv : QueueInv address file router)
    (sameAddress : next.address = router.address)
    (input : next.input = router.input) (log : next.log = router.log)
    (pending : next.pending = router.pending)
    (packetCounter : next.packetCounter = router.packetCounter) :
    QueueInv address file next := by
  have unchanged : next.input =
      update router.input (1, 0) (router.input (1, 0)) := by
    rw [input, update_eq_self]
  refine inv.of_channel sameAddress unchanged ?_ ?_ pending packetCounter ?_
  · intro impossible
    cases impossible
  · intro j flit member
    rw [Router.acceptedAt, log] at member
    exact Or.inl member
  · rw [Router.injected, log, Router.injected]

/-- One channel changes, and no flit is injected or accepted. -/
theorem QueueInv.of_buffer (inv : QueueInv address file router) {vc : VC}
    {channel : InputVC Time} {notes : List (Note Time)}
    (sameAddress : next.address = router.address)
    (input : next.input = update router.input vc channel)
    (injection : vc.1 = 0 → Whole channel.buffer ∧ channel.state ≠ .home)
    (log : next.log = router.log ++ notes)
    (silent : notes.filterMap Note.injection = [] ∧
      ∀ j, notes.filterMap (Note.acceptance (0, j)) = [])
    (pending : next.pending = router.pending)
    (packetCounter : next.packetCounter = router.packetCounter) :
    QueueInv address file next := by
  refine inv.of_channel sameAddress input ?_ ?_ pending packetCounter ?_
  · intro isInjection
    obtain ⟨whole, away⟩ := injection isInjection
    exact ⟨whole, fun atHome => absurd atHome away⟩
  · intro j flit member
    rw [acceptedAt_of_log log, silent.2, List.append_nil] at member
    exact Or.inl member
  · rw [Router.injected, log, List.filterMap_append, silent.1,
      List.append_nil, Router.injected]

/-- The first flit of a channel is accepted. -/
theorem QueueInv.accept (inv : QueueInv address file router) {vc : VC}
    {flit : Flit Time} {rest : List (Flit Time)} {state : VCState}
    (buffered : (router.input vc).buffer = flit :: rest)
    (forHere : vc.1 = 0 → flit.desAddr = address)
    (state_home : vc.1 = 0 → state = .home → isTail flit.type = false) :
    QueueInv address file
      ((router.setInput vc { router.input vc with
        buffer := rest, state := state }).record [.accepted vc flit]) := by
  have input : ((router.setInput vc { router.input vc with
      buffer := rest, state := state }).record [.accepted vc flit]).input =
      update router.input vc { router.input vc with
        buffer := rest, state := state } := rfl
  refine inv.of_channel rfl input ?_ ?_ rfl rfl ?_
  · intro injection
    have vcIs : vc = (0, vc.2) := Prod.ext injection rfl
    have whole : Whole (flit :: rest) := by
      rw [← buffered, vcIs]
      exact inv.whole vc.2
    refine ⟨whole.tail, ?_⟩
    intro atHome
    obtain ⟨next, isNext, same⟩ := whole.next (state_home injection atHome)
    exact ⟨next, isNext, same.trans (forHere injection)⟩
  · intro j other member
    have log : ((router.setInput vc { router.input vc with
        buffer := rest, state := state }).record [.accepted vc flit]).log =
        router.log ++ [.accepted vc flit] := rfl
    rw [acceptedAt_of_log log] at member
    rcases List.mem_append.mp member with old | new
    · exact Or.inl old
    · by_cases here : vc = (0, j)
      · simp only [Note.acceptance, List.filterMap_cons, here, if_true,
          List.filterMap_nil, List.mem_singleton] at new
        rw [new]
        exact Or.inr (forHere (by rw [here]))
      · simp [Note.acceptance, here] at new
  · simp [Router.injected, Router.record, Router.setInput, Note.injection]

theorem QueueInv.readRecord (inv : QueueInv address file router)
    {held : Option VC} {record : Record Time} {rest : List (Record Time)}
    (pending : router.pending = record :: rest) :
    QueueInv address file (readRecord config held router record rest) := by
  obtain ⟨consumed, whole, counted, injected⟩ := inv.read
  have read : ∃ consumed, file = consumed ++
        (Popnet.readRecord config held router record rest).pending ∧
      (Popnet.readRecord config held router record rest).packetCounter =
        consumed.length ∧
      (Popnet.readRecord config held router record rest).injected =
        injectedFlits address consumed := by
    refine ⟨consumed ++ [record], ?_, ?_, ?_⟩
    · rw [whole, pending, List.append_assoc]
      rfl
    · rw [List.length_append, ← counted]
      rfl
    · rw [injectedFlits_snoc, ← injected, ← counted, Router.injected,
        readRecord_log, List.filterMap_append, Router.injected]
      congr 1
      simp only [List.filterMap_map, comp_def, Note.injection,
        if_true, List.filterMap_some, recordFlits]
      split
      case isTrue empty =>
        rw [Int.toNat_of_nonpos empty]
        rfl
      case isFalse => rw [inv.located]
  have accepted : ∀ j, (Popnet.readRecord config held router record
      rest).acceptedAt (0, j) = router.acceptedAt (0, j) := by
    intro j
    rw [acceptedAt_of_log readRecord_log]
    simp [List.filterMap_map, comp_def, Note.acceptance]
  have located : (Popnet.readRecord config held router record rest).address =
      address := readRecord_same.2.2.1.trans inv.located
  refine ⟨located, ?_, ?_, fun j => accepted j ▸ inv.accepted j, read⟩
  · intro j
    unfold Popnet.readRecord addPacketHolding
    dsimp only
    split
    case isTrue => exact inv.whole j
    case isFalse =>
      simp only [Router.record, Router.setInput]
      by_cases same : ((0, j) : VC) = (0, shortestVC config router)
      · rw [same, update_self]
        exact (inv.whole _).append (whole_packetFlits _ _ _ _ _ _)
      · rw [update_of_ne same]
        exact inv.whole j
  · intro j
    unfold Popnet.readRecord addPacketHolding
    dsimp only
    split
    case isTrue => exact inv.home j
    case isFalse =>
      simp only [Router.record, Router.setInput]
      by_cases same : ((0, j) : VC) = (0, shortestVC config router)
      · rw [same, update_self]
        dsimp only
        intro atHome
        split at atHome
        case isTrue => cases atHome
        case isFalse =>
          obtain ⟨flit, first, forHere⟩ := inv.home _ atHome
          refine ⟨flit, ?_, forHere⟩
          rw [List.head?_append, Option.mem_def, Option.mem_def.mp first]
          rfl
      · rw [update_of_ne same]
        exact inv.home j

variable [LinearOrder Time] {clock : Clock Time} {now : Time}
variable {work after : Work Time}

omit [LinearOrder Time] in
theorem stateAfterSend_ne_home (inSize : Nat) (type : FlitType) :
    stateAfterSend inSize type ≠ .home := by
  unfold stateAfterSend
  split
  · split <;> simp
  · simp

omit [LinearOrder Time] in
theorem stateAfterPacket_ne_home (rest : List (Flit Time)) :
    stateAfterPacket rest ≠ .home := by
  unfold stateAfterPacket
  split <;> simp

/-- Every move keeps the invariant of the injection port. -/
theorem QueueInv.move (inv : QueueInv address file work.router)
    (move : Move config clock now work after) :
    QueueInv address file after.router := by
  have queue : ∀ {vc : VC}, vc.1 = 0 →
      Whole (work.router.input vc).buffer := by
    intro vc injection
    have vcIs : vc = (0, vc.2) := Prod.ext injection rfl
    rw [vcIs]
    exact inv.whole vc.2
  cases move with
  | draw | strayCredit => exact inv
  | traverse i =>
      unfold flitTraversalPort
      dsimp only
      split
      · exact inv
      · exact inv.of_same rfl rfl rfl rfl rfl
  | send vc out flit rest inRange state crouting buffered =>
      refine inv.of_buffer afterSend_address afterSend_input ?_ afterSend_log
        ⟨rfl, fun _ => rfl⟩ afterSend_pending ?_
      · intro injection
        have whole := queue injection
        rw [buffered] at whole
        exact ⟨whole.tail, stateAfterSend_ne_home _ _⟩
      · show (finishSend _ vc out flit.type _).packetCounter = _
        unfold finishSend
        split <;> rfl
  | reopen => exact inv.of_same rfl rfl rfl rfl rfl
  | read held record rest pending _ => exact inv.readRecord pending
  | grantSwitch vc out inRange state =>
      refine inv.of_buffer rfl (stateUpdate_input _ _ _) ?_
        (List.append_nil _).symm ⟨rfl, fun _ => rfl⟩ rfl rfl
      exact fun injection => ⟨queue injection, by simp⟩
  | grantChannel vc out inRange outInRange outward state candidate free =>
      have input : (((work.router.setInput vc
          { work.router.input vc with
            state := .swAb
            crouting := some out }).acquire out vc).record
          [.granted vc out]).input =
          update work.router.input vc
            { work.router.input vc with
              state := .swAb
              crouting := some out } := rfl
      refine inv.of_buffer rfl input ?_ rfl ⟨rfl, fun _ => rfl⟩ rfl rfl
      exact fun injection => ⟨queue injection, by simp⟩
  | route vc flit rest inRange state buffered away =>
      have input : (work.router.setInput vc
          { work.router.input vc with
            routing := currAlgorithm config.arySize work.router.address
              flit.desAddr config.routingAlg
            crouting := none
            state := .vcAb }).input =
          update work.router.input vc
            { work.router.input vc with
              routing := currAlgorithm config.arySize work.router.address
                flit.desAddr config.routingAlg
              crouting := none
              state := .vcAb } := rfl
      refine inv.of_buffer rfl input ?_ (List.append_nil _).symm
        ⟨rfl, fun _ => rfl⟩ rfl rfl
      exact fun injection => ⟨queue injection, by simp⟩
  | acceptFirst vc flit rest inRange state buffered home =>
      simp only [acceptFlit, returnCredit_router]
      refine inv.accept buffered ?_ ?_
      · exact fun _ => home.symm.trans inv.located
      · intro _ atHome
        split at atHome
        case isTrue isHeader =>
          rw [isHeader]
          rfl
        case isFalse => exact absurd atHome (stateAfterPacket_ne_home rest)
  | acceptNext vc flit rest inRange state buffered further =>
      simp only [acceptFlit, returnCredit_router]
      refine inv.accept buffered ?_ ?_
      · intro injection
        have vcIs : vc = (0, vc.2) := Prod.ext injection rfl
        rw [vcIs] at state buffered
        obtain ⟨first, isFirst, forHere⟩ := inv.home vc.2 state
        rw [buffered, List.head?_cons, Option.mem_some_iff] at isFirst
        rw [isFirst]
        exact forHere
      · intro _ atHome
        split at atHome
        case isTrue => exact absurd atHome (stateAfterPacket_ne_home rest)
        case isFalse notTail =>
          cases type : flit.type with
          | header | single =>
              rw [type] at further
              cases further
          | body => rfl
          | tail => exact absurd type notTail

omit [LinearOrder Time] in
/-- No link ends at an injection port. -/
theorem getWirePc_ne_zero (located : address ∈ config.addresses) {i : Nat}
    (outer : 1 ≤ i) : getWirePc config.arySize address i ≠ 0 := by
  obtain ⟨k, inside, rfl⟩ := List.mem_map.mp located
  have coords : ∀ cubeSize k,
      ∀ x ∈ addressAt config.arySize cubeSize k, 0 ≤ x := by
    intro cubeSize
    induction cubeSize with
    | zero =>
        intro k x member
        cases member
    | succ cubeSize ih =>
        intro k x member
        rw [addressAt, List.mem_append, List.mem_singleton] at member
        rcases member with front | last
        · exact ih _ x front
        · rw [last]
          exact Int.natCast_nonneg _
  have nonneg : ∀ index, 0 ≤ coord
      (addressAt config.arySize config.cubeSize k) index := by
    intro index
    unfold coord
    rw [List.getD_eq_getElem?_getD]
    cases found : (addressAt config.arySize config.cubeSize k)[index]? with
    | none => exact Int.le_refl 0
    | some x => exact coords _ _ x (List.mem_of_getElem? found)
  unfold getWirePc linkedPort
  dsimp only
  split_ifs
  · omega
  · -- the number of the chiplet at the centre
    have size : 0 ≤ (config.arySize : ℤ) - 1 ∨ config.arySize = 0 := by
      omega
    rcases size with big | empty
    · have product := mul_nonneg (nonneg 0) big
      have second := nonneg 1
      omega
    · rw [List.mem_range, Config.routerCounter, empty] at inside
      cases cube : config.cubeSize with
      | zero => simp [addressAt, coord]
      | succ =>
          rw [cube] at inside
          simp at inside
  · omega
  · omega

/-- What a move adds to the queue: a credit, or a flit on a link. -/
inductive Emits (config : Config) (clock : Clock Time) (now : Time)
    (address : Addr) (event : Event Time) : Prop
  | credit (src des : Addr) (pc vc : Nat) :
      event = ⟨clock.credit now, .credit src des pc vc⟩ →
      Emits config clock now address event
  | wire (i vc : Nat) (flit : Flit Time) :
      1 ≤ i →
      event = ⟨clock.wire (getWireDelay config.arySize address i) now,
        .wire address (getNextAddress config.arySize address i)
          (getWirePc config.arySize address i) vc flit⟩ →
      Emits config clock now address event

theorem Move.emits (move : Move config clock now work after)
    {event : Event Time} (emitted : event ∈ after.emitted) :
    event ∈ work.emitted ∨
      Emits config clock now work.router.address event := by
  have credited : ∀ vc, event ∈ work.emitted ++
      [creditEvent config clock now work.router vc] →
      event ∈ work.emitted ∨
        Emits config clock now work.router.address event := by
    intro vc member
    rcases List.mem_append.mp member with old | new
    · exact Or.inl old
    · exact Or.inr (.credit _ _ _ _ (List.mem_singleton.mp new))
  have returned : ∀ vc, event ∈
      (returnCredit config clock now work vc).emitted →
      event ∈ work.emitted ∨
        Emits config clock now work.router.address event := by
    intro vc member
    unfold returnCredit at member
    split at member
    case h_1 => exact Or.inl member
    case h_2 =>
      split at member
      case isFalse => exact Or.inl member
      case isTrue => exact credited vc member
  cases move with
  | draw | reopen | read | grantSwitch | grantChannel | route =>
      exact Or.inl emitted
  | traverse i outer inside =>
      unfold flitTraversalPort at emitted
      dsimp only at emitted
      split at emitted
      case h_1 => exact Or.inl emitted
      case h_2 =>
        rcases List.mem_append.mp emitted with old | new
        · exact Or.inl old
        · exact Or.inr (.wire i _ _ outer (List.mem_singleton.mp new))
  | send vc out flit rest =>
      dsimp only at emitted
      split at emitted
      case isTrue => exact Or.inl emitted
      case isFalse => exact credited vc emitted
  | acceptFirst vc | acceptNext vc => exact returned vc emitted
  | strayCredit vc => exact credited vc emitted

/-- No flit is sent to an injection port. -/
theorem Emits.outer {event : Event Time}
    (emits : Emits config clock now address event)
    (located : address ∈ config.addresses) :
    ∀ src des pc vc flit, event.mess = .wire src des pc vc flit →
      pc ≠ 0 := by
  intro src des pc vc flit isWire
  cases emits with
  | credit src des pc vc same =>
      rw [same] at isWire
      cases isWire
  | wire i vc flit outer same =>
      rw [same] at isWire
      cases isWire
      exact getWirePc_ne_zero located outer

end Moves

/-! ## All injection ports -/

section Network

variable [LinearOrder Time] {config : Config} {clock : Clock Time}
variable {files : Addr → List (Record Time)} {sim next : Sim Time}

/-- What holds at the injection ports of all routers. -/
structure PortInv (files : Addr → List (Record Time)) (sim : Sim Time) :
    Prop where
  queues : ∀ address,
    QueueInv address (files address) (sim.network address)
  wires : ∀ event ∈ sim.queue, ∀ src des pc vc flit,
    event.mess = .wire src des pc vc flit → pc ≠ 0

theorem portInv_start (config : Config) (time : Time)
    (trace : List (Record Time)) (files : Addr → List (Record Time))
    (rng : Rng) : PortInv files (Sim.start config time trace files rng) := by
  refine ⟨fun address => queueInv_start config address _, ?_⟩
  intro event member src des pc vc flit isWire
  rcases mem_enqueue.mp member with isEvg | isRouter
  · rw [isEvg] at isWire
    cases isWire
  · rw [List.mem_singleton.mp isRouter] at isWire
    cases isWire

omit [LinearOrder Time] in
/-- One router is replaced. -/
theorem queues_update {network : Addr → Router Time} {router : Router Time}
    (queues : ∀ address, QueueInv address (files address) (network address))
    {address : Addr} (kept : QueueInv address (files address) router) :
    ∀ other, QueueInv other (files other)
      (update network address router other) := by
  intro other
  by_cases same : other = address
  · subst same
    rw [update_self]
    exact kept
  · rw [update_of_ne same]
    exact queues other

omit [LinearOrder Time] in
theorem QueueInv.receiveFlit {address : Addr} {file : List (Record Time)}
    {router : Router Time} (inv : QueueInv address file router) {vc : VC}
    {flit : Flit Time} (outer : vc.1 ≠ 0) :
    QueueInv address file (receiveFlit router vc flit) := by
  have input : (Popnet.receiveFlit router vc flit).input =
      update router.input vc
        ((Popnet.receiveFlit router vc flit).input vc) := by
    simp [Popnet.receiveFlit, Router.record, Router.setInput]
  have log : (Popnet.receiveFlit router vc flit).log =
      router.log ++ [.arrived vc flit] := rfl
  refine inv.of_buffer rfl input (fun injection => absurd injection outer)
    log ⟨?_, fun _ => rfl⟩ rfl rfl
  simp [Note.injection, outer]

/-- Every move of the network keeps the invariant. -/
theorem PortInv.netMove {Allowed : Addr → VC → Prop}
    (inv : PortInv files sim) (move : NetMove config clock Allowed sim next) :
    PortInv files next := by
  cases move with
  | work address after running listed move _ =>
      have start : QueueInv address (files address)
          (sim.work address).router := inv.queues address
      have located : (sim.work address).router.address ∈ config.addresses := by
        rw [start.located]
        exact listed
      refine ⟨queues_update inv.queues (start.move move), ?_⟩
      intro event member
      rcases mem_enqueueAll.mp member with emitted | waiting
      · rcases move.emits emitted with nothing | emits
        · cases nothing
        · exact emits.outer located
      · exact inv.wires event waiting
  | advance agenda stage => exact ⟨inv.queues, inv.wires⟩
  | read address record rest listed pending admitted =>
      exact ⟨queues_update inv.queues ((inv.queues address).readRecord pending),
        inv.wires⟩
  | readTrace trace => exact ⟨inv.queues, inv.wires⟩
  | announce time =>
      refine ⟨inv.queues, ?_⟩
      intro event member
      rcases mem_enqueue.mp member with announced | waiting
      · rw [announced]
        exact fun _ _ _ _ _ impossible => by cases impossible
      · exact inv.wires event waiting
  | evg time rest between queue =>
      refine ⟨inv.queues, ?_⟩
      intro event member
      exact inv.wires event (queue ▸ List.mem_cons_of_mem _ member)
  | router time rest between queue =>
      refine ⟨inv.queues, ?_⟩
      intro event member
      rcases mem_enqueue.mp member with announced | waiting
      · rw [announced]
        exact fun _ _ _ _ _ impossible => by cases impossible
      · exact inv.wires event (queue ▸ List.mem_cons_of_mem _ waiting)
  | wire time src des pc vc flit rest address between queue located inRange =>
      have outer : pc ≠ 0 :=
        inv.wires _ (queue ▸ List.mem_cons_self) src des pc vc flit rfl
      refine ⟨queues_update inv.queues
        ((inv.queues address).receiveFlit outer), ?_⟩
      intro event member
      exact inv.wires event (queue ▸ List.mem_cons_of_mem _ member)
  | credit time src des pc vc rest address between queue located inRange =>
      refine ⟨queues_update inv.queues ?_, ?_⟩
      · exact (inv.queues address).of_same rfl rfl rfl rfl rfl
      · intro event member
        exact inv.wires event (queue ▸ List.mem_cons_of_mem _ member)

theorem PortInv.step {simLength : Time} (inv : PortInv files sim)
    (ready : sim.Ready config)
    (run : sim.step config clock simLength = .ok next) :
    next.Ready config ∧ PortInv files next := by
  have anywhere : sim.PassesOnly fun _ _ => True :=
    fun _ _ _ _ _ _ _ => trivial
  obtain ⟨readyAfter, moves⟩ := ready.step anywhere run
  exact ⟨readyAfter,
    invariant_of_reflTransGen (PortInv files) PortInv.netMove inv moves⟩

end Network

end ChipletSniper.Popnet
