import Mathlib.Data.List.Nodup
import Mathlib.Data.List.Range
import ChipletSniper.Library.Runs
import ChipletSniper.Popnet.Router

/-!
# The moves of a router

Each stage of the pipeline is a sequence of elementary moves.  Everything that
is proved about a router is proved once for every move, and the lemmas of this
file carry it over to the stages.

The one place where the stages do not simply chain moves is `flit_outbuffer`,
which reads new packets before it updates the state of the channel that it has
just taken a flit from.  Reading first and updating then is the same as
updating first and reading without touching the state of that channel.
-/

namespace ChipletSniper.Popnet

open Library Relation Function

variable {Time : Type}

/-! ## Packets that come in while a channel is held -/

/-- `addPacket` that leaves the state of channel `held` alone. -/
def addPacketHolding (config : Config) (held : Option VC)
    (router : Router Time) (record : Record Time) : Router Time :=
  if record.packSize ≤ 0 then router
  else
    let vc : VC := (0, shortestVC config router)
    let channel := router.input vc
    let flits :=
      packetFlits router.address router.packetCounter record.sorAddr
        record.desAddr record.time record.packSize.toNat
    { (router.setInput vc
        { channel with
          buffer := channel.buffer ++ flits
          state :=
            if channel.buffer.length = 0 ∧ held ≠ some vc then .routing
            else channel.state }).record (flits.map (.arrived vc)) with
      ibuffFull := router.ibuffFull || decide (100 < channel.buffer.length) }

/-- The record is read, and its packet injected. -/
def readRecord (config : Config) (held : Option VC) (router : Router Time)
    (record : Record Time) (rest : List (Record Time)) : Router Time :=
  { addPacketHolding config held router record with
    packetCounter := router.packetCounter + 1
    pending := rest }

/-- The coordinates of a record are in range. -/
def Record.Admitted (config : Config) (record : Record Time) : Prop :=
  (∀ x ∈ record.sorAddr, coordinateOutOfRange config x = false) ∧
    (∀ x ∈ record.desAddr, coordinateOutOfRange config x = false) ∧
    (0 < record.packSize → 0 < config.vcNumber)

/-! ## Moves -/

section

variable [LinearOrder Time] (config : Config) (clock : Clock Time) (now : Time)

/-- An elementary move of a router at work. -/
inductive Move : Work Time → Work Time → Prop
  /-- A random number is drawn. -/
  | draw (work : Work Time) (rng : Rng) : Move work { work with rng := rng }
  /-- A flit leaves an output port. -/
  | traverse (work : Work Time) (i : Nat) :
      1 ≤ i → i < config.physicPorts →
      Move work (flitTraversalPort config clock now work i)
  /-- A flit leaves an input channel for its output. -/
  | send (work : Work Time) (vc out : VC) (flit : Flit Time)
      (rest : List (Flit Time)) :
      config.InRange vc →
      (work.router.input vc).state = .swTr →
      (work.router.input vc).crouting = some out →
      (work.router.input vc).buffer = flit :: rest →
      Move work
        { work with
          router :=
            finishSend (moveFlit work.router vc out flit rest) vc out
              flit.type (stateAfterSend (flit :: rest).length flit.type)
          emitted :=
            if vc.1 = 0 then work.emitted
            else work.emitted ++
              [creditEvent config clock now work.router vc] }
  /-- The injection queue is no longer full. -/
  | reopen (work : Work Time) :
      Move work
        { work with router := { work.router with ibuffFull := false } }
  /-- A record of the local trace file is read. -/
  | read (work : Work Time) (held : Option VC) (record : Record Time)
      (rest : List (Record Time)) :
      work.router.pending = record :: rest →
      record.Admitted config →
      Move work
        { work with
          router := readRecord config held work.router record rest }
  /-- A channel wins the switch. -/
  | grantSwitch (work : Work Time) (vc out : VC) :
      config.InRange vc →
      (work.router.input vc).state = .swAb →
      (work.router.input vc).crouting = some out →
      0 < (work.router.output out).counter →
      0 < (work.router.port out.1).localcounter →
      (work.router.input vc).buffer ≠ [] →
      (∀ other, config.InRange other →
        (work.router.input other).state = .swTr →
        outPort work.router other ≠ out.1) →
      Move work { work with router := work.router.stateUpdate vc .swTr }
  /-- A channel wins an output channel. -/
  | grantChannel (work : Work Time) (vc out : VC) :
      config.InRange vc →
      config.InRange out →
      1 ≤ out.1 →
      (work.router.input vc).state = .vcAb →
      out ∈ (work.router.input vc).routing →
      (work.router.output out).usage = .free →
      Move work
        { work with
          router :=
            ((work.router.setInput vc
              { work.router.input vc with
                state := .swAb
                crouting := some out }).acquire out vc).record
              [.granted vc out] }
  /-- The candidates of a packet are computed. -/
  | route (work : Work Time) (vc : VC) (flit : Flit Time)
      (rest : List (Flit Time)) :
      config.InRange vc →
      (work.router.input vc).state = .routing →
      (work.router.input vc).buffer = flit :: rest →
      work.router.address ≠ flit.desAddr →
      Move work
        { work with
          router := work.router.setInput vc
            { work.router.input vc with
              routing :=
                currAlgorithm config.arySize work.router.address flit.desAddr
                  config.routingAlg
              crouting := none
              state := .vcAb } }
  /-- The first flit of a packet is accepted. -/
  | acceptFirst (work : Work Time) (vc : VC) (flit : Flit Time)
      (rest : List (Flit Time)) :
      config.InRange vc →
      (work.router.input vc).state = .routing →
      (work.router.input vc).buffer = flit :: rest →
      work.router.address = flit.desAddr →
      Move work
        (acceptFlit (returnCredit config clock now work vc) vc flit rest
          (if flit.type = .header then .home else stateAfterPacket rest))
  /-- A further flit of a packet is accepted. -/
  | acceptNext (work : Work Time) (vc : VC) (flit : Flit Time)
      (rest : List (Flit Time)) :
      config.InRange vc →
      (work.router.input vc).state = .home →
      (work.router.input vc).buffer = flit :: rest →
      isHeader flit.type = false →
      Move work
        (acceptFlit (returnCredit config clock now work vc) vc flit rest
          (if flit.type = .tail then stateAfterPacket rest else .home))
  /-- A credit is returned for a flit that stays where it is. -/
  | strayCredit (work : Work Time) (vc : VC) (flit : Flit Time)
      (rest : List (Flit Time)) :
      config.InRange vc →
      vc.1 ≠ 0 →
      (work.router.input vc).state ≠ .routing →
      (work.router.input vc).state ≠ .home →
      (work.router.input vc).buffer = flit :: rest →
      work.router.address = flit.desAddr →
      Move work
        { work with
          emitted := work.emitted ++
            [creditEvent config clock now work.router vc] }

/-- Any number of moves. -/
abbrev Moves : Work Time → Work Time → Prop :=
  ReflTransGen (Move config clock now)

end

/-! ## Reading packets -/

section Reading

variable (vc out : VC) (type : FlitType) (state : VCState)

theorem finishSend_input (router : Router Time) :
    (finishSend router vc out type state).input =
      update router.input vc
        { router.input vc with state := state } := by
  unfold finishSend
  split <;> rfl

theorem finishSend_buffer (router : Router Time) (other : VC) :
    ((finishSend router vc out type state).input other).buffer =
      (router.input other).buffer := by
  rw [finishSend_input]
  by_cases same : other = vc
  · subst same
    rw [update_self]
  · rw [update_of_ne same]

theorem shortestVC_finishSend (config : Config) (router : Router Time) :
    shortestVC config (finishSend router vc out type state) =
      shortestVC config router := by
  unfold shortestVC
  simp only [finishSend_buffer]

/-- Reading a record and then updating the state is updating the state and
then reading the record without touching the state. -/
theorem finishSend_readRecord (config : Config) (router : Router Time)
    (record : Record Time) (rest : List (Record Time)) :
    finishSend (readRecord config none router record rest) vc out type state =
      readRecord config (some vc) (finishSend router vc out type state)
        record rest := by
  unfold readRecord addPacketHolding
  by_cases empty : record.packSize ≤ 0
  · simp only [empty, if_true]
    unfold finishSend
    split <;> rfl
  · simp only [empty, if_false, shortestVC_finishSend, finishSend_buffer]
    generalize (0, shortestVC config router) = chosen
    by_cases same : chosen = vc
    · subst same
      unfold finishSend
      split
      · simp [Router.release, Router.stateUpdate, Router.setInput,
          Router.setOutput, Router.record]
      · simp [Router.stateUpdate, Router.setInput, Router.record]
    · have other : vc ≠ chosen := Ne.symm same
      unfold finishSend
      split
      · simp [Router.release, Router.stateUpdate, Router.setInput,
          Router.setOutput, Router.record, other, same,
          update_comm other]
      · simp [Router.stateUpdate, Router.setInput, Router.record, other, same,
          update_comm other]

end Reading

/-- An injected record is admitted, and its packet added. -/
theorem injectPacket_ok {config : Config} {router next : Router Time}
    {record : Record Time}
    (injected : injectPacket config router record = .ok next) :
    record.Admitted config ∧
      next = { addPacketHolding config none router record with
        packetCounter := router.packetCounter + 1 } := by
  unfold injectPacket at injected
  split at injected
  case isTrue => cases injected
  case isFalse inRange =>
    split at injected
    case isTrue => cases injected
    case isFalse channels =>
      cases injected
      simp only [Bool.or_eq_true, not_or, Bool.not_eq_true,
        List.any_eq_false] at inRange
      refine ⟨⟨?_, ?_, ?_⟩, ?_⟩
      · intro x member
        simpa using inRange.1 x member
      · intro x member
        simpa using inRange.2 x member
      · intro positive
        by_contra none
        exact channels ⟨positive, by omega⟩
      · simp [addPacket, addPacketHolding]

theorem swReady_iff {router : Router Time} {vc : VC} :
    swReady router vc = true ↔
      (router.input vc).state = .swAb ∧
        ∃ out, (router.input vc).crouting = some out ∧
          0 < (router.output out).counter ∧
          0 < (router.port out.1).localcounter := by
  unfold swReady
  cases (router.input vc).crouting <;> simp

theorem stateUpdate_input (router : Router Time) (vc : VC) (state : VCState) :
    (router.stateUpdate vc state).input =
      update router.input vc
        { router.input vc with state := state } :=
  rfl

theorem outPort_stateUpdate (router : Router Time) (vc other : VC)
    (state : VCState) :
    outPort (router.stateUpdate vc state) other = outPort router other := by
  unfold outPort
  rw [stateUpdate_input]
  by_cases same : other = vc
  · subst same
    rw [update_self]
  · rw [update_of_ne same]

section Stages

variable [LinearOrder Time] {config : Config} {clock : Clock Time}
variable {now : Time}

/-- A record is read below `update`, which only has to leave the rest of the
file to the reads. -/
theorem moves_receiveRecords (held : Option VC)
    (update : Router Time → Router Time) (work : Work Time)
    (pending : ∀ router, (update router).pending = router.pending)
    (commutes : ∀ router record rest,
      update (readRecord config none router record rest) =
        readRecord config held (update router) record rest) :
    ∀ {records : List (Record Time)} {router next : Router Time},
      receiveRecords config clock now records router = .ok next →
      Moves config clock now
        { work with router := update { router with pending := records } }
        { work with router := update next } := by
  intro records
  induction records with
  | nil =>
      intro router next run
      cases run
      exact ReflTransGen.refl
  | cons record rest ih =>
      intro router next run
      unfold receiveRecords at run
      split at run
      case isFalse =>
        cases run
        exact ReflTransGen.refl
      case isTrue =>
        obtain ⟨injected, taken, remaining⟩ := bind_eq_ok.mp run
        obtain ⟨admitted, shape⟩ := injectPacket_ok taken
        refine ReflTransGen.head ?_ (ih remaining)
        have same :
            { injected with pending := rest } =
              readRecord config none { router with pending := record :: rest }
                record rest := by
          rw [shape]
          unfold readRecord addPacketHolding
          split <;> rfl
        rw [same, commutes]
        exact Move.read
          { work with
            router := update { router with pending := record :: rest } }
          held record rest (pending _) admitted

/-- `receive_packet` on its own. -/
theorem moves_receivePacket {work : Work Time} {next : Router Time}
    (run : receivePacket config clock now work.router = .ok next) :
    Moves config clock now work { work with router := next } :=
  moves_receiveRecords none id work (fun _ => rfl) (fun _ _ _ => rfl) run

/-- The body of `flit_outbuffer`. -/
theorem moves_flitOutbufferVC {work next : Work Time} {vc : VC}
    (inRange : config.InRange vc)
    (run : flitOutbufferVC config clock now work vc = .ok next) :
    Moves config clock now work next := by
  simp only [flitOutbufferVC] at run
  split at run
  case isFalse =>
    cases run
    exact ReflTransGen.refl
  case isTrue busy =>
  split at run
  case h_1 => cases run
  case h_2 => cases run
  case h_3 out flit rest chosen buffered =>
  have send : Move config clock now work _ :=
    Move.send work vc out flit rest inRange busy chosen buffered
  cases refilling :
      refill config clock now (moveFlit work.router vc out flit rest) vc with
  | error _ =>
      rw [refilling] at run
      cases run
  | ok refilled =>
      rw [refilling] at run
      cases run
      refine ReflTransGen.head send ?_
      unfold refill at refilling
      split at refilling
      case isFalse =>
        cases refilling
        exact ReflTransGen.refl
      case isTrue =>
        refine ReflTransGen.head (Move.reopen _) ?_
        have reads :=
          moves_receiveRecords (some vc)
            (fun router => finishSend router vc out flit.type
              (stateAfterSend (flit :: rest).length flit.type))
            { work with
              emitted :=
                if vc.1 = 0 then work.emitted
                else work.emitted ++
                  [creditEvent config clock now work.router vc] }
            (fun router => by unfold finishSend; split <;> rfl)
            (finishSend_readRecord vc out flit.type _ config) refilling
        have reopened : ∀ router : Router Time,
            { finishSend router vc out flit.type
                (stateAfterSend (flit :: rest).length flit.type) with
              ibuffFull := false } =
              finishSend { router with ibuffFull := false } vc out flit.type
                (stateAfterSend (flit :: rest).length flit.type) := by
          intro router
          unfold finishSend
          split <;> rfl
        simp only [reopened]
        exact reads

/-! ## Channels and choices -/

theorem mem_channelsFrom {first : Nat} {vc : VC} :
    vc ∈ config.channelsFrom first ↔ first ≤ vc.1 ∧ config.InRange vc := by
  obtain ⟨i, j⟩ := vc
  simp only [Config.channelsFrom, List.mem_flatMap, List.mem_map,
    List.mem_range, List.mem_range'_1, Config.InRange, Prod.mk.injEq]
  constructor
  · rintro ⟨i', ⟨lower, upper⟩, j', inside, rfl, rfl⟩
    omega
  · rintro ⟨lower, upper, inside⟩
    exact ⟨i, by omega, j, inside, rfl, rfl⟩

theorem mem_channels {vc : VC} :
    vc ∈ config.channels ↔ config.InRange vc := by
  simp [Config.channels, mem_channelsFrom]

theorem nodup_channelsFrom (config : Config) (first : Nat) :
    (config.channelsFrom first).Nodup := by
  unfold Config.channelsFrom
  rw [List.nodup_flatMap]
  constructor
  · intro i _
    exact List.nodup_range.map fun _ _ same => (Prod.mk.inj same).2
  · refine (List.nodup_range' _ Nat.one_pos).imp ?_
    intro i k apart vc inFirst inSecond
    obtain ⟨_, _, rfl⟩ := List.mem_map.mp inFirst
    obtain ⟨_, _, same⟩ := List.mem_map.mp inSecond
    exact apart (Prod.mk.inj same).1.symm

/-- A choice is made from the list. -/
theorem mem_of_choose {Item : Type} {rng after : Rng} {items : List Item}
    {item : Item} (chosen : rng.choose items = (some item, after)) :
    item ∈ items := by
  unfold Rng.choose at chosen
  split at chosen
  · cases chosen
  · cases chosen
    exact List.mem_singleton_self _
  · simp only [Prod.mk.injEq] at chosen
    exact List.mem_of_getElem? chosen.1

/-! ## The other stages -/

theorem moves_flitTraversal {work next : Work Time}
    (run : flitTraversal config clock now work = .ok next) :
    Moves config clock now work next := by
  cases run
  refine foldl_induction
    (fun ports after =>
      (∀ i ∈ ports, 1 ≤ i ∧ i < config.physicPorts) ∧
        Moves config clock now work after)
    ?_ ⟨?_, ReflTransGen.refl⟩ |>.2
  · rintro i rest after ⟨inRange, moves⟩
    have here := inRange i List.mem_cons_self
    exact ⟨fun k member => inRange k (List.mem_cons_of_mem i member),
      moves.tail (Move.traverse after i here.1 here.2)⟩
  · intro i member
    rw [List.mem_range'_1] at member
    omega

theorem moves_flitOutbuffer {work next : Work Time}
    (run : flitOutbuffer config clock now work = .ok next) :
    Moves config clock now work next := by
  refine (foldlM_induction
    (fun vcs after =>
      (∀ vc ∈ vcs, config.InRange vc) ∧ Moves config clock now work after)
    ?_ ⟨fun vc member => mem_channels.mp member, ReflTransGen.refl⟩ run).2
  rintro vc rest after last ⟨inRange, moves⟩ step
  exact ⟨fun other member => inRange other (List.mem_cons_of_mem vc member),
    moves.trans
      (moves_flitOutbufferVC (inRange vc List.mem_cons_self) step)⟩

omit [LinearOrder Time] in
/-- What the first loop of `sw_arbitration` collects. -/
theorem mem_swRequests {router : Router Time} {rng : Rng}
    {request : Nat × VC}
    (member : request ∈ (swRequests config router rng).1) :
    config.InRange request.2 ∧ swReady router request.2 = true ∧
      request.1 = outPort router request.2 := by
  suffices collected :
      (∀ i ∈ ([] : List Nat), i < config.physicPorts) ∧
        ∀ request ∈ (swRequests config router rng).1,
          config.InRange request.2 ∧ swReady router request.2 = true ∧
            request.1 = outPort router request.2 from
    collected.2 request member
  refine foldl_induction
    (fun (ports : List Nat) (state : List (Nat × VC) × Rng) =>
      (∀ i ∈ ports, i < config.physicPorts) ∧
        ∀ request ∈ state.1,
          config.InRange request.2 ∧ swReady router request.2 = true ∧
            request.1 = outPort router request.2)
    ?_ ⟨fun i => List.mem_range.mp, fun _ none => by cases none⟩
  rintro i rest ⟨requests, rng⟩ ⟨inRange, collected⟩
  refine ⟨fun k member => inRange k (List.mem_cons_of_mem i member), ?_⟩
  dsimp only
  split
  case h_1 => exact collected
  case h_2 vc after chosen =>
    intro request member
    rcases List.mem_append.mp member with old | fresh
    · exact collected request old
    · rw [List.mem_singleton] at fresh
      obtain ⟨listed, ready⟩ := List.mem_filter.mp (mem_of_choose chosen)
      obtain ⟨j, inside, rfl⟩ := List.mem_map.mp listed
      rw [fresh]
      exact ⟨⟨inRange i List.mem_cons_self, List.mem_range.mp inside⟩,
        ready, rfl⟩

/-- The second loop of `sw_arbitration`: while port `i` is not yet served, its
requests stand and no channel goes there. -/
structure SwPending (config : Config) (requests : List (Nat × VC))
    (start after : Work Time) (ports : List Nat) : Prop where
  nodup : ports.Nodup
  output : after.router.output = start.router.output
  port : after.router.port = start.router.port
  standing : ∀ request ∈ requests, request.1 ∈ ports →
    after.router.input request.2 = start.router.input request.2
  unserved : ∀ vc, config.InRange vc →
    (after.router.input vc).state = .swTr →
    outPort after.router vc ∉ ports

theorem swGrantPort_moves {start after next : Work Time}
    {requests : List (Nat × VC)}
    (collected : ∀ request ∈ requests,
      config.InRange request.2 ∧ swReady start.router request.2 = true ∧
        request.1 = outPort start.router request.2)
    {i : Nat} {rest : List Nat}
    (pending : SwPending config requests start after (i :: rest))
    (step : swGrantPort requests after i = .ok next) :
    SwPending config requests start next rest ∧
      Moves config clock now after next := by
  obtain ⟨fresh, nodup⟩ := List.nodup_cons.mp pending.nodup
  unfold swGrantPort at step
  split at step
  case h_1 rng _ =>
    cases step
    refine ⟨⟨nodup, pending.output, pending.port, ?_, ?_⟩,
      ReflTransGen.single (Move.draw after rng)⟩
    · exact fun request member later =>
        pending.standing request member (List.mem_cons_of_mem i later)
    · exact fun vc inRange busy later =>
        pending.unserved vc inRange busy (List.mem_cons_of_mem i later)
  case h_2 vc rng chosen =>
  split at step
  case isTrue => cases step
  case isFalse nonempty =>
  cases step
  -- the winner asked for this port
  obtain ⟨request, found, rfl⟩ := List.mem_map.mp (mem_of_choose chosen)
  obtain ⟨member, atPort⟩ := List.mem_filter.mp found
  have itsPort : request.1 = i := by simpa using atPort
  obtain ⟨inRange, ready, asked⟩ := collected request member
  obtain ⟨waiting, out, toOut, credit, room⟩ := swReady_iff.mp ready
  have same :=
    pending.standing request member (itsPort ▸ List.mem_cons_self)
  have outIs : out.1 = i := by
    rw [← itsPort, asked]
    simp [outPort, toOut]
  refine ⟨⟨nodup, pending.output, pending.port, ?_, ?_⟩, ?_⟩
  · intro other otherMember later
    have different : other.2 ≠ request.2 := by
      intro equal
      have otherPort := (collected other otherMember).2.2
      rw [equal, ← asked, itsPort] at otherPort
      exact fresh (otherPort ▸ later)
    show (after.router.stateUpdate request.2 .swTr).input other.2 = _
    rw [stateUpdate_input, update_of_ne different]
    exact pending.standing other otherMember (List.mem_cons_of_mem i later)
  · intro vc vcInRange busy
    show outPort (after.router.stateUpdate request.2 .swTr) vc ∉ rest
    rw [outPort_stateUpdate]
    by_cases equal : vc = request.2
    · have here : outPort after.router vc = i := by
        simp [outPort, equal, same, toOut, outIs]
      rw [here]
      exact fresh
    · have before : (after.router.input vc).state = .swTr := by
        simpa [stateUpdate_input, update_of_ne equal] using busy
      intro later
      exact pending.unserved vc vcInRange before
        (List.mem_cons_of_mem i later)
  · refine ReflTransGen.head (Move.draw after rng) (ReflTransGen.single ?_)
    refine Move.grantSwitch { after with rng := rng } request.2 out inRange
      ?_ ?_ ?_ ?_ ?_ ?_
    · show (after.router.input request.2).state = .swAb
      rw [same]
      exact waiting
    · show (after.router.input request.2).crouting = some out
      rw [same]
      exact toOut
    · show 0 < (after.router.output out).counter
      rw [pending.output]
      exact credit
    · show 0 < (after.router.port out.1).localcounter
      rw [pending.port]
      exact room
    · intro empty
      exact nonempty (by rw [empty]; rfl)
    · intro other otherInRange busy equal
      exact pending.unserved other otherInRange busy
        (equal ▸ outIs ▸ List.mem_cons_self)

theorem moves_swArbitration {work next : Work Time}
    (settled : ∀ vc, config.InRange vc →
      (work.router.input vc).state ≠ .swTr)
    (run : swArbitration config work = .ok next) :
    Moves config clock now work next := by
  unfold swArbitration at run
  split at run
  case isTrue => cases run
  case isFalse =>
  set start : Work Time :=
    { work with rng := (swRequests config work.router work.rng).2 }
  have drawn : Moves config clock now work start :=
    ReflTransGen.single (Move.draw work _)
  refine drawn.trans (foldlM_induction
    (fun ports after =>
      SwPending config (swRequests config work.router work.rng).1 start after
        ports ∧ Moves config clock now start after)
    ?_ ⟨?_, ReflTransGen.refl⟩ run).2
  · rintro i rest after last ⟨pending, moves⟩ step
    have collected :
        ∀ request ∈ (swRequests config work.router work.rng).1,
          config.InRange request.2 ∧ swReady start.router request.2 = true ∧
            request.1 = outPort start.router request.2 :=
      fun request => mem_swRequests
    obtain ⟨kept, further⟩ := swGrantPort_moves collected pending step
    exact ⟨kept, moves.trans further⟩
  · exact ⟨List.nodup_range, rfl, rfl, fun _ _ _ => rfl,
      fun vc inRange busy => absurd busy (settled vc inRange)⟩

/-- What the first loop of `vc_arbitration` has collected before it comes to
the channels `vcs`. -/
structure VcCollected (config : Config) (router : Router Time)
    (requests : List (VC × VC)) (vcs : List VC) : Prop where
  nodup : (requests.map Prod.snd ++ vcs).Nodup
  inRange : ∀ vc ∈ vcs, config.InRange vc
  request : ∀ request ∈ requests,
    config.InRange request.2 ∧
      (router.input request.2).state = .vcAb ∧
      request.1 ∈ (router.input request.2).routing ∧
      config.InRange request.1

omit [LinearOrder Time] in
theorem vcRequest_collected {router : Router Time}
    {requests next : List (VC × VC) × Rng} {vc : VC} {rest : List VC}
    (collected : VcCollected config router requests.1 (vc :: rest))
    (step : vcRequest config router requests vc = .ok next) :
    VcCollected config router next.1 rest := by
  have skip : VcCollected config router requests.1 rest := by
    refine ⟨?_, ?_, collected.request⟩
    · exact collected.nodup.sublist
        ((List.sublist_cons_self vc rest).append_left _)
    · exact fun other member =>
        collected.inRange other (List.mem_cons_of_mem vc member)
  unfold vcRequest at step
  split at step
  case isFalse =>
    cases step
    exact skip
  case isTrue waiting =>
  obtain ⟨selected, selection, result⟩ := bind_eq_ok.mp step
  unfold vcSelection at selection
  dsimp only at selection
  split at selection
  case isTrue => cases selection
  case isFalse =>
  split at selection
  case isTrue => cases selection
  case isFalse allInRange =>
  cases selection
  split at result
  case h_1 =>
    cases result
    exact skip
  case h_2 out rng chosen =>
    cases result
    have candidate := (List.mem_filter.mp (mem_of_choose chosen)).1
    refine ⟨?_, skip.inRange, ?_⟩
    · simpa [List.map_append, List.append_assoc] using collected.nodup
    · intro request member
      rcases List.mem_append.mp member with old | fresh
      · exact collected.request request old
      · rw [List.mem_singleton] at fresh
        rw [fresh]
        refine ⟨collected.inRange vc List.mem_cons_self, waiting, candidate,
          ?_⟩
        by_contra outside
        apply allInRange
        rw [List.any_eq_true]
        exact ⟨out, candidate, by simpa using outside⟩

/-- The second loop of `vc_arbitration`: the requests for an output that is
still to come stand. -/
structure VcPending (config : Config) (requests : List (VC × VC))
    (start after : Work Time) (outs : List VC) : Prop where
  nodup : outs.Nodup
  inRange : ∀ out ∈ outs, 1 ≤ out.1 ∧ config.InRange out
  standing : ∀ request ∈ requests, request.1 ∈ outs →
    after.router.input request.2 = start.router.input request.2

theorem vcGrant_moves {start after : Work Time} {requests : List (VC × VC)}
    (collected : VcCollected config start.router requests [])
    {out : VC} {rest : List VC}
    (pending : VcPending config requests start after (out :: rest)) :
    VcPending config requests start (vcGrant requests after out) rest ∧
      Moves config clock now after (vcGrant requests after out) := by
  obtain ⟨fresh, nodup⟩ := List.nodup_cons.mp pending.nodup
  have inRange : ∀ other ∈ rest, 1 ≤ other.1 ∧ config.InRange other :=
    fun other later =>
      pending.inRange other (List.mem_cons_of_mem out later)
  have skip : VcPending config requests start after rest :=
    ⟨nodup, inRange, fun request member later =>
      pending.standing request member (List.mem_cons_of_mem out later)⟩
  unfold vcGrant
  split
  case isFalse => exact ⟨skip, ReflTransGen.refl⟩
  case isTrue free =>
  split
  case h_1 rng _ =>
    exact ⟨⟨skip.nodup, skip.inRange, skip.standing⟩,
      ReflTransGen.single (Move.draw after rng)⟩
  case h_2 vc rng chosen =>
  obtain ⟨request, found, rfl⟩ := List.mem_map.mp (mem_of_choose chosen)
  obtain ⟨member, atOut⟩ := List.mem_filter.mp found
  have itsOut : request.1 = out := by simpa using atOut
  obtain ⟨vcInRange, waiting, candidate, outInRange⟩ :=
    collected.request request member
  have same :=
    pending.standing request member (itsOut ▸ List.mem_cons_self)
  refine ⟨⟨nodup, inRange, ?_⟩, ?_⟩
  · intro other otherMember later
    have different : other.2 ≠ request.2 := by
      intro equal
      have unique : other = request := by
        have nodupInputs : (requests.map Prod.snd).Nodup := by
          simpa using collected.nodup
        exact List.inj_on_of_nodup_map nodupInputs otherMember member equal
      rw [unique, itsOut] at later
      exact fresh later
    have unchanged :
        (update after.router.input request.2
          { after.router.input request.2 with
            state := .swAb
            crouting := some out }) other.2 =
          after.router.input other.2 :=
      update_of_ne different _ _
    exact unchanged.trans
      (pending.standing other otherMember (List.mem_cons_of_mem out later))
  · refine ReflTransGen.head (Move.draw after rng) (ReflTransGen.single ?_)
    refine Move.grantChannel { after with rng := rng } request.2 out
      vcInRange (itsOut ▸ outInRange)
      (pending.inRange out List.mem_cons_self).1 ?_ ?_ free
    · show (after.router.input request.2).state = .vcAb
      rw [same]
      exact waiting
    · show out ∈ (after.router.input request.2).routing
      rw [same]
      exact itsOut ▸ candidate

theorem moves_vcArbitration {work next : Work Time}
    (run : vcArbitration config work = .ok next) :
    Moves config clock now work next := by
  obtain ⟨⟨requests, rng⟩, collecting, granting⟩ := bind_eq_ok.mp run
  have collected : VcCollected config work.router requests [] :=
    foldlM_induction
      (fun vcs (state : List (VC × VC) × Rng) =>
        VcCollected config work.router state.1 vcs)
      (fun collected step => vcRequest_collected collected step)
      (⟨by simpa [Config.channels] using nodup_channelsFrom config 0,
        fun vc member => mem_channels.mp member,
        fun _ none => by cases none⟩ :
        VcCollected config work.router [] config.channels)
      collecting
  cases granting
  have drawn : Moves config clock now work { work with rng := rng } :=
    ReflTransGen.single (Move.draw work rng)
  refine drawn.trans (foldl_induction
    (fun outs after =>
      VcPending config requests { work with rng := rng } after outs ∧
        Moves config clock now { work with rng := rng } after)
    ?_ ⟨?_, ReflTransGen.refl⟩).2
  · rintro out rest after ⟨pending, moves⟩
    have here :
        VcCollected config
          ({ work with rng := rng } : Work Time).router requests [] :=
      collected
    obtain ⟨kept, further⟩ := vcGrant_moves here pending
    exact ⟨kept, moves.trans further⟩
  · exact ⟨nodup_channelsFrom config 1, fun out => mem_channelsFrom.mp,
      fun _ _ _ => rfl⟩

theorem returnCredit_router (work : Work Time) (vc : VC) :
    (returnCredit config clock now work vc).router = work.router := by
  unfold returnCredit
  split
  · rfl
  · split <;> rfl

theorem moves_routingDecisionVC {work next : Work Time} {vc : VC}
    (inRange : config.InRange vc)
    (run : routingDecisionVC config clock now work vc = .ok next) :
    Moves config clock now work next := by
  unfold routingDecisionVC at run
  dsimp only at run
  split at run
  case h_1 routing =>
    unfold routeHeader at run
    rw [returnCredit_router] at run
    split at run
    case h_1 => cases run
    case h_2 flit rest buffered =>
    split at run
    case isTrue => cases run
    case isFalse =>
    split at run
    case isTrue atHome =>
      cases run
      exact ReflTransGen.single
        (Move.acceptFirst work vc flit rest inRange routing buffered atHome)
    case isFalse away =>
      cases run
      have silent : returnCredit config clock now work vc = work := by
        simp [returnCredit, buffered, away]
      rw [silent]
      exact ReflTransGen.single
        (Move.route work vc flit rest inRange routing buffered away)
  case h_2 home =>
    unfold acceptAtHome at run
    rw [returnCredit_router] at run
    split at run
    case h_1 buffered =>
      cases run
      have silent : returnCredit config clock now work vc = work := by
        simp [returnCredit, buffered]
      rw [silent]
    case h_2 flit rest buffered =>
      split at run
      case isTrue => cases run
      case isFalse further =>
        cases run
        rw [home]
        exact ReflTransGen.single
          (Move.acceptNext work vc flit rest inRange home buffered
            (by simpa using further))
  case h_3 notRouting notHome =>
    cases run
    unfold returnCredit
    split
    case h_1 => exact ReflTransGen.refl
    case h_2 flit rest buffered =>
      split
      case isFalse => exact ReflTransGen.refl
      case isTrue stray =>
        exact ReflTransGen.single
          (Move.strayCredit work vc flit rest inRange stray.1 notRouting
            notHome buffered stray.2)

theorem moves_routingDecision {work next : Work Time}
    (run : routingDecision config clock now work = .ok next) :
    Moves config clock now work next := by
  refine (foldlM_induction
    (fun vcs after =>
      (∀ vc ∈ vcs, config.InRange vc) ∧ Moves config clock now work after)
    ?_ ⟨fun vc member => mem_channels.mp member, ReflTransGen.refl⟩ run).2
  rintro vc rest after last ⟨inRange, moves⟩ step
  exact ⟨fun other member => inRange other (List.mem_cons_of_mem vc member),
    moves.trans
      (moves_routingDecisionVC (inRange vc List.mem_cons_self) step)⟩

/-- No channel holds the switch. -/
def SwitchFree (config : Config) (router : Router Time) : Prop :=
  ∀ vc, config.InRange vc → (router.input vc).state ≠ .swTr

/-- Every stage is a sequence of moves.  The switch has to be free when it is
arbitrated. -/
theorem moves_stage {stage : Stage} {work next : Work Time}
    (free : stage = .swArbitration → SwitchFree config work.router)
    (run : stage.run config clock now work = .ok next) :
    Moves config clock now work next := by
  cases stage with
  | flitTraversal => exact moves_flitTraversal run
  | flitOutbuffer => exact moves_flitOutbuffer run
  | swArbitration => exact moves_swArbitration (free rfl) run
  | vcArbitration => exact moves_vcArbitration run
  | routingDecision => exact moves_routingDecision run

/-! ## The switch is free after `flit_outbuffer` -/

/-- Reading packets gives the switch to no channel. -/
theorem receiveRecords_swTr {vc : VC} :
    ∀ {records : List (Record Time)} {router next : Router Time},
      receiveRecords config clock now records router = .ok next →
      (next.input vc).state = .swTr → (router.input vc).state = .swTr := by
  intro records
  induction records with
  | nil =>
      intro router next run busy
      cases run
      exact busy
  | cons record rest ih =>
      intro router next run busy
      unfold receiveRecords at run
      split at run
      case isFalse =>
        cases run
        exact busy
      case isTrue =>
        obtain ⟨injected, taken, remaining⟩ := bind_eq_ok.mp run
        have before := ih remaining busy
        rw [(injectPacket_ok taken).2] at before
        unfold addPacketHolding at before
        split at before
        · exact before
        · simp only [Router.record, Router.setInput] at before
          by_cases same : vc = (0, shortestVC config router)
          · rw [same, update_self] at before
            split at before
            · cases before
            · rwa [same]
          · rwa [update_of_ne same] at before

theorem stateAfterSend_ne_swTr (inSize : Nat) (type : FlitType) :
    stateAfterSend inSize type ≠ .swTr := by
  unfold stateAfterSend
  split
  · split <;> simp
  · simp

/-- The body of `flit_outbuffer` takes the switch from its channel and gives
it to none. -/
theorem flitOutbufferVC_swTr {work next : Work Time} {vc other : VC}
    (run : flitOutbufferVC config clock now work vc = .ok next)
    (busy : (next.router.input other).state = .swTr) :
    other ≠ vc ∧ (work.router.input other).state = .swTr := by
  simp only [flitOutbufferVC] at run
  split at run
  case isFalse free =>
    cases run
    refine ⟨?_, busy⟩
    rintro rfl
    exact free busy
  case isTrue =>
  split at run
  case h_1 => cases run
  case h_2 => cases run
  case h_3 out flit rest _ _ =>
  cases refilling :
      refill config clock now (moveFlit work.router vc out flit rest) vc with
  | error _ =>
      rw [refilling] at run
      cases run
  | ok refilled =>
      rw [refilling] at run
      cases run
      rw [finishSend_input] at busy
      have different : other ≠ vc := by
        rintro rfl
        rw [update_self] at busy
        exact stateAfterSend_ne_swTr _ _ busy
      rw [update_of_ne different] at busy
      refine ⟨different, ?_⟩
      have moved :
          ((moveFlit work.router vc out flit rest).input other).state =
            .swTr := by
        unfold refill at refilling
        split at refilling
        case isFalse =>
          cases refilling
          exact busy
        case isTrue =>
          have before := receiveRecords_swTr refilling busy
          exact before
      simpa [moveFlit, Router.record, Router.setPort, Router.setInput,
        Router.setOutput, update_of_ne different] using moved

/-- `flit_outbuffer` serves every channel that holds the switch. -/
theorem switchFree_flitOutbuffer {work next : Work Time}
    (run : flitOutbuffer config clock now work = .ok next) :
    SwitchFree config next.router := by
  have served := foldlM_induction
    (fun vcs (after : Work Time) =>
      ∀ vc, config.InRange vc → (after.router.input vc).state = .swTr →
        vc ∈ vcs)
    ?_ (fun vc inRange _ => mem_channels.mpr inRange) run
  · intro vc inRange busy
    cases served vc inRange busy
  · intro vc rest after last listed step other inRange busy
    obtain ⟨different, before⟩ := flitOutbufferVC_swTr step busy
    exact (List.mem_cons.mp (listed other inRange before)).resolve_left
      different

end Stages

end ChipletSniper.Popnet
