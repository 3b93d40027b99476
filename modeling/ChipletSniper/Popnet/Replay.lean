import ChipletSniper.Popnet.Simulator

/-!
# Runs of a few routers

A router with nothing in its channels and buffers does nothing.  To follow a
run it is enough to run the routers that are not quiet, one event at a time.
-/

namespace ChipletSniper.Popnet

open Library Relation

variable {Time : Type}

/-! ## Quiet routers -/

/-- Nothing is in the input channels and output buffers of a router. -/
def Quiet (config : Config) (router : Router Time) : Prop :=
  (∀ vc ∈ config.channels,
    (router.input vc).state = .init ∧ (router.input vc).buffer = []) ∧
  ∀ i ∈ List.range config.physicPorts, (router.port i).outbuffers = []

instance (config : Config) (router : Router Time) :
    Decidable (Quiet config router) := by
  unfold Quiet
  have : ∀ list : List (Flit Time), Decidable (list = []) := fun list =>
    decidable_of_iff (list.isEmpty = true) List.isEmpty_iff
  have : ∀ list : List (Flit Time × VC), Decidable (list = []) := fun list =>
    decidable_of_iff (list.isEmpty = true) List.isEmpty_iff
  infer_instance

theorem quiet_start (config : Config) (address : Addr)
    (pending : List (Record Time)) :
    Quiet config (Router.start config address pending) :=
  ⟨fun _ _ => ⟨rfl, rfl⟩, fun _ _ => rfl⟩

section Stages

variable [LinearOrder Time] {config : Config} {clock : Clock Time}
variable {now : Time} {work : Work Time}

/-- No stage changes a quiet router. -/
theorem Quiet.run (quiet : Quiet config work.router) (stage : Stage) :
    stage.run config clock now work = .ok work := by
  obtain ⟨channels, ports⟩ := quiet
  cases stage with
  | flitTraversal =>
      refine congrArg Except.ok (foldl_fixed ?_)
      intro i member
      rw [List.mem_range'_1] at member
      have empty := ports i (List.mem_range.mpr (by omega))
      simp [flitTraversalPort, empty]
  | flitOutbuffer =>
      refine foldlM_fixed ?_
      intro vc member
      simp [flitOutbufferVC, (channels vc member).1]
  | swArbitration =>
      have requests :
          swRequests config work.router work.rng = ([], work.rng) := by
        refine foldl_fixed ?_
        intro i inside
        have unready : ((List.range config.vcNumber).map fun j =>
            ((i, j) : VC)).filter (swReady work.router) = [] := by
          rw [List.filter_eq_nil_iff]
          intro vc listed
          obtain ⟨j, jInside, rfl⟩ := List.mem_map.mp listed
          have member : (i, j) ∈ config.channels :=
            mem_channels.mpr
              ⟨List.mem_range.mp inside, List.mem_range.mp jInside⟩
          simp [swReady, (channels (i, j) member).1]
        rw [unready]
        rfl
      have settled : (config.channels.any fun vc =>
          (work.router.input vc).state = .swAb &&
            (work.router.input vc).crouting.isNone) = false := by
        rw [List.any_eq_false]
        intro vc member
        simp [(channels vc member).1]
      show swArbitration config work = .ok work
      unfold swArbitration
      rw [settled, requests]
      exact foldlM_fixed fun i _ => rfl
  | vcArbitration =>
      have requests : config.channels.foldlM (vcRequest config work.router)
          (([], work.rng) : List (VC × VC) × Rng) = .ok ([], work.rng) := by
        refine foldlM_fixed ?_
        intro vc member
        simp [vcRequest, (channels vc member).1]
      show vcArbitration config work = .ok work
      unfold vcArbitration
      rw [requests]
      refine congrArg Except.ok (foldl_fixed ?_)
      intro out _
      unfold vcGrant
      split <;> rfl
  | routingDecision =>
      refine foldlM_fixed ?_
      intro vc member
      obtain ⟨state, buffer⟩ := channels vc member
      simp [routingDecisionVC, state, returnCredit, buffer]

end Stages

/-! ## One event at a time -/

namespace Sim

variable [LinearOrder Time] (config : Config) (clock : Clock Time)
variable (simLength : Time)

/-- Runs one stage of a router. -/
def runStage (address : Addr) (sim : Sim Time) (stage : Stage) :
    Except Halt (Sim Time) :=
  (stage.run config clock sim.currentTime (sim.work address)).map
    (sim.absorb address)

/-- `router_sim_pwr`. -/
def runRouter (sim : Sim Time) (address : Addr) : Except Halt (Sim Time) :=
  [Stage.flitTraversal, .flitOutbuffer, .swArbitration, .vcArbitration,
    .routingDecision].foldlM (runStage config clock address) sim

/-- The router that the first event of the queue changes is `active`. -/
def concerns (active : List Addr) (sim : Sim Time) : Bool :=
  match sim.queue.head?.map Event.mess with
  | some (.wire _ des _ _ _) =>
      match config.router des with
      | .ok address => active.contains address
      | .error _ => true
  | some .evg =>
      match sim.trace with
      | [] => true
      | record :: _ =>
          match config.router record.sorAddr with
          | .ok address => active.contains address
          | .error _ => true
  | _ => true

/-- Runs a router unless it is quiet. -/
def runBusy (sim : Sim Time) (address : Addr) : Except Halt (Sim Time) :=
  if Quiet config (sim.network address) then .ok sim
  else sim.runRouter config clock address

/-- The next event, in which only the `active` routers run. -/
def turn (active : List Addr) (sim : Sim Time) : Except Halt (Sim Time) :=
  if sim.concerns config active then do
    let next ← sim.handle config clock simLength
    if next.agenda = [] then .ok next
    else active.foldlM (runBusy config clock) { next with agenda := [] }
  else .error .outOfRange

/-- The next `count` events. -/
def turns (active : List Addr) (count : Nat) (sim : Sim Time) :
    Except Halt (Sim Time) :=
  (List.range count).foldlM
    (fun sim _ => sim.turn config clock simLength active) sim

/-- All routers but the `active` ones are quiet, and no stage is under
way. -/
structure Idle (active : List Addr) (sim : Sim Time) : Prop where
  agenda : sim.agenda = []
  stage : sim.stage = .flitTraversal
  quiet : ∀ address, address ∉ active → Quiet config (sim.network address)

variable {config clock simLength} {sim next : Sim Time} {address : Addr}

/-- The stages of a router change neither the agenda nor other routers. -/
theorem runStage_same {stage : Stage}
    (run : sim.runStage config clock address stage = .ok next) :
    next.agenda = sim.agenda ∧ next.stage = sim.stage ∧
      ∀ other, other ≠ address →
        next.network other = sim.network other := by
  unfold runStage at run
  cases ran : stage.run config clock sim.currentTime (sim.work address) with
  | error _ =>
      rw [ran] at run
      cases run
  | ok work =>
      rw [ran] at run
      cases run
      exact ⟨rfl, rfl, fun other different =>
        Function.update_of_ne different _ _⟩

theorem runRouter_same
    (run : sim.runRouter config clock address = .ok next) :
    next.agenda = sim.agenda ∧ next.stage = sim.stage ∧
      ∀ other, other ≠ address →
        next.network other = sim.network other := by
  refine foldlM_induction
    (fun _ (after : Sim Time) =>
      after.agenda = sim.agenda ∧ after.stage = sim.stage ∧
        ∀ other, other ≠ address →
          after.network other = sim.network other)
    ?_ ⟨rfl, rfl, fun _ _ => rfl⟩ run
  rintro stage _ before after ⟨agenda, itsStage, elsewhere⟩ step
  obtain ⟨sameAgenda, sameStage, same⟩ := runStage_same step
  exact ⟨sameAgenda.trans agenda, sameStage.trans itsStage,
    fun other different =>
      (same other different).trans (elsewhere other different)⟩

theorem runRouter_of_quiet (quiet : Quiet config (sim.network address)) :
    sim.runRouter config clock address = .ok sim := by
  refine foldlM_fixed ?_
  intro stage _
  unfold runStage
  rw [Quiet.run (show Quiet config (sim.work address).router from quiet)]
  exact congrArg Except.ok (absorb_work sim address)

theorem runBusy_eq :
    sim.runBusy config clock address = sim.runRouter config clock address := by
  unfold runBusy
  split
  case isTrue quiet => rw [runRouter_of_quiet quiet]
  case isFalse => rfl

/-! ### Steps -/

/-- One step of the simulator. -/
abbrev Step (config : Config) (clock : Clock Time) (simLength : Time)
    (sim next : Sim Time) : Prop :=
  sim.step config clock simLength = .ok next

/-- A stage is a step. -/
theorem step_of_runStage {stage : Stage} (rest : List Addr)
    (run : sim.runStage config clock address stage = .ok next) :
    Step config clock simLength
      { sim with agenda := address :: rest, stage := stage }
      { next with agenda := address :: rest, stage := stage }.advance := by
  unfold runStage at run
  cases ran : stage.run config clock sim.currentTime (sim.work address) with
  | error _ =>
      rw [ran] at run
      cases run
  | ok work =>
      rw [ran] at run
      cases run
      unfold Step Sim.step
      dsimp only
      have same : stage.run config clock sim.currentTime
          (({ sim with agenda := address :: rest, stage := stage } :
            Sim Time).work address) = .ok work := ran
      rw [same]
      rfl

/-- A router runs its stages. -/
theorem steps_of_runRouter (rest : List Addr)
    (run : sim.runRouter config clock address = .ok next) :
    ReflTransGen (Step config clock simLength)
      { sim with agenda := address :: rest, stage := .flitTraversal }
      { next with agenda := rest, stage := .flitTraversal } := by
  unfold runRouter at run
  simp only [List.foldlM_cons, List.foldlM_nil] at run
  obtain ⟨first, traversal, run⟩ := bind_eq_ok.mp run
  obtain ⟨second, outbuffer, run⟩ := bind_eq_ok.mp run
  obtain ⟨third, switch, run⟩ := bind_eq_ok.mp run
  obtain ⟨fourth, channel, run⟩ := bind_eq_ok.mp run
  obtain ⟨fifth, routing, run⟩ := bind_eq_ok.mp run
  cases run
  have toOutbuffer : Step config clock simLength
      { sim with agenda := address :: rest, stage := .flitTraversal }
      { first with agenda := address :: rest, stage := .flitOutbuffer } :=
    step_of_runStage rest traversal
  have toSwitch : Step config clock simLength
      { first with agenda := address :: rest, stage := .flitOutbuffer }
      { second with agenda := address :: rest, stage := .swArbitration } :=
    step_of_runStage rest outbuffer
  have toChannel : Step config clock simLength
      { second with agenda := address :: rest, stage := .swArbitration }
      { third with agenda := address :: rest, stage := .vcArbitration } :=
    step_of_runStage rest switch
  have toRouting : Step config clock simLength
      { third with agenda := address :: rest, stage := .vcArbitration }
      { fourth with agenda := address :: rest, stage := .routingDecision } :=
    step_of_runStage rest channel
  have toNext : Step config clock simLength
      { fourth with agenda := address :: rest, stage := .routingDecision }
      { next with agenda := rest, stage := .flitTraversal } :=
    step_of_runStage rest routing
  exact ((((ReflTransGen.single toOutbuffer).tail toSwitch).tail
    toChannel).tail toRouting).tail toNext

/-- The routers run one after the other. -/
theorem steps_of_runRouters :
    ∀ {addresses : List Addr} {sim next : Sim Time},
      addresses.foldlM (runRouter config clock) sim = .ok next →
      ReflTransGen (Step config clock simLength)
        { sim with agenda := addresses, stage := .flitTraversal }
        { next with agenda := [], stage := .flitTraversal } := by
  intro addresses
  induction addresses with
  | nil =>
      intro sim next run
      cases run
      exact ReflTransGen.refl
  | cons address rest ih =>
      intro sim next run
      rw [List.foldlM_cons] at run
      obtain ⟨middle, first, remaining⟩ := bind_eq_ok.mp run
      exact (steps_of_runRouter rest first).trans
        (ih remaining)

/-- Quiet routers can be left out. -/
theorem runRouters_of_runBusy {active : List Addr} :
    ∀ {addresses : List Addr} {sim next : Sim Time},
      (∀ address, address ∉ active → Quiet config (sim.network address)) →
      (addresses.filter (active.contains ·)).foldlM (runBusy config clock)
        sim = .ok next →
      addresses.foldlM (runRouter config clock) sim = .ok next ∧
        next.agenda = sim.agenda ∧ next.stage = sim.stage ∧
        ∀ address, address ∉ active →
          Quiet config (next.network address) := by
  intro addresses
  induction addresses with
  | nil =>
      intro sim next quiet run
      cases run
      exact ⟨rfl, rfl, rfl, quiet⟩
  | cons address rest ih =>
      intro sim next quiet run
      rw [List.filter_cons] at run
      split at run
      case isTrue busy =>
        have member : address ∈ active := by simpa using busy
        rw [List.foldlM_cons, runBusy_eq] at run
        obtain ⟨middle, first, remaining⟩ := bind_eq_ok.mp run
        obtain ⟨agenda, stage, elsewhere⟩ := runRouter_same first
        have quietMiddle : ∀ other, other ∉ active →
            Quiet config (middle.network other) := by
          intro other outside
          have different : other ≠ address := by
            rintro rfl
            exact outside member
          rw [elsewhere other different]
          exact quiet other outside
        obtain ⟨whole, sameAgenda, sameStage, quietAfter⟩ :=
          ih quietMiddle remaining
        refine ⟨?_, sameAgenda.trans agenda, sameStage.trans stage,
          quietAfter⟩
        rw [List.foldlM_cons, first]
        exact whole
      case isFalse idle =>
        have outside : address ∉ active := by simpa using idle
        obtain ⟨whole, rest⟩ := ih quiet run
        refine ⟨?_, rest⟩
        rw [List.foldlM_cons, runRouter_of_quiet (quiet address outside)]
        exact whole

/-! ### Events -/

/-- An event changes only routers that it concerns, but for credits. -/
theorem Idle.handle {active : List Addr} (idle : sim.Idle config active)
    (concerned : sim.concerns config active = true)
    (run : sim.handle config clock simLength = .ok next) :
    (next.agenda = [] ∨ next.agenda = config.addresses) ∧
      next.stage = .flitTraversal ∧
      ∀ address, address ∉ active →
        Quiet config (next.network address) := by
  have keeps : ∀ {address : Addr} {router : Router Time},
      (address ∉ active → Quiet config router) →
      ∀ other, other ∉ active →
        Quiet config (Function.update sim.network address router other) := by
    intro address router quiet other outside
    by_cases same : other = address
    · rw [same, Function.update_self]
      exact quiet (same ▸ outside)
    · rw [Function.update_of_ne same]
      exact idle.quiet other outside
  unfold Sim.handle at run
  split at run
  case h_1 => cases run
  case h_2 event rest queue =>
  obtain ⟨time, mess⟩ := event
  unfold Sim.concerns at concerned
  rw [queue, List.head?_cons, Option.map_some] at concerned
  split_ifs at run
  cases mess with
  | evg =>
      unfold Sim.receive Sim.receiveEVGMessage at run
      dsimp only at run concerned
      split at run
      case h_1 => cases run
      case h_2 record records trace =>
      obtain ⟨address, located, run⟩ := bind_eq_ok.mp run
      obtain ⟨router, _, run⟩ := bind_eq_ok.mp run
      rw [trace] at concerned
      dsimp only at concerned
      rw [located] at concerned
      have member : address ∈ active := by simpa using concerned
      split at run <;> cases run <;>
        exact ⟨Or.inl idle.agenda, idle.stage,
          keeps fun outside => absurd member outside⟩
  | router =>
      cases run
      exact ⟨Or.inr rfl, rfl, idle.quiet⟩
  | wire src des pc vc flit =>
      obtain ⟨address, located, run⟩ := bind_eq_ok.mp run
      dsimp only at concerned
      rw [located] at concerned
      have member : address ∈ active := by simpa using concerned
      split at run
      case isFalse => cases run
      case isTrue =>
        cases run
        exact ⟨Or.inl idle.agenda, idle.stage,
          keeps fun outside => absurd member outside⟩
  | credit src des pc vc =>
      obtain ⟨address, located, run⟩ := bind_eq_ok.mp run
      split at run
      case isFalse => cases run
      case isTrue =>
        cases run
        exact ⟨Or.inl idle.agenda, idle.stage,
          keeps fun outside => idle.quiet address outside⟩

/-- The next event. -/
theorem Idle.turn {active : List Addr} (idle : sim.Idle config active)
    (listed : config.addresses.filter (active.contains ·) = active)
    (run : sim.turn config clock simLength active = .ok next) :
    next.Idle config active ∧
      ReflTransGen (Step config clock simLength) sim next := by
  unfold Sim.turn at run
  split at run
  case isFalse => cases run
  case isTrue concerned =>
  obtain ⟨handled, event, run⟩ := bind_eq_ok.mp run
  obtain ⟨agenda, stage, quiet⟩ := idle.handle concerned event
  have step : Step config clock simLength sim handled := by
    unfold Step Sim.step
    rw [idle.agenda]
    exact event
  split at run
  case isTrue between =>
    cases run
    exact ⟨⟨between, stage, quiet⟩, ReflTransGen.single step⟩
  case isFalse busy =>
    have all := agenda.resolve_left busy
    rw [← listed] at run
    have quietStart : ∀ address, address ∉ active → Quiet config
        (({ handled with agenda := [] } : Sim Time).network address) :=
      quiet
    obtain ⟨whole, sameAgenda, sameStage, quietAfter⟩ :=
      runRouters_of_runBusy quietStart run
    have after : next.Idle config active :=
      ⟨sameAgenda, sameStage.trans stage, quietAfter⟩
    refine ⟨after, ReflTransGen.head step ?_⟩
    have path : ReflTransGen (Step config clock simLength) _ _ :=
      steps_of_runRouters whole
    have first : { handled with
        agenda := config.addresses, stage := .flitTraversal } = handled := by
      rw [← all, ← stage]
    have last : { next with
        agenda := [], stage := .flitTraversal } = next := by
      rw [← after.agenda, ← after.stage]
    rw [last] at path
    exact first ▸ path

/-- A run of a few routers is a run of the simulator. -/
theorem reachable_of_turns {time : Time} {trace : List (Record Time)}
    {files : Addr → List (Record Time)} {rng : Rng} {active : List Addr}
    {count : Nat}
    (listed : config.addresses.filter (active.contains ·) = active)
    (run : (start config time trace files rng).turns config clock simLength
      active count = .ok sim) :
    Reachable config clock simLength time trace files rng sim ∧
      sim.agenda = [] := by
  have followed := foldlM_induction
    (fun _ after => after.Idle config active ∧
      ReflTransGen (Step config clock simLength)
        (start config time trace files rng) after)
    ?_ ⟨⟨rfl, rfl, fun address _ => quiet_start config address _⟩,
      ReflTransGen.refl⟩ run
  · exact ⟨followed.2, followed.1.agenda⟩
  · rintro _ _ before after ⟨idle, path⟩ step
    obtain ⟨idleAfter, further⟩ := idle.turn listed step
    exact ⟨idleAfter, path.trans further⟩

end Sim

/-! ## Runs of a small star -/

/-- A star with four leaf chiplets. -/
def starThree : Config where
  arySize := 3
  cubeSize := 4
  vcNumber := 2
  bufferSize := 16
  outbufferSize := 4
  routingAlg := .chipletStarTopoRouting

/-- The first `count` events of a run on the star in which every router has
its own part of `records` in its trace file. -/
def starRun (records : List (Record Nat)) (active : List Addr)
    (draws : Nat → Nat) (count : Nat) : Except Halt (Sim Nat) :=
  (Sim.start starThree 0 records
    (fun address => records.filter (·.sorAddr = address))
    ⟨draws, 0⟩).turns starThree popnetClock 100000000000 active count

theorem reachable_of_starRun {records : List (Record Nat)}
    {active : List Addr} {draws : Nat → Nat} {count : Nat} {sim : Sim Nat}
    (listed : starThree.addresses.filter (active.contains ·) = active)
    (run : starRun records active draws count = .ok sim) :
    Sim.Reachable starThree popnetClock 100000000000 0 records
        (fun address => records.filter (·.sorAddr = address)) ⟨draws, 0⟩
        sim ∧
      sim.agenda = [] :=
  Sim.reachable_of_turns listed run

/-- A packet of two flits from one leaf chiplet to another. -/
def leafRecord : Record Nat :=
  ⟨0, [0, 0, 0, 0], [0, 1, 0, 0], 2⟩

end ChipletSniper.Popnet
