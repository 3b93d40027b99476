import ChipletSniper.Popnet.RouterMoves

/-!
# A router on its own

The rest of the network is replaced by an environment that may send flits of
framed packets, credits and local packets at any time, between any two stages
of the pipeline.
-/

namespace ChipletSniper.Popnet

open Library Relation

variable {Time : Type} [LinearOrder Time]

omit [LinearOrder Time] in
/-- A router and the stage that it runs next. -/
structure Lone (Time : Type) where
  router : Router Time
  stage : Stage

/-- What the environment and the pipeline can do. -/
inductive Action (Time : Type) where
  | flit (vc : VC) (flit : Flit Time)
  | credit (out : VC)
  | packets (now : Time)
  | pipeline (now : Time) (rng : Rng)

namespace Lone

variable (config : Config) (clock : Clock Time)

omit [LinearOrder Time] in
def start (address : Addr) (pending : List (Record Time)) : Lone Time :=
  ⟨Router.start config address pending, .flitTraversal⟩

/-- One action.  A flit that does not continue the packets of its channel is
not sent. -/
def perform (lone : Lone Time) : Action Time → Option (Lone Time)
  | .flit vc flit =>
      if config.InRange vc ∧ vc.1 ≠ 0 ∧
          (framing (lone.router.arrivals vc ++ [flit])).isSome = true then
        some { lone with router := receiveFlit lone.router vc flit }
      else none
  | .credit out => some { lone with router := receiveCredit lone.router out }
  | .packets now =>
      (receivePacket config clock now lone.router).toOption.map fun router =>
        { lone with router := router }
  | .pipeline now rng =>
      (lone.stage.run config clock now
        ⟨lone.router, [], rng, 0⟩).toOption.map fun work =>
        ⟨work.router, lone.stage.next.getD .flitTraversal⟩

end Lone

/-! ## The invariant -/

section Invariant

variable {config : Config} {clock : Clock Time} {lone next : Lone Time}

/-- The switch is free when it is about to be arbitrated. -/
structure LoneInv (config : Config) (lone : Lone Time) : Prop where
  router : RouterInv config lone.router
  switch : lone.stage = .swArbitration → SwitchFree config lone.router

omit [LinearOrder Time] in
theorem toOption_eq_some {Value Error : Type} {result : Except Error Value}
    {value : Value} :
    result.toOption = some value ↔ result = .ok value := by
  cases result <;> simp [Except.toOption]

omit [LinearOrder Time] in
/-- A flit that arrives does not take the switch. -/
theorem SwitchFree.receiveFlit {router : Router Time}
    (free : SwitchFree config router) (vc : VC) (flit : Flit Time) :
    SwitchFree config (receiveFlit router vc flit) := by
  intro other inRange
  have before := free other inRange
  unfold Popnet.receiveFlit Router.record Router.setInput
  dsimp only
  by_cases same : other = vc
  · subst same
    rw [Function.update_self]
    dsimp only
    split_ifs <;> first | exact before | simp
  · rwa [Function.update_of_ne same]

theorem LoneInv.perform {action : Action Time} (inv : LoneInv config lone)
    (step : lone.perform config clock action = some next) :
    LoneInv config next := by
  cases action with
  | flit vc flit =>
      simp only [Lone.perform, Option.ite_none_right_eq_some,
        Option.some.injEq] at step
      obtain ⟨⟨inRange, outer, framed⟩, rfl⟩ := step
      obtain ⟨last, framed⟩ := Option.isSome_iff_exists.mp framed
      obtain ⟨current, before⟩ := (inv.router.channel vc).framed
      exact ⟨inv.router.receiveFlit inRange outer before
          (accepts_of_framing framed before),
        fun atSwitch => (inv.switch atSwitch).receiveFlit vc flit⟩
  | credit out =>
      cases step
      exact ⟨inv.router.receiveCredit out, inv.switch⟩
  | packets now =>
      simp only [Lone.perform, Option.map_eq_some_iff, toOption_eq_some]
        at step
      obtain ⟨router, run, rfl⟩ := step
      have moves :=
        moves_receivePacket
          (show receivePacket config clock now
            (⟨lone.router, [], ⟨fun _ => 0, 0⟩, 0⟩ : Work Time).router =
              .ok router from run)
      refine ⟨inv.router.moves moves, ?_⟩
      intro atSwitch vc inRange busy
      exact inv.switch atSwitch vc inRange (receiveRecords_swTr run busy)
  | pipeline now rng =>
      simp only [Lone.perform, Option.map_eq_some_iff, toOption_eq_some]
        at step
      obtain ⟨work, run, rfl⟩ := step
      have moves := moves_stage inv.switch run
      refine ⟨inv.router.moves moves, ?_⟩
      intro atSwitch
      cases stage : lone.stage with
      | flitOutbuffer =>
          rw [stage] at run
          exact switchFree_flitOutbuffer run
      | flitTraversal | swArbitration | vcArbitration | routingDecision =>
          rw [stage] at atSwitch
          cases atSwitch

theorem loneInv_of_run {address : Addr} {pending : List (Record Time)}
    {actions : List (Action Time)}
    (run : actions.foldlM (Lone.perform config clock)
      (Lone.start config address pending) = some lone) :
    LoneInv config lone := by
  have path : ReflTransGen
      (fun before after =>
        ∃ action, Lone.perform config clock before action = some after)
      (Lone.start config address pending) lone :=
    reflTransGen_of_foldlM (fun _ action _ step => ⟨action, step⟩) run
  refine invariant_of_reflTransGen (LoneInv config) ?_ ⟨?_, ?_⟩ path
  · rintro before after inv ⟨action, step⟩
    exact inv.perform step
  · exact routerInv_start config address pending
  · intro atSwitch
    cases atSwitch

end Invariant

/-! ## Exclusive ownership -/

omit [LinearOrder Time] in
/-- The current packet of the input channel `vc` has won the output `out` in
`vc_arbitration`, and its tail has not passed `flit_outbuffer`. -/
def Owns (router : Router Time) (vc out : VC) : Prop :=
  (router.input vc).crouting = some out ∧ router.holder vc = some out

theorem RouterInv.owns_iff {config : Config} {router : Router Time}
    (inv : RouterInv config router) {vc out : VC} :
    Owns router vc out ↔ (router.output out).assign = some vc := by
  rw [← inv.assigned]
  constructor
  · exact And.right
  · intro held
    exact ⟨((inv.channel vc).holds out held).crouting, held⟩

/-- Whatever the environment sends and whatever numbers are drawn, an output
channel is in use exactly while the input channel it is assigned to owns it,
it has at most one owner, and a channel that waits for the switch or holds it
owns the output it was given. -/
theorem output_ownership_exclusive {config : Config} {clock : Clock Time}
    {address : Addr} {pending : List (Record Time)}
    {actions : List (Action Time)} {lone : Lone Time}
    (run : actions.foldlM (Lone.perform config clock)
      (Lone.start config address pending) = some lone) :
    (∀ out, (lone.router.output out).usage = .used ↔
      ∃ vc, config.InRange vc ∧
        (lone.router.output out).assign = some vc ∧
        Owns lone.router vc out) ∧
    (∀ out first second, Owns lone.router first out →
      Owns lone.router second out → first = second) ∧
    (∀ out, (lone.router.output out).usage = .free →
      (lone.router.output out).assign = none ∧
        ∀ vc, ¬ Owns lone.router vc out) ∧
    (∀ vc, (lone.router.input vc).state = .swAb ∨
        (lone.router.input vc).state = .swTr →
      ∃ out, (lone.router.input vc).crouting = some out ∧
        Owns lone.router vc out) := by
  have inv := (loneInv_of_run run).router
  refine ⟨?_, ?_, ?_, ?_⟩
  · intro out
    constructor
    · intro used
      cases assign : (lone.router.output out).assign with
      | none =>
          rw [(inv.usage out).mpr assign] at used
          cases used
      | some vc =>
          have owns := inv.owns_iff.mpr assign
          refine ⟨vc, ?_, rfl, owns⟩
          by_contra outside
          have unheld := (inv.outside vc outside).2
          rw [owns.2] at unheld
          cases unheld
    · rintro ⟨vc, _, assign, _⟩
      cases usage : (lone.router.output out).usage with
      | used => rfl
      | free =>
          rw [(inv.usage out).mp usage] at assign
          cases assign
  · intro out first second ownsFirst ownsSecond
    have assigned := inv.owns_iff.mp ownsFirst
    rw [inv.owns_iff.mp ownsSecond, Option.some.injEq] at assigned
    exact assigned.symm
  · intro out free
    have unassigned := (inv.usage out).mp free
    refine ⟨unassigned, ?_⟩
    intro vc owns
    rw [inv.owns_iff.mp owns] at unassigned
    cases unassigned
  · intro vc busy
    obtain ⟨_, out, held⟩ := (inv.channel vc).of_active busy
    have crouting := ((inv.channel vc).holds out held).crouting
    exact ⟨out, crouting, crouting, held⟩

/-- Two routers in a row and a packet of two flits for the other one: after
nine stages it has won an output. -/
def grantConfig : Config where
  arySize := 2
  cubeSize := 2
  vcNumber := 2
  bufferSize := 4
  outbufferSize := 4
  routingAlg := .txy

def grantActions : List (Action Nat) :=
  .packets 0 :: List.replicate 9 (.pipeline 0 ⟨fun _ => 0, 0⟩)

def grantRun : Option (Lone Nat) :=
  grantActions.foldlM (Lone.perform grantConfig popnetClock)
    (Lone.start grantConfig [0, 0] [⟨0, [0, 0], [1, 0], 2⟩])

theorem output_ownership_of_grant :
    ∃ lone, grantRun = some lone ∧
      (lone.router.output (2, 1)).usage = .used ∧
      ∃ vc, grantConfig.InRange vc ∧
        (lone.router.output (2, 1)).assign = some vc ∧
        Owns lone.router vc (2, 1) := by
  have evaluated :
      (grantRun.map fun lone => (lone.router.output (2, 1)).usage) =
        some .used := by
    decide +kernel
  obtain ⟨lone, run, used⟩ := Option.map_eq_some_iff.mp evaluated
  exact ⟨lone, run, used,
    ((output_ownership_exclusive run).1 (2, 1)).mp used⟩

end ChipletSniper.Popnet
