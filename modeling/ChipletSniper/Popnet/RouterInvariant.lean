import ChipletSniper.Popnet.Moves

/-!
# The state of a channel and its history

`INIT_` is the state of an idle channel and of a channel whose packet has a
gap in it, and only the history of the channel tells the two apart.  The
invariant of this file says for every input channel how its state, its buffer
and the outputs it holds follow from the flits that came in and went out.
-/

namespace ChipletSniper.Popnet

open Library Relation

variable {Time : Type}

/-! ## Histories -/

namespace Note

/-- The flit came in on `vc`. -/
def arrival (vc : VC) : Note Time → Option (Flit Time)
  | .arrived channel flit => if channel = vc then some flit else none
  | _ => none

/-- The flit left channel `vc`. -/
def departure (vc : VC) : Note Time → Option (Flit Time)
  | .passed channel _ flit => if channel = vc then some flit else none
  | .accepted channel flit => if channel = vc then some flit else none
  | _ => none

/-- The flit went to the output `out`. -/
def passage (out : VC) : Note Time → Option (Flit Time)
  | .passed _ target flit => if target = out then some flit else none
  | _ => none

/-- The flit was accepted from channel `vc`. -/
def acceptance (vc : VC) : Note Time → Option (Flit Time)
  | .accepted channel flit => if channel = vc then some flit else none
  | _ => none

/-- The output that `vc` has won and whose packet has not passed: it is won
in the arbitration and lost when the tail passes. -/
def holding (vc : VC) (current : Option VC) : Note Time → Option VC
  | .granted channel out => if channel = vc then some out else current
  | .passed channel _ flit =>
      if channel = vc ∧ isTail flit.type = true then none else current
  | _ => current

end Note

namespace Router

variable (router : Router Time)

def arrivals (vc : VC) : List (Flit Time) :=
  router.log.filterMap (Note.arrival vc)

def departed (vc : VC) : List (Flit Time) :=
  router.log.filterMap (Note.departure vc)

def passedTo (out : VC) : List (Flit Time) :=
  router.log.filterMap (Note.passage out)

def acceptedAt (vc : VC) : List (Flit Time) :=
  router.log.filterMap (Note.acceptance vc)

/-- The output whose arbitration the current packet of `vc` has won and whose
tail has not passed. -/
def holder (vc : VC) : Option VC :=
  router.log.foldl (Note.holding vc) none

end Router

/-! ### One more note -/

/-- The input channel that a note is about. -/
def Note.channel : Note Time → VC
  | .arrived vc _ => vc
  | .granted vc _ => vc
  | .passed vc _ _ => vc
  | .accepted vc _ => vc

section Notes

variable {router next : Router Time} {notes : List (Note Time)} {vc : VC}

private theorem filterMap_eq_nil {pick : Note Time → Option (Flit Time)}
    (foreign : ∀ note ∈ notes, pick note = none) :
    notes.filterMap pick = [] :=
  List.filterMap_eq_nil_iff.mpr foreign

theorem arrivals_of_log (log : next.log = router.log ++ notes) :
    next.arrivals vc = router.arrivals vc ++
      notes.filterMap (Note.arrival vc) := by
  rw [Router.arrivals, log, List.filterMap_append, Router.arrivals]

theorem departed_of_log (log : next.log = router.log ++ notes) :
    next.departed vc = router.departed vc ++
      notes.filterMap (Note.departure vc) := by
  rw [Router.departed, log, List.filterMap_append, Router.departed]

theorem passedTo_of_log (log : next.log = router.log ++ notes) (out : VC) :
    next.passedTo out = router.passedTo out ++
      notes.filterMap (Note.passage out) := by
  rw [Router.passedTo, log, List.filterMap_append, Router.passedTo]

theorem acceptedAt_of_log (log : next.log = router.log ++ notes) :
    next.acceptedAt vc = router.acceptedAt vc ++
      notes.filterMap (Note.acceptance vc) := by
  rw [Router.acceptedAt, log, List.filterMap_append, Router.acceptedAt]

theorem holder_of_log (log : next.log = router.log ++ notes) :
    next.holder vc =
      notes.foldl (Note.holding vc) (router.holder vc) := by
  rw [Router.holder, log, List.foldl_append, Router.holder]

private theorem holding_foreign (current : Option VC)
    (foreign : ∀ note ∈ notes, note.channel ≠ vc) :
    notes.foldl (Note.holding vc) current = current := by
  induction notes with
  | nil => rfl
  | cons note rest ih =>
      have different := foreign note List.mem_cons_self
      have unchanged : Note.holding vc current note = current := by
        cases note <;> simp_all [Note.holding, Note.channel]
      rw [List.foldl_cons, unchanged]
      exact ih fun other member =>
        foreign other (List.mem_cons_of_mem note member)

end Notes

section

variable [LinearOrder Time]

/-- The packet of which some flits have left the channel, by its last such
flit. -/
def Router.opened (router : Router Time) (vc : VC) : Option (Flit Time) :=
  (framing (router.departed vc)).join

end

/-! ## The invariant -/

/-- The phases of a packet in an input channel. -/
inductive Phase (config : Config) (address : Addr) (vc : VC)
    (channel : InputVC Time) (opened : Option (Flit Time))
    (holder : Option VC) : Prop
  /-- No packet is on its way.  An injection channel may be stuck here with
  packets in its buffer. -/
  | idle :
      channel.state = .init → (vc.1 ≠ 0 → channel.buffer = []) →
      opened = none → holder = none → Phase config address vc channel opened
        holder
  /-- The rest of the packet has not arrived yet. -/
  | gap (last : Flit Time) (out : VC) :
      channel.state = .init → vc.1 ≠ 0 → channel.buffer = [] →
      opened = some last → holder = some out →
      Phase config address vc channel opened holder
  | routing :
      channel.state = .routing → channel.buffer ≠ [] → opened = none →
      holder = none → Phase config address vc channel opened holder
  | requesting (flit : Flit Time) (rest : List (Flit Time)) :
      channel.state = .vcAb → channel.buffer = flit :: rest →
      address ≠ flit.desAddr →
      channel.routing =
        currAlgorithm config.arySize address flit.desAddr config.routingAlg →
      opened = none → holder = none →
      Phase config address vc channel opened holder
  | active (out : VC) :
      channel.state = .swAb ∨ channel.state = .swTr → channel.buffer ≠ [] →
      holder = some out → Phase config address vc channel opened holder
  | home (last : Flit Time) :
      channel.state = .home → opened = some last →
      last.desAddr = address → holder = none →
      Phase config address vc channel opened holder

/-- The phase tells whether a packet is at home. -/
theorem Phase.home_iff {config : Config} {address : Addr} {vc : VC}
    {channel : InputVC Time} {opened : Option (Flit Time)}
    {holder : Option VC}
    (phase : Phase config address vc channel opened holder) :
    channel.state = .home ↔ opened ≠ none ∧ holder = none := by
  cases phase with
  | idle state _ opened _ | routing state _ opened _
  | requesting _ _ state _ _ _ opened _ => simp [state, opened]
  | gap _ _ state _ _ _ held => simp [state, held]
  | active _ state _ held => rcases state with state | state <;> simp [state, held]
  | home last state opened _ free => simp [state, opened, free]

/-- The packet that holds an output: its first flit in the buffer, or the flit
that left last. -/
def Current (channel : InputVC Time) (opened : Option (Flit Time))
    (flit : Flit Time) : Prop :=
  opened = some flit ∨ (opened = none ∧ channel.buffer.head? = some flit)

/-- The output that a channel holds is one that its packet was routed to. -/
structure Holds (config : Config) (address : Addr) (channel : InputVC Time)
    (opened : Option (Flit Time)) (out : VC) : Prop where
  crouting : channel.crouting = some out
  inRange : config.InRange out
  outward : 1 ≤ out.1
  routed : ∀ flit, Current channel opened flit →
    address ≠ flit.desAddr ∧
      out ∈ currAlgorithm config.arySize address flit.desAddr
        config.routingAlg

section

variable [LinearOrder Time]

/-- What holds for one input channel. -/
structure ChannelOk (config : Config) (router : Router Time) (vc : VC) :
    Prop where
  history :
    router.arrivals vc = router.departed vc ++ (router.input vc).buffer
  framed : ∃ last, framing (router.arrivals vc) = some last
  whole : vc.1 = 0 → framing (router.arrivals vc) = some none
  departed : framing (router.departed vc) = some (router.opened vc)
  accepted :
    framing (router.acceptedAt vc) =
      some (if (router.input vc).state = .home then router.opened vc else none)
  atHome : ∀ flit ∈ router.acceptedAt vc, flit.desAddr = router.address
  phase :
    Phase config router.address vc (router.input vc) (router.opened vc)
      (router.holder vc)
  holds : ∀ out, router.holder vc = some out →
    Holds config router.address (router.input vc) (router.opened vc) out

/-- The invariant of a router. -/
structure RouterInv (config : Config) (router : Router Time) : Prop where
  channel : ∀ vc, ChannelOk config router vc
  outside : ∀ vc, ¬ config.InRange vc →
    (router.input vc).state = .init ∧ router.holder vc = none
  assigned : ∀ vc out,
    router.holder vc = some out ↔ (router.output out).assign = some vc
  usage : ∀ out,
    (router.output out).usage = .free ↔ (router.output out).assign = none
  sent : ∀ out,
    framing (router.passedTo out) =
      some ((router.output out).assign.bind router.opened)

end

/-! ## The start -/

theorem routerInv_start [LinearOrder Time] (config : Config) (address : Addr)
    (pending : List (Record Time)) :
    RouterInv config (Router.start config address pending) where
  channel := fun vc =>
    { history := rfl
      framed := ⟨none, rfl⟩
      whole := fun _ => rfl
      departed := rfl
      accepted := rfl
      atHome := fun _ member => by cases member
      phase := .idle rfl (fun _ => rfl) rfl rfl
      holds := fun _ held => by cases held }
  outside := fun _ _ => ⟨rfl, rfl⟩
  assigned := fun _ _ => ⟨fun held => (by cases held), fun held => (by cases held)⟩
  usage := fun _ => ⟨fun _ => rfl, fun _ => rfl⟩
  sent := fun _ => rfl

/-! ## Frame lemmas -/

section Frames

variable [LinearOrder Time] {config : Config} {router next : Router Time}

/-- Only the input channels, the ownership of the outputs and the history
matter. -/
theorem RouterInv.of_same (inv : RouterInv config router)
    (address : next.address = router.address)
    (input : next.input = router.input)
    (usage : ∀ out, (next.output out).usage = (router.output out).usage)
    (assign : ∀ out, (next.output out).assign = (router.output out).assign)
    (log : next.log = router.log) :
    RouterInv config next := by
  have arrivals : next.arrivals = router.arrivals := by
    funext vc
    rw [Router.arrivals, log, Router.arrivals]
  have departed : next.departed = router.departed := by
    funext vc
    rw [Router.departed, log, Router.departed]
  have acceptedAt : next.acceptedAt = router.acceptedAt := by
    funext vc
    rw [Router.acceptedAt, log, Router.acceptedAt]
  have passedTo : next.passedTo = router.passedTo := by
    funext vc
    rw [Router.passedTo, log, Router.passedTo]
  have holder : next.holder = router.holder := by
    funext vc
    rw [Router.holder, log, Router.holder]
  have opened : next.opened = router.opened := by
    funext vc
    rw [Router.opened, departed, Router.opened]
  refine ⟨?_, ?_, ?_, ?_, ?_⟩
  · intro vc
    have before := inv.channel vc
    refine ⟨?_, ?_, ?_, ?_, ?_, ?_, ?_, ?_⟩ <;>
      simp only [arrivals, departed, acceptedAt, holder, opened, input,
        address]
    exacts [before.history, before.framed, before.whole, before.departed,
      before.accepted, before.atHome, before.phase, before.holds]
  · intro vc outside
    rw [input, holder]
    exact inv.outside vc outside
  · intro vc out
    rw [holder, assign]
    exact inv.assigned vc out
  · intro out
    rw [usage, assign]
    exact inv.usage out
  · intro out
    rw [passedTo, assign, opened]
    exact inv.sent out

/-- What a move that concerns one input channel leaves alone. -/
structure Elsewhere (router next : Router Time) (vc : VC) : Prop where
  address : next.address = router.address
  input : ∀ other, other ≠ vc → next.input other = router.input other
  arrivals : ∀ other, other ≠ vc →
    next.arrivals other = router.arrivals other
  departed : ∀ other, other ≠ vc →
    next.departed other = router.departed other
  acceptedAt : ∀ other, other ≠ vc →
    next.acceptedAt other = router.acceptedAt other
  holder : ∀ other, other ≠ vc → next.holder other = router.holder other

omit [LinearOrder Time] in
/-- Notes about one channel do not concern another. -/
theorem elsewhere_of_log {vc : VC} {notes : List (Note Time)}
    (address : next.address = router.address)
    (input : ∀ other, other ≠ vc → next.input other = router.input other)
    (log : next.log = router.log ++ notes)
    (about : ∀ note ∈ notes, note.channel = vc) :
    Elsewhere router next vc := by
  refine ⟨address, input, ?_, ?_, ?_, ?_⟩
  all_goals
    intro other different
    have foreign : ∀ note ∈ notes, note.channel ≠ other :=
      fun note member same => different (same.symm.trans (about note member))
  · rw [arrivals_of_log log, filterMap_eq_nil, List.append_nil]
    intro note member
    have apart := foreign note member
    cases note <;> simp_all [Note.arrival, Note.channel]
  · rw [departed_of_log log, filterMap_eq_nil, List.append_nil]
    intro note member
    have apart := foreign note member
    cases note <;> simp_all [Note.departure, Note.channel]
  · rw [acceptedAt_of_log log, filterMap_eq_nil, List.append_nil]
    intro note member
    have apart := foreign note member
    cases note <;> simp_all [Note.acceptance, Note.channel]
  · rw [holder_of_log log, holding_foreign _ foreign]

theorem Elsewhere.opened {vc : VC} (elsewhere : Elsewhere router next vc)
    {other : VC} (different : other ≠ vc) :
    next.opened other = router.opened other := by
  rw [Router.opened, elsewhere.departed other different, Router.opened]

theorem Elsewhere.channel {vc : VC} (elsewhere : Elsewhere router next vc)
    {other : VC} (different : other ≠ vc)
    (before : ChannelOk config router other) :
    ChannelOk config next other := by
  refine ⟨?_, ?_, ?_, ?_, ?_, ?_, ?_, ?_⟩ <;>
    simp only [elsewhere.arrivals other different,
      elsewhere.departed other different,
      elsewhere.acceptedAt other different,
      elsewhere.holder other different, elsewhere.opened different,
      elsewhere.input other different, elsewhere.address]
  exacts [before.history, before.framed, before.whole, before.departed,
    before.accepted, before.atHome, before.phase, before.holds]

/-- A move inside one channel that neither wins nor loses an output. -/
theorem RouterInv.of_channel (inv : RouterInv config router) {vc : VC}
    (inRange : config.InRange vc)
    (elsewhere : Elsewhere router next vc)
    (output : next.output = router.output)
    (passedTo : next.passedTo = router.passedTo)
    (holder : next.holder vc = router.holder vc)
    (opened : router.holder vc = none ∨ next.opened vc = router.opened vc)
    (channel : ChannelOk config next vc) :
    RouterInv config next := by
  have holders : next.holder = router.holder := by
    funext other
    by_cases same : other = vc
    · rw [same, holder]
    · exact elsewhere.holder other same
  refine ⟨?_, ?_, ?_, ?_, ?_⟩
  · intro other
    by_cases same : other = vc
    · rwa [same]
    · exact elsewhere.channel same (inv.channel other)
  · intro other outside
    have different : other ≠ vc := by
      rintro rfl
      exact outside inRange
    rw [elsewhere.input other different, holders]
    exact inv.outside other outside
  · intro other out
    rw [holders, output]
    exact inv.assigned other out
  · intro out
    rw [output]
    exact inv.usage out
  · intro out
    rw [passedTo, output, inv.sent out]
    cases assign : (router.output out).assign with
    | none => rfl
    | some owner =>
        have held := (inv.assigned owner out).mpr assign
        rw [Option.bind_some, Option.bind_some]
        by_cases same : owner = vc
        · rw [same] at held ⊢
          rcases opened with none | unchanged
          · rw [none] at held
            cases held
          · rw [unchanged]
        · rw [elsewhere.opened same]

end Frames

end ChipletSniper.Popnet
