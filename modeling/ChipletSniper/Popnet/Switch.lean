import ChipletSniper.Popnet.RouterMoves

/-!
# Credits and output buffers of one router

A channel that holds the switch has a credit for its output and a place in the
output buffer, and it is the only channel that is about to use that port.
-/

namespace ChipletSniper.Popnet

open Library Relation Function

variable {Time : Type}

/-- The flits in an output buffer that are meant for one virtual channel. -/
def OutputPort.tagged (port : OutputPort Time) (v : Nat) : List (Flit Time) :=
  port.outbuffers.filterMap fun entry =>
    if entry.2.2 = v then some entry.1 else none

/-- What holds for the outputs of a router. -/
structure SwitchInv (config : Config) (router : Router Time) : Prop where
  counter : ∀ out, 0 ≤ (router.output out).counter
  localcounter : ∀ i, 0 ≤ (router.port i).localcounter
  occupied : ∀ i,
    (router.port i).localcounter + ((router.port i).outbuffers.length : ℤ) =
      config.outbufferSize
  holds : ∀ vc, (router.input vc).state = .swTr →
    ∃ out, (router.input vc).crouting = some out ∧
      1 ≤ (router.output out).counter ∧
      1 ≤ (router.port out.1).localcounter
  unique : ∀ first second,
    (router.input first).state = .swTr →
    (router.input second).state = .swTr →
    outPort router first = outPort router second → first = second
  /-- The flits in an output buffer are the last that passed. -/
  tagged : ∀ out, ∃ sent,
    router.passedTo out = sent ++ (router.port out.1).tagged out.2

theorem switchInv_start (config : Config) (address : Addr)
    (pending : List (Record Time)) :
    SwitchInv config (Router.start config address pending) where
  counter := fun _ => by simp [Router.start]
  localcounter := fun _ => by simp [Router.start]
  occupied := fun _ => by simp [Router.start]
  holds := fun _ busy => by cases busy
  unique := fun _ _ busy => by cases busy
  tagged := fun _ => ⟨[], rfl⟩

section Frames

variable {config : Config} {router next : Router Time}

/-- Nothing is sent, and no channel gets the switch. -/
theorem SwitchInv.of_quiet (inv : SwitchInv config router)
    (input : ∀ vc, (next.input vc).state = .swTr →
      (router.input vc).state = .swTr ∧
        (next.input vc).crouting = (router.input vc).crouting)
    (output : ∀ out,
      (router.output out).counter ≤ (next.output out).counter)
    (port : next.port = router.port)
    (passedTo : ∀ out, next.passedTo out = router.passedTo out) :
    SwitchInv config next := by
  have outPorts : ∀ vc, (next.input vc).state = .swTr →
      outPort next vc = outPort router vc := by
    intro vc busy
    rw [outPort, (input vc busy).2, outPort]
  refine ⟨?_, ?_, ?_, ?_, ?_, ?_⟩
  · exact fun out => Int.le_trans (inv.counter out) (output out)
  · rw [port]
    exact inv.localcounter
  · rw [port]
    exact inv.occupied
  · intro vc busy
    obtain ⟨before, crouting⟩ := input vc busy
    obtain ⟨out, chosen, credit, room⟩ := inv.holds vc before
    rw [crouting, port]
    exact ⟨out, chosen, Int.le_trans credit (output out), room⟩
  · intro first second busyFirst busySecond same
    rw [outPorts first busyFirst, outPorts second busySecond] at same
    exact inv.unique first second (input first busyFirst).1
      (input second busySecond).1 same
  · intro out
    rw [passedTo, port]
    exact inv.tagged out

/-- One input channel changes and does not hold the switch afterwards. -/
theorem update_swTr {vc : VC} {channel : InputVC Time}
    (idle : channel.state ≠ .swTr) :
    ∀ other,
      (update router.input vc channel other).state = .swTr →
      (router.input other).state = .swTr ∧
        (update router.input vc channel other).crouting =
          (router.input other).crouting := by
  intro other busy
  by_cases same : other = vc
  · rw [same, update_self] at busy
    exact absurd busy idle
  · rw [update_of_ne same] at busy ⊢
    exact ⟨busy, rfl⟩

end Frames

section Moves

variable {config : Config} {router : Router Time}
variable {vc out : VC} {flit : Flit Time} {rest : List (Flit Time)}

theorem SwitchInv.receiveCredit (inv : SwitchInv config router) :
    SwitchInv config (receiveCredit router out) := by
  refine inv.of_quiet (fun _ busy => ⟨busy, rfl⟩) ?_ rfl (fun _ => rfl)
  intro target
  unfold Popnet.receiveCredit Router.setOutput
  dsimp only
  by_cases same : target = out
  · rw [same, update_self]
    exact Int.le_add_one (Int.le_refl _)
  · apply Int.le_of_eq
    rw [update_of_ne same]

theorem SwitchInv.receiveFlit (inv : SwitchInv config router) :
    SwitchInv config (receiveFlit router vc flit) := by
  refine inv.of_quiet ?_ (fun _ => Int.le_refl _) rfl ?_
  · intro other busy
    unfold Popnet.receiveFlit Router.record Router.setInput at busy ⊢
    dsimp only at busy ⊢
    by_cases same : other = vc
    · subst same
      rw [update_self] at busy ⊢
      refine ⟨?_, rfl⟩
      dsimp only at busy
      split_ifs at busy <;> exact busy
    · rw [update_of_ne same] at busy ⊢
      exact ⟨busy, rfl⟩
  · intro target
    have log : (Popnet.receiveFlit router vc flit).log =
        router.log ++ [.arrived vc flit] := rfl
    simp [passedTo_of_log log, Note.passage]

theorem SwitchInv.readRecord (inv : SwitchInv config router)
    (held : Option VC) (record : Record Time) (records : List (Record Time)) :
    SwitchInv config (readRecord config held router record records) := by
  unfold Popnet.readRecord addPacketHolding
  by_cases empty : record.packSize ≤ 0
  · simp only [empty, if_true]
    exact inv.of_quiet (fun _ busy => ⟨busy, rfl⟩) (fun _ => Int.le_refl _)
      rfl (fun _ => rfl)
  · simp only [empty, if_false]
    refine inv.of_quiet ?_ (fun _ => Int.le_refl _) rfl ?_
    · intro other busy
      simp only [Router.record, Router.setInput] at busy ⊢
      by_cases same : other = (0, shortestVC config router)
      · subst same
        rw [update_self] at busy ⊢
        refine ⟨?_, rfl⟩
        dsimp only at busy
        split_ifs at busy
        · exact busy
      · rw [update_of_ne same] at busy ⊢
        exact ⟨busy, rfl⟩
    · intro target
      simp [Router.passedTo, Router.record, Router.setInput,
        List.filterMap_map, comp_def, Note.passage]

/-- A flit is accepted. -/
theorem SwitchInv.accept (inv : SwitchInv config router)
    {channel : InputVC Time} (idle : channel.state ≠ .swTr) :
    SwitchInv config
      ((router.setInput vc channel).record [.accepted vc flit]) := by
  refine inv.of_quiet (update_swTr idle) (fun _ => Int.le_refl _) rfl ?_
  intro target
  simp [Router.passedTo, Router.record, Router.setInput, Note.passage]

theorem SwitchInv.route (inv : SwitchInv config router)
    {channel : InputVC Time} (idle : channel.state ≠ .swTr) :
    SwitchInv config (router.setInput vc channel) :=
  inv.of_quiet (update_swTr idle) (fun _ => Int.le_refl _) rfl
    (fun _ => rfl)

theorem SwitchInv.grantChannel (inv : SwitchInv config router)
    {channel : InputVC Time} (idle : channel.state ≠ .swTr) :
    SwitchInv config
      (((router.setInput vc channel).acquire out vc).record
        [.granted vc out]) := by
  refine inv.of_quiet (update_swTr idle) ?_ rfl ?_
  · intro target
    simp only [Router.record, Router.acquire, Router.setInput,
      Router.setOutput]
    by_cases same : target = out
    · apply Int.le_of_eq
      rw [same, update_self]
    · apply Int.le_of_eq
      rw [update_of_ne same]
  · intro target
    simp [Router.passedTo, Router.record, Router.setInput, Router.acquire,
      Router.setOutput, Note.passage]

variable [LinearOrder Time]

theorem SwitchInv.grantSwitch (inv : SwitchInv config router)
    (routerInv : RouterInv config router)
    (crouting : (router.input vc).crouting = some out)
    (credit : 0 < (router.output out).counter)
    (room : 0 < (router.port out.1).localcounter)
    (alone : ∀ other, config.InRange other →
      (router.input other).state = .swTr → outPort router other ≠ out.1) :
    SwitchInv config (router.stateUpdate vc .swTr) := by
  have itself : outPort router vc = out.1 := by simp [outPort, crouting]
  have before : ∀ other, other ≠ vc →
      ((router.stateUpdate vc .swTr).input other).state = .swTr →
      (router.input other).state = .swTr := by
    intro other different busy
    rwa [stateUpdate_input, update_of_ne different] at busy
  have apart : ∀ other, other ≠ vc →
      ((router.stateUpdate vc .swTr).input other).state = .swTr →
      outPort router other ≠ out.1 := by
    intro other different busy
    have already := before other different busy
    refine alone other ?_ already
    by_contra outside
    rw [(routerInv.outside other outside).1] at already
    cases already
  refine ⟨inv.counter, inv.localcounter, inv.occupied, ?_, ?_, inv.tagged⟩
  · intro other busy
    by_cases same : other = vc
    · subst same
      rw [stateUpdate_input, update_self]
      exact ⟨out, crouting, credit, room⟩
    · rw [stateUpdate_input, update_of_ne same]
      exact inv.holds other (before other same busy)
  · intro first second busyFirst busySecond same
    rw [outPort_stateUpdate, outPort_stateUpdate] at same
    by_cases isFirst : first = vc
    · by_cases isSecond : second = vc
      · rw [isFirst, isSecond]
      · rw [isFirst, itself] at same
        exact absurd same.symm (apart second isSecond busySecond)
    · by_cases isSecond : second = vc
      · rw [isSecond, itself] at same
        exact absurd same (apart first isFirst busyFirst)
      · exact inv.unique first second (before first isFirst busyFirst)
          (before second isSecond busySecond) same

omit [LinearOrder Time] in
theorem afterSend_port :
    (afterSend router vc out flit rest).port =
      update router.port out.1
        ⟨(router.port out.1).outbuffers ++ [(flit, out)],
          (router.port out.1).localcounter - 1⟩ := by
  unfold afterSend finishSend
  split <;> rfl

omit [LinearOrder Time] in
theorem SwitchInv.send (inv : SwitchInv config router)
    (state : (router.input vc).state = .swTr)
    (crouting : (router.input vc).crouting = some out) :
    SwitchInv config (afterSend router vc out flit rest) := by
  set next := afterSend router vc out flit rest
  have log : next.log = router.log ++ [.passed vc out flit] := afterSend_log
  have itself : outPort router vc = out.1 := by simp [outPort, crouting]
  obtain ⟨credit, room⟩ :
      1 ≤ (router.output out).counter ∧
        1 ≤ (router.port out.1).localcounter := by
    obtain ⟨target, chosen, credit, room⟩ := inv.holds vc state
    rw [crouting, Option.some.injEq] at chosen
    exact chosen ▸ ⟨credit, room⟩
  -- the other channels with the switch go to other ports
  have others : ∀ other, (next.input other).state = .swTr →
      other ≠ vc ∧ next.input other = router.input other ∧
        (router.input other).state = .swTr ∧
        outPort router other ≠ out.1 := by
    intro other busy
    rw [afterSend_input] at busy
    have different : other ≠ vc := by
      rintro rfl
      rw [update_self] at busy
      exact stateAfterSend_ne_swTr _ _ busy
    rw [update_of_ne different] at busy
    refine ⟨different, ?_, busy, ?_⟩
    · rw [afterSend_input, update_of_ne different]
    · intro samePort
      exact different
        (inv.unique other vc busy state (samePort.trans itself.symm))
  have outPorts : ∀ other, (next.input other).state = .swTr →
      outPort next other = outPort router other := by
    intro other busy
    rw [outPort, (others other busy).2.1, outPort]
  refine ⟨?_, ?_, ?_, ?_, ?_, ?_⟩
  · intro target
    rw [afterSend_output]
    by_cases same : target = out
    · rw [same, update_self]
      show 0 ≤ (router.output out).counter - 1
      omega
    · rw [update_of_ne same]
      exact inv.counter target
  · intro i
    rw [afterSend_port]
    by_cases same : i = out.1
    · rw [same, update_self]
      show 0 ≤ (router.port out.1).localcounter - 1
      omega
    · rw [update_of_ne same]
      exact inv.localcounter i
  · intro i
    have before := inv.occupied i
    rw [afterSend_port]
    by_cases same : i = out.1
    · rw [same] at before ⊢
      rw [update_self]
      simp only [List.length_append, List.length_singleton]
      omega
    · rwa [update_of_ne same]
  · intro other busy
    obtain ⟨_, input, already, apart⟩ := others other busy
    obtain ⟨target, chosen, itsCredit, itsRoom⟩ := inv.holds other already
    have otherPort : target.1 ≠ out.1 := by
      simpa [outPort, chosen] using apart
    have different : target ≠ out := fun same => otherPort (by rw [same])
    rw [input, afterSend_output, afterSend_port]
    refine ⟨target, chosen, ?_, ?_⟩
    · rwa [update_of_ne different]
    · rwa [update_of_ne otherPort]
  · intro first second busyFirst busySecond same
    rw [outPorts first busyFirst, outPorts second busySecond] at same
    exact inv.unique first second (others first busyFirst).2.2.1
      (others second busySecond).2.2.1 same
  · intro target
    obtain ⟨sent, before⟩ := inv.tagged target
    refine ⟨sent, ?_⟩
    rw [passedTo_of_log log, before, afterSend_port, List.append_assoc]
    by_cases samePort : target.1 = out.1
    · rw [samePort, update_self]
      by_cases sameOut : out = target
      · simp [OutputPort.tagged, Note.passage, sameOut]
      · have otherChannel : out.2 ≠ target.2 := fun same =>
          sameOut (Prod.ext samePort.symm same)
        simp [OutputPort.tagged, Note.passage, sameOut, otherChannel]
    · have sameOut : out ≠ target := fun same => samePort (by rw [same])
      rw [update_of_ne samePort]
      simp [Note.passage, sameOut]

variable {clock : Clock Time} {now : Time} {work after : Work Time}

theorem SwitchInv.traverse (inv : SwitchInv config work.router) (i : Nat) :
    SwitchInv config (flitTraversalPort config clock now work i).router := by
  unfold flitTraversalPort
  dsimp only
  split
  case h_1 => exact inv
  case h_2 flit outadd rest leaving =>
    have itself := inv.occupied i
    rw [leaving, List.length_cons] at itself
    refine ⟨inv.counter, ?_, ?_, ?_, inv.unique, ?_⟩
    · intro k
      simp only [Router.setPort]
      by_cases same : k = i
      · rw [same, update_self]
        have before := inv.localcounter i
        show 0 ≤ (work.router.port i).localcounter + 1
        omega
      · rw [update_of_ne same]
        exact inv.localcounter k
    · intro k
      simp only [Router.setPort]
      by_cases same : k = i
      · rw [same, update_self]
        show (work.router.port i).localcounter + 1 + (rest.length : ℤ) = _
        push_cast at itself
        omega
      · rw [update_of_ne same]
        exact inv.occupied k
    · intro vc busy
      obtain ⟨out, chosen, credit, room⟩ := inv.holds vc busy
      refine ⟨out, chosen, credit, ?_⟩
      simp only [Router.setPort]
      by_cases same : out.1 = i
      · rw [same, update_self]
        rw [same] at room
        show 1 ≤ (work.router.port i).localcounter + 1
        omega
      · rwa [update_of_ne same]
    · intro out
      obtain ⟨sent, before⟩ := inv.tagged out
      simp only [Router.setPort]
      by_cases same : out.1 = i
      · rw [same, update_self]
        rw [same, OutputPort.tagged, leaving, List.filterMap_cons] at before
        split at before
        · exact ⟨sent, before⟩
        case h_2 gone _ =>
          exact ⟨sent ++ [gone], by
            rw [List.append_assoc]
            exact before⟩
      · rw [update_of_ne same]
        exact ⟨sent, before⟩

omit [LinearOrder Time] in
theorem stateAfterPacket_ne_swTr (rest : List (Flit Time)) :
    stateAfterPacket rest ≠ .swTr := by
  unfold stateAfterPacket
  split <;> simp

/-- Every move keeps the invariant of the outputs. -/
theorem SwitchInv.move (inv : SwitchInv config work.router)
    (routerInv : RouterInv config work.router)
    (move : Move config clock now work after) :
    SwitchInv config after.router := by
  cases move with
  | draw | strayCredit => exact inv
  | traverse i => exact inv.traverse i
  | send vc out flit rest _ state crouting _ => exact inv.send state crouting
  | reopen =>
      exact inv.of_quiet (fun _ busy => ⟨busy, rfl⟩) (fun _ => Int.le_refl _)
        rfl (fun _ => rfl)
  | read held record rest _ _ => exact inv.readRecord held record rest
  | grantSwitch vc out _ _ crouting credit room _ alone =>
      exact inv.grantSwitch routerInv crouting credit room alone
  | grantChannel => exact inv.grantChannel (by simp)
  | route => exact inv.route (by simp)
  | acceptFirst vc flit rest =>
      simp only [acceptFlit, returnCredit_router]
      apply inv.accept
      dsimp only
      split
      · simp
      · exact stateAfterPacket_ne_swTr rest
  | acceptNext vc flit rest =>
      simp only [acceptFlit, returnCredit_router]
      apply inv.accept
      dsimp only
      split
      · exact stateAfterPacket_ne_swTr rest
      · simp

end Moves

end ChipletSniper.Popnet
