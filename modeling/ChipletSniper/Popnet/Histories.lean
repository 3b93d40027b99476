import ChipletSniper.Popnet.Switch

/-!
# The history of a router

What the moves of a router add to its history, and which stage passes flits to
the outputs: only `flit_outbuffer` does, and only to outputs of channels that
hold the switch.
-/

namespace ChipletSniper.Popnet

open Library Relation Function

variable {Time : Type}

/-! ## Operations -/

section Histories

variable {config : Config} {router : Router Time} {vc out : VC}
variable {flit : Flit Time} {rest : List (Flit Time)}

theorem afterSend_arrivals (other : VC) :
    (afterSend router vc out flit rest).arrivals other =
      router.arrivals other := by
  simp [arrivals_of_log afterSend_log, Note.arrival]

theorem afterSend_passedTo (target : VC) :
    (afterSend router vc out flit rest).passedTo target =
      router.passedTo target ++ if target = out then [flit] else [] := by
  rw [passedTo_of_log afterSend_log]
  by_cases same : target = out
  · simp [Note.passage, same]
  · simp [Note.passage, same, Ne.symm same]

theorem afterSend_tagged (i v : Nat) :
    ((afterSend router vc out flit rest).port i).tagged v =
      (router.port i).tagged v ++ if (i, v) = out then [flit] else [] := by
  rw [afterSend_port]
  by_cases samePort : i = out.1
  · rw [samePort, update_self]
    by_cases sameChannel : out.2 = v
    · simp [OutputPort.tagged, ← sameChannel]
    · have different : (out.1, v) ≠ out := fun equal =>
        sameChannel (congrArg Prod.snd equal).symm
      simp [OutputPort.tagged, sameChannel, different]
  · have different : (i, v) ≠ out := fun equal =>
      samePort (congrArg Prod.fst equal)
    rw [update_of_ne samePort, if_neg different, List.append_nil]

theorem afterSend_pending :
    (afterSend router vc out flit rest).pending = router.pending := by
  unfold afterSend finishSend
  split <;> rfl

theorem receiveFlit_arrivals (other : VC) :
    (receiveFlit router vc flit).arrivals other =
      router.arrivals other ++ if other = vc then [flit] else [] := by
  have log : (receiveFlit router vc flit).log =
      router.log ++ [.arrived vc flit] := rfl
  rw [arrivals_of_log log]
  by_cases same : other = vc
  · simp [Note.arrival, same]
  · simp [Note.arrival, same, Ne.symm same]

theorem receiveFlit_passedTo (target : VC) :
    (receiveFlit router vc flit).passedTo target =
      router.passedTo target := by
  have log : (receiveFlit router vc flit).log =
      router.log ++ [.arrived vc flit] := rfl
  simp [passedTo_of_log log, Note.passage]

/-- The flits that a record adds to its injection channel. -/
def recordFlits (router : Router Time) (record : Record Time) :
    List (Flit Time) :=
  if record.packSize ≤ 0 then []
  else
    packetFlits router.address router.packetCounter record.sorAddr
      record.desAddr record.time record.packSize.toNat

variable {held : Option VC} {record : Record Time}
variable {records : List (Record Time)}

theorem readRecord_log :
    (readRecord config held router record records).log =
      router.log ++ (recordFlits router record).map
        (.arrived (0, shortestVC config router)) := by
  unfold readRecord addPacketHolding recordFlits
  by_cases empty : record.packSize ≤ 0
  · simp [empty]
  · simp [empty, Router.record, Router.setInput]

theorem readRecord_arrivals (other : VC) :
    (readRecord config held router record records).arrivals other =
      router.arrivals other ++
        if other = (0, shortestVC config router) then
          recordFlits router record
        else [] := by
  rw [arrivals_of_log readRecord_log]
  by_cases same : other = (0, shortestVC config router)
  · simp [List.filterMap_map, comp_def, Note.arrival, same]
  · simp [List.filterMap_map, comp_def, Note.arrival, same,
      Ne.symm same]

theorem readRecord_passedTo (target : VC) :
    (readRecord config held router record records).passedTo target =
      router.passedTo target := by
  simp [passedTo_of_log readRecord_log, List.filterMap_map,
    comp_def, Note.passage]

theorem readRecord_same :
    (readRecord config held router record records).port = router.port ∧
      (readRecord config held router record records).output =
        router.output ∧
      (readRecord config held router record records).address =
        router.address ∧
      (readRecord config held router record records).pending = records := by
  unfold readRecord addPacketHolding
  split <;> exact ⟨rfl, rfl, rfl, rfl⟩

theorem desAddr_of_recordFlits {flit : Flit Time}
    (member : flit ∈ recordFlits router record) :
    flit.desAddr = record.desAddr := by
  unfold recordFlits at member
  split at member
  · cases member
  · obtain ⟨_, _, rfl⟩ := List.mem_map.mp member
    rfl

end Histories

/-! ## Stages -/

section Stages

variable [LinearOrder Time] {config : Config} {clock : Clock Time}
variable {now : Time} {work next : Work Time}

/-- A move only adds to the history. -/
theorem Move.log (move : Move config clock now work next) :
    work.router.log <+: next.router.log := by
  cases move with
  | draw | reopen | grantSwitch | route | strayCredit =>
      exact List.prefix_refl _
  | traverse i _ _ =>
      unfold flitTraversalPort
      dsimp only
      split <;> exact List.prefix_refl _
  | send vc out flit rest =>
      exact ⟨_, (afterSend_log).symm⟩
  | read held record rest => exact ⟨_, readRecord_log.symm⟩
  | grantChannel vc out => exact List.prefix_append _ _
  | acceptFirst vc flit rest | acceptNext vc flit rest =>
      simp only [acceptFlit, returnCredit_router]
      exact List.prefix_append _ _

theorem Move.passedTo (move : Move config clock now work next) (out : VC) :
    work.router.passedTo out <+: next.router.passedTo out :=
  move.log.filterMap _

theorem passedTo_of_moves (moves : Moves config clock now work next)
    (out : VC) : work.router.passedTo out <+: next.router.passedTo out := by
  induction moves with
  | refl => exact List.prefix_refl _
  | tail _ move ih =>
      exact ih.trans (move.passedTo out)

theorem flitTraversal_log
    (run : flitTraversal config clock now work = .ok next) :
    next.router.log = work.router.log := by
  cases run
  refine foldl_induction
    (fun _ (after : Work Time) => after.router.log = work.router.log) ?_ rfl
  intro i rest after same
  rw [← same]
  unfold flitTraversalPort
  dsimp only
  split <;> rfl

omit [LinearOrder Time] in
theorem swArbitration_log (run : swArbitration config work = .ok next) :
    next.router.log = work.router.log := by
  unfold swArbitration at run
  split at run
  case isTrue => cases run
  case isFalse =>
    dsimp only at run
    refine foldlM_induction
      (fun _ (after : Work Time) => after.router.log = work.router.log) ?_
      (by rfl) run
    intro i rest after last same step
    rw [← same]
    unfold swGrantPort at step
    split at step
    · cases step
      rfl
    · split at step
      · cases step
      · cases step
        rfl

omit [LinearOrder Time] in
theorem vcArbitration_passedTo (run : vcArbitration config work = .ok next)
    (out : VC) : next.router.passedTo out = work.router.passedTo out := by
  obtain ⟨⟨requests, rng⟩, _, granting⟩ := bind_eq_ok.mp run
  cases granting
  refine foldl_induction
    (fun _ (after : Work Time) =>
      after.router.passedTo out = work.router.passedTo out) ?_ (by rfl)
  intro target rest after same
  rw [← same]
  unfold vcGrant
  split
  · split
    · rfl
    · simp [Router.passedTo, Router.record, Router.acquire, Router.setInput,
        Router.setOutput, Note.passage]
  · rfl

omit [LinearOrder Time] in
theorem acceptFlit_passedTo {vc : VC} {flit : Flit Time}
    {rest : List (Flit Time)} {state : VCState} (out : VC) :
    (acceptFlit work vc flit rest state).router.passedTo out =
      work.router.passedTo out := by
  simp [Router.passedTo, acceptFlit, Router.record, Router.setInput,
    Note.passage]

theorem routingDecisionVC_passedTo {vc : VC}
    (run : routingDecisionVC config clock now work vc = .ok next)
    (out : VC) : next.router.passedTo out = work.router.passedTo out := by
  have credited : (returnCredit config clock now work vc).router.passedTo
      out = work.router.passedTo out := by
    rw [returnCredit_router]
  rw [← credited]
  unfold routingDecisionVC at run
  dsimp only at run
  split at run
  case h_1 =>
    unfold routeHeader at run
    split at run
    · cases run
    · split at run
      case isTrue => cases run
      case isFalse =>
        split at run
        · cases run
          exact acceptFlit_passedTo out
        · cases run
          rfl
  case h_2 =>
    unfold acceptAtHome at run
    split at run
    · cases run
      rfl
    · split at run
      · cases run
      · cases run
        exact acceptFlit_passedTo out
  case h_3 =>
    cases run
    rfl

theorem routingDecision_passedTo
    (run : routingDecision config clock now work = .ok next) (out : VC) :
    next.router.passedTo out = work.router.passedTo out := by
  refine foldlM_induction
    (fun _ (after : Work Time) =>
      after.router.passedTo out = work.router.passedTo out) ?_ rfl run
  intro vc rest after last same step
  rw [← same]
  exact routingDecisionVC_passedTo step out

/-- Reading records passes nothing, and no channel gets another output. -/
theorem receiveRecords_same :
    ∀ {records : List (Record Time)} {router after : Router Time},
      receiveRecords config clock now records router = .ok after →
      (∀ vc, (after.input vc).crouting = (router.input vc).crouting) ∧
        ∀ out, after.passedTo out = router.passedTo out := by
  intro records
  induction records with
  | nil =>
      intro router after run
      cases run
      exact ⟨fun _ => rfl, fun _ => rfl⟩
  | cons record rest ih =>
      intro router after run
      unfold receiveRecords at run
      split at run
      case isFalse =>
        cases run
        exact ⟨fun _ => rfl, fun _ => rfl⟩
      case isTrue =>
        obtain ⟨injected, taken, remaining⟩ := bind_eq_ok.mp run
        obtain ⟨crouting, passedTo⟩ := ih remaining
        have shape := (injectPacket_ok taken).2
        refine ⟨?_, ?_⟩
        · intro vc
          rw [crouting, shape]
          unfold addPacketHolding
          split
          · rfl
          · simp only [Router.record, Router.setInput]
            by_cases same : vc = (0, shortestVC config router)
            · rw [same, update_self]
            · rw [update_of_ne same]
        · intro out
          rw [passedTo, shape]
          show (readRecord config none router record rest).passedTo out = _
          exact readRecord_passedTo out

/-- The body of `flit_outbuffer` passes a flit to the output of its channel
only, and only if the channel holds the switch. -/
theorem flitOutbufferVC_passes {vc : VC}
    (run : flitOutbufferVC config clock now work vc = .ok next) :
    (∀ other, (next.router.input other).crouting =
      (work.router.input other).crouting) ∧
    ∀ out, next.router.passedTo out ≠ work.router.passedTo out →
      (work.router.input vc).state = .swTr ∧
        (work.router.input vc).crouting = some out := by
  simp only [flitOutbufferVC] at run
  split at run
  case isFalse =>
    cases run
    exact ⟨fun _ => rfl, fun _ changed => absurd rfl changed⟩
  case isTrue busy =>
  split at run
  case h_1 => cases run
  case h_2 => cases run
  case h_3 target flit rest crouting _ =>
  cases refilling : refill config clock now
      (moveFlit work.router vc target flit rest) vc with
  | error _ =>
      rw [refilling] at run
      cases run
  | ok refilled =>
      rw [refilling] at run
      cases run
      have same : (∀ other, (refilled.input other).crouting =
            ((moveFlit work.router vc target flit rest).input
              other).crouting) ∧
          ∀ out, refilled.passedTo out =
            (moveFlit work.router vc target flit rest).passedTo out := by
        unfold refill at refilling
        split at refilling
        case isFalse =>
          cases refilling
          exact ⟨fun _ => rfl, fun _ => rfl⟩
        case isTrue =>
          have received := receiveRecords_same refilling
          exact received
      refine ⟨?_, ?_⟩
      · intro other
        have moved : ((moveFlit work.router vc target flit rest).input
            other).crouting = (work.router.input other).crouting := by
          simp only [moveFlit, Router.record, Router.setPort,
            Router.setInput, Router.setOutput]
          by_cases itself : other = vc
          · rw [itself, update_self]
          · rw [update_of_ne itself]
        rw [finishSend_input]
        by_cases itself : other = vc
        · rw [itself, update_self, ← itself, same.1, moved]
        · rw [update_of_ne itself, same.1, moved]
      · intro out changed
        refine ⟨busy, ?_⟩
        rw [crouting]
        by_contra different
        refine changed ?_
        have unrecorded : (finishSend refilled vc target flit.type
            (stateAfterSend (flit :: rest).length flit.type)).passedTo out =
              refilled.passedTo out := by
          unfold finishSend
          split <;> rfl
        rw [unrecorded, same.2]
        have log : (moveFlit work.router vc target flit rest).log =
            work.router.log ++ [.passed vc target flit] := rfl
        have other : target ≠ out := fun equal => different (by rw [equal])
        rw [passedTo_of_log log]
        simp [Note.passage, other]

/-- `flit_outbuffer` passes flits only to outputs of channels that hold the
switch before it. -/
theorem flitOutbuffer_passes
    (run : flitOutbuffer config clock now work = .ok next) (out : VC)
    (changed : next.router.passedTo out ≠ work.router.passedTo out) :
    ∃ vc, (work.router.input vc).state = .swTr ∧
      (work.router.input vc).crouting = some out := by
  refine (foldlM_induction
    (fun _ (after : Work Time) =>
      (∀ vc, (after.router.input vc).state = .swTr →
        (work.router.input vc).state = .swTr) ∧
      (∀ vc, (after.router.input vc).crouting =
        (work.router.input vc).crouting) ∧
      (after.router.passedTo out ≠ work.router.passedTo out →
        ∃ vc, (work.router.input vc).state = .swTr ∧
          (work.router.input vc).crouting = some out)) ?_
    ⟨fun _ busy => busy, fun _ => rfl, fun same => absurd rfl same⟩
    run).2.2 changed
  rintro vc rest after last ⟨states, croutings, passes⟩ step
  obtain ⟨sameCrouting, passed⟩ := flitOutbufferVC_passes step
  refine ⟨?_, fun other => (sameCrouting other).trans (croutings other), ?_⟩
  · intro other busy
    exact states other (flitOutbufferVC_swTr step busy).2
  · intro grown
    by_cases here : last.router.passedTo out = after.router.passedTo out
    · exact passes (here ▸ grown)
    · obtain ⟨busy, crouting⟩ := passed out here
      exact ⟨vc, states vc busy, (croutings vc).symm.trans crouting⟩

/-- The stage that passes flits. -/
theorem stage_passes {stage : Stage}
    (run : stage.run config clock now work = .ok next) (out : VC)
    (changed : next.router.passedTo out ≠ work.router.passedTo out) :
    stage = .flitOutbuffer ∧
      ∃ vc, (work.router.input vc).state = .swTr ∧
        (work.router.input vc).crouting = some out := by
  cases stage with
  | flitTraversal =>
      refine absurd ?_ changed
      rw [Router.passedTo, flitTraversal_log run, Router.passedTo]
  | flitOutbuffer => exact ⟨rfl, flitOutbuffer_passes run out changed⟩
  | swArbitration =>
      refine absurd ?_ changed
      rw [Router.passedTo, swArbitration_log run, Router.passedTo]
  | vcArbitration => exact absurd (vcArbitration_passedTo run out) changed
  | routingDecision =>
      exact absurd (routingDecision_passedTo run out) changed

end Stages

end ChipletSniper.Popnet
