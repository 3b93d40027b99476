import ChipletSniper.Popnet.RouterMoves

/-!
# The assertions about flits hold

The stages assert that a channel they serve has a flit, that a packet starts
with a header and that no header comes before the packet at home has ended.
All three follow from the invariant of the router.
-/

namespace ChipletSniper.Popnet

open Library Relation

/-- The assertions of the stages about the flits of a channel. -/
def Halt.isFlitAssertion : Halt → Bool
  | .noFlit => true
  | .notHeader => true
  | .headerAtHome => true
  | _ => false

variable {Time : Type} [LinearOrder Time] {config : Config}
variable {clock : Clock Time} {now : Time} {work : Work Time} {halt : Halt}

section Injection

variable {router : Router Time}

omit [LinearOrder Time] in
/-- How the injection of a packet fails. -/
theorem injectPacket_error {record : Record Time}
    (failed : injectPacket config router record = .error halt) :
    halt = .wrongAddress ∨ halt = .outOfRange := by
  unfold injectPacket at failed
  split_ifs at failed
  · cases failed
    exact Or.inl rfl
  · cases failed
    exact Or.inr rfl

theorem receiveRecords_error :
    ∀ {records : List (Record Time)} {router : Router Time},
      receiveRecords config clock now records router = .error halt →
      halt = .wrongAddress ∨ halt = .outOfRange := by
  intro records
  induction records with
  | nil =>
      intro router failed
      cases failed
  | cons record rest ih =>
      intro router failed
      unfold receiveRecords at failed
      split at failed
      case isFalse => cases failed
      case isTrue =>
        rcases bind_eq_error.mp failed with rejected | ⟨next, _, later⟩
        · exact injectPacket_error rejected
        · exact ih later

theorem receiveRecords_ne (assertion : halt.isFlitAssertion = true)
    (records : List (Record Time)) (router : Router Time) :
    receiveRecords config clock now records router ≠ .error halt := by
  intro failed
  rcases receiveRecords_error failed with rfl | rfl <;> cases assertion

end Injection

theorem RouterInv.flitOutbufferVC_ne (inv : RouterInv config work.router)
    (assertion : halt.isFlitAssertion = true) (vc : VC) :
    flitOutbufferVC config clock now work vc ≠ .error halt := by
  intro failed
  simp only [flitOutbufferVC] at failed
  split at failed
  case isFalse => cases failed
  case isTrue busy =>
  obtain ⟨nonempty, target, held⟩ := (inv.channel vc).of_active (Or.inr busy)
  split at failed
  case h_1 =>
    cases failed
    cases assertion
  case h_2 empty => exact nonempty empty
  case h_3 out flit rest _ _ =>
  cases refilling :
      refill config clock now (moveFlit work.router vc out flit rest) vc with
  | ok refilled =>
      rw [refilling] at failed
      cases failed
  | error other =>
      rw [refilling] at failed
      cases failed
      unfold refill at refilling
      split at refilling
      case isTrue => exact receiveRecords_ne assertion _ _ refilling
      case isFalse => cases refilling

theorem RouterInv.routingDecisionVC_ne (inv : RouterInv config work.router)
    (vc : VC) :
    routingDecisionVC config clock now work vc ≠ .error halt := by
  intro failed
  have ok := inv.channel vc
  unfold routingDecisionVC at failed
  dsimp only at failed
  split at failed
  case h_3 => cases failed
  case h_1 routing =>
    obtain ⟨opened, _⟩ := ok.of_routing routing
    unfold routeHeader at failed
    rw [returnCredit_router] at failed
    split at failed
    case h_1 empty =>
      cases ok.phase with
      | routing _ nonempty _ _ => exact nonempty empty
      | idle other | gap _ _ other | requesting _ _ other | home _ other =>
          rw [routing] at other
          cases other
      | active _ other =>
          rw [routing] at other
          rcases other with other | other <;> cases other
    case h_2 flit rest buffered =>
      have inPlace := ok.accepts_head buffered
      rw [opened] at inPlace
      have header := header_of_accepts inPlace
      split at failed
      case isTrue notHeader =>
        rw [header] at notHeader
        cases notHeader.2
      case isFalse =>
        split at failed <;> cases failed
  case h_2 home =>
    obtain ⟨last, opened, _, _⟩ := ok.of_home home
    unfold acceptAtHome at failed
    rw [returnCredit_router] at failed
    split at failed
    case h_1 => cases failed
    case h_2 flit rest buffered =>
      have inPlace := ok.accepts_head buffered
      rw [opened] at inPlace
      have further := (continues_of_accepts inPlace).1
      split at failed
      case isTrue header =>
        rw [further] at header
        cases header
      case isFalse => cases failed

theorem RouterInv.swArbitration_ne (inv : RouterInv config work.router)
    (assertion : halt.isFlitAssertion = true)
    (settled : SwitchFree config work.router) (clock : Clock Time)
    (now : Time) :
    swArbitration config work ≠ .error halt := by
  intro failed
  unfold swArbitration at failed
  split at failed
  case isTrue =>
    cases failed
    cases assertion
  case isFalse =>
  set requests := (swRequests config work.router work.rng).1
  set start : Work Time :=
    { work with rng := (swRequests config work.router work.rng).2 }
  have collected : ∀ request ∈ requests,
      config.InRange request.2 ∧ swReady start.router request.2 = true ∧
        request.1 = outPort start.router request.2 :=
    fun request => mem_swRequests
  refine foldlM_ne_error
    (fun ports after => SwPending config requests start after ports)
    ?_ ?_ ?_ failed
  · intro i rest after next pending step
    have granted : SwPending config requests start next rest ∧
        Moves config clock now after next :=
      swGrantPort_moves collected pending step
    exact granted.1
  · intro i rest after pending failed
    unfold swGrantPort at failed
    split at failed
    case h_1 => cases failed
    case h_2 vc rng chosen =>
    split at failed
    case isFalse => cases failed
    case isTrue empty =>
      -- a channel that waits for the switch has a flit
      obtain ⟨request, found, rfl⟩ := List.mem_map.mp (mem_of_choose chosen)
      obtain ⟨member, atPort⟩ := List.mem_filter.mp found
      have itsPort : request.1 = i := by simpa using atPort
      have same :=
        pending.standing request member (itsPort ▸ List.mem_cons_self)
      have waiting := (swReady_iff.mp (collected request member).2.1).1
      rw [same] at empty
      exact ((inv.channel request.2).of_active (Or.inl waiting)).1
        (List.eq_nil_of_length_eq_zero empty)
  · exact ⟨List.nodup_range, rfl, rfl, fun _ _ _ => rfl,
      fun vc inRange busy => absurd busy (settled vc inRange)⟩

omit [LinearOrder Time] in
/-- How the choice of an output fails. -/
theorem vcSelection_error {router : Router Time} {rng : Rng} {vc : VC}
    (failed : vcSelection config router rng vc = .error halt) :
    halt = .noCandidate ∨ halt = .outOfRange := by
  unfold vcSelection at failed
  dsimp only at failed
  split_ifs at failed
  · cases failed
    exact Or.inl rfl
  · cases failed
    exact Or.inr rfl

omit [LinearOrder Time] in
theorem vcArbitration_error
    (failed : vcArbitration config work = .error halt) :
    halt = .noCandidate ∨ halt = .outOfRange := by
  unfold vcArbitration at failed
  rcases bind_eq_error.mp failed with collecting | ⟨requests, _, granting⟩
  · obtain ⟨vc, _, requests, requesting⟩ :=
      exists_of_foldlM_error collecting
    unfold vcRequest at requesting
    split at requesting
    case isFalse => cases requesting
    case isTrue =>
      rcases bind_eq_error.mp requesting with choosing | ⟨selected, _, chosen⟩
      · exact vcSelection_error choosing
      · obtain ⟨choice, rng⟩ := selected
        cases choice <;> cases chosen
  · cases granting

omit [LinearOrder Time] in
theorem vcArbitration_ne (assertion : halt.isFlitAssertion = true) :
    vcArbitration config work ≠ .error halt := by
  intro failed
  rcases vcArbitration_error failed with rfl | rfl <;> cases assertion

/-- No stage fails an assertion about flits. -/
theorem RouterInv.stage_ne (inv : RouterInv config work.router)
    (assertion : halt.isFlitAssertion = true) {stage : Stage}
    (free : stage = .swArbitration → SwitchFree config work.router) :
    stage.run config clock now work ≠ .error halt := by
  cases stage with
  | flitTraversal =>
      intro failed
      cases failed
  | flitOutbuffer =>
      refine foldlM_ne_error
        (fun vcs after => (∀ vc ∈ vcs, config.InRange vc) ∧
          RouterInv config after.router) ?_ ?_
        ⟨fun vc member => mem_channels.mp member, inv⟩
      · rintro vc rest after next ⟨inRange, inv⟩ step
        exact ⟨fun other member =>
            inRange other (List.mem_cons_of_mem vc member),
          inv.moves
            (moves_flitOutbufferVC (inRange vc List.mem_cons_self) step)⟩
      · rintro vc rest after ⟨_, inv⟩
        exact inv.flitOutbufferVC_ne assertion vc
  | swArbitration =>
      exact inv.swArbitration_ne assertion (free rfl) clock now
  | vcArbitration => exact vcArbitration_ne assertion
  | routingDecision =>
      refine foldlM_ne_error
        (fun vcs after => (∀ vc ∈ vcs, config.InRange vc) ∧
          RouterInv config after.router) ?_ ?_
        ⟨fun vc member => mem_channels.mp member, inv⟩
      · rintro vc rest after next ⟨inRange, inv⟩ step
        exact ⟨fun other member =>
            inRange other (List.mem_cons_of_mem vc member),
          inv.moves
            (moves_routingDecisionVC (inRange vc List.mem_cons_self) step)⟩
      · rintro vc rest after ⟨_, inv⟩
        exact inv.routingDecisionVC_ne vc

end ChipletSniper.Popnet
