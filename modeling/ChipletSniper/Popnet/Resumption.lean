import ChipletSniper.Popnet.EventOrder

/-!
# The full flag of the injection port

A packet that finds only long queues sets `ibuff_full`, and no record is read
until `flit_outbuffer` clears the flag.  Flits for the router itself leave
through `routing_decision`, which does not look at the flag: if all flits of
the injection port are for the router itself, the flag stays set for good.
-/

namespace ChipletSniper.Popnet

open Library Relation Function

variable {Time : Type}

/-! ## The flag -/

section Flag

variable [LinearOrder Time] (config : Config) (clock : Clock Time)
variable (now : Time)

omit [LinearOrder Time] in
/-- An injection channel holds a flit for another router.  Such flits leave
through `flit_outbuffer` only. -/
def Router.Resumable (router : Router Time) : Prop :=
  ∃ j < config.vcNumber, ∃ flit ∈ (router.input (0, j)).buffer,
    flit.desAddr ≠ router.address

omit [LinearOrder Time] in
/-- The packet finds more than 100 flits in every injection channel, and it
goes to the router itself, as all these flits do. -/
def Router.TrapsPacket (router : Router Time) (record : Record Time) : Prop :=
  0 < record.packSize ∧
    100 < (router.input (0, shortestVC config router)).buffer.length ∧
    record.desAddr = router.address ∧ ¬ router.Resumable config

/-- `receive_packet` comes to such a packet. -/
def TrapsReading : List (Record Time) → Router Time → Prop
  | [], _ => False
  | record :: rest, router =>
      router.ibuffFull = false ∧ record.time ≤ clock.slack now ∧
        (router.TrapsPacket config record ∨
          TrapsReading rest { addPacket config router record with
            packetCounter := router.packetCounter + 1 })

omit [LinearOrder Time] in
/-- The first flit of an injection channel has left, and the flag is
cleared. -/
def Router.drained (router : Router Time) (j : Nat) : Router Time :=
  { router.setInput (0, j)
      { router.input (0, j) with
        buffer := (router.input (0, j)).buffer.tail } with
    ibuffFull := false }

/-- `flit_outbuffer` is about to send the last flit for another router and to
leave the flag set, or it resumes `receive_packet`, which sets it again. -/
def Router.TrapsSending (router : Router Time) (j : Nat) : Prop :=
  (router.input (0, j)).state = .swTr ∧ router.ibuffFull = true ∧
    if (router.input (0, j)).buffer.tail.length < 100 then
      TrapsReading config clock now router.pending (router.drained j)
    else ¬ (router.drained j).Resumable config

variable {config clock now}

/-- A router with the same queues and the same flag. -/
structure SameQueues (router after : Router Time) : Prop where
  address : after.address = router.address
  ibuffFull : after.ibuffFull = router.ibuffFull
  pending : after.pending = router.pending
  buffer : ∀ j,
    (after.input (0, j)).buffer = (router.input (0, j)).buffer

omit [LinearOrder Time] in
theorem SameQueues.trans {router middle after : Router Time}
    (first : SameQueues router middle) (second : SameQueues middle after) :
    SameQueues router after where
  address := second.address.trans first.address
  ibuffFull := second.ibuffFull.trans first.ibuffFull
  pending := second.pending.trans first.pending
  buffer := fun j => (second.buffer j).trans (first.buffer j)

omit [LinearOrder Time] in
theorem SameInjection.sameQueues {router after : Router Time}
    (same : SameInjection router after) : SameQueues router after :=
  ⟨same.address, same.ibuffFull, same.pending, fun j => by rw [same.input]⟩

omit [LinearOrder Time] in
theorem Router.Resumable.of_buffers {router after : Router Time}
    (resumable : router.Resumable config)
    (address : after.address = router.address)
    (buffer : ∀ j, ∀ flit ∈ (router.input (0, j)).buffer,
      flit.desAddr ≠ router.address → flit ∈ (after.input (0, j)).buffer) :
    after.Resumable config := by
  obtain ⟨j, inside, flit, member, away⟩ := resumable
  rw [← address] at away
  refine ⟨j, inside, flit, buffer j flit member ?_, away⟩
  rwa [address] at away

omit [LinearOrder Time] in
theorem SameQueues.resumable {router after : Router Time}
    (same : SameQueues router after)
    (resumable : router.Resumable config) : after.Resumable config := by
  refine resumable.of_buffers same.address ?_
  intro j flit member _
  rw [same.buffer]
  exact member

/-- As long as the flag is set, there is a flit for another router. -/
def FlagOk (config : Config) (router : Router Time) : Prop :=
  router.ibuffFull = true → router.Resumable config

omit [LinearOrder Time] in
theorem SameQueues.flagOk {router after : Router Time}
    (same : SameQueues router after) (ok : FlagOk config router) :
    FlagOk config after := by
  intro full
  rw [same.ibuffFull] at full
  exact same.resumable (ok full)

/-! ### Reading packets -/

omit [LinearOrder Time] in
theorem SameInjection.shortestVC {router after : Router Time}
    (same : SameInjection router after) :
    shortestVC config after = shortestVC config router := by
  unfold Popnet.shortestVC
  congr 1
  funext best i
  rw [same.input, same.input]

omit [LinearOrder Time] in
theorem SameInjection.addPacket {router after : Router Time}
    (same : SameInjection router after) (record : Record Time) :
    SameInjection
      { addPacket config router record with
        packetCounter := router.packetCounter + 1 }
      { addPacket config after record with
        packetCounter := after.packetCounter + 1 } := by
  have counter : after.packetCounter + 1 = router.packetCounter + 1 := by
    rw [same.packetCounter]
  unfold Popnet.addPacket
  split
  case isTrue =>
    exact ⟨same.address, same.input, same.ibuffFull, same.pending, counter⟩
  case isFalse =>
    refine ⟨same.address, ?_, ?_, same.pending, counter⟩
    · intro i
      simp only [Router.record, Router.setInput, same.shortestVC,
        same.input, same.address, same.packetCounter]
      by_cases here : ((0, i) : VC) = (0, Popnet.shortestVC config router)
      · rw [here, update_self, update_self]
      · rw [update_of_ne here, update_of_ne here]
        exact same.input i
    · dsimp only
      rw [same.ibuffFull, same.shortestVC, same.input]

theorem SameInjection.trapsReading :
    ∀ {records : List (Record Time)} {router after : Router Time},
      SameInjection router after →
      TrapsReading config clock now records after →
      TrapsReading config clock now records router := by
  intro records
  induction records with
  | nil =>
      intro router after _ traps
      exact traps
  | cons record rest ih =>
      intro router after same traps
      obtain ⟨reading, due, trapped⟩ := traps
      refine ⟨same.ibuffFull ▸ reading, due, ?_⟩
      rcases trapped with ⟨positive, long, forHere, only⟩ | further
      · rw [same.shortestVC, same.input] at long
        rw [same.address] at forHere
        exact Or.inl ⟨positive, long, forHere,
          fun resumable => only (same.sameQueues.resumable resumable)⟩
      · exact Or.inr (ih (same.addPacket record) further)

omit [LinearOrder Time] in
/-- A packet that is read leaves the flag in order unless it traps the
router. -/
theorem FlagOk.injectPacket {router after : Router Time}
    {record : Record Time} (ok : FlagOk config router)
    (clear : ¬ router.TrapsPacket config record)
    (injected : injectPacket config router record = .ok after) :
    FlagOk config after := by
  have admitted := (injectPacket_ok injected).1
  rw [injectPacket_shape injected]
  unfold addPacket
  split
  case isTrue => exact ok
  case isFalse positive =>
    have inside : shortestVC config router < config.vcNumber :=
      shortestVC_lt (admitted.2.2 (by omega))
    intro full
    -- the flits that were there are still there
    have kept : router.Resumable config → Router.Resumable config
        { addPacket config router record with
          packetCounter := router.packetCounter + 1 } := by
      intro resumable
      refine resumable.of_buffers ?_ ?_
      · unfold addPacket
        split <;> rfl
      · intro j flit member _
        unfold addPacket
        rw [if_neg positive]
        simp only [Router.record, Router.setInput]
        by_cases same : ((0, j) : VC) = (0, shortestVC config router)
        · rw [same, update_self]
          rw [same] at member
          exact List.mem_append_left _ member
        · rwa [update_of_ne same]
    unfold addPacket at kept
    rw [if_neg positive] at kept
    by_cases was : router.Resumable config
    · exact kept was
    · -- the new packet goes to another router
      have away : record.desAddr ≠ router.address := by
        intro forHere
        dsimp only at full
        rw [Bool.or_eq_true, decide_eq_true_iff] at full
        rcases full with already | long
        · exact was (ok already)
        · exact clear ⟨by omega, long, forHere, was⟩
      have first : packetFlit router.address router.packetCounter
          record.sorAddr record.desAddr record.time record.packSize.toNat 0 ∈
          packetFlits router.address router.packetCounter record.sorAddr
            record.desAddr record.time record.packSize.toNat :=
        List.mem_map.mpr ⟨0, List.mem_range.mpr (by omega), rfl⟩
      refine ⟨shortestVC config router, inside,
        packetFlit router.address router.packetCounter record.sorAddr
          record.desAddr record.time record.packSize.toNat 0, ?_, away⟩
      simp only [Router.record, Router.setInput, update_self]
      exact List.mem_append_right _ first

theorem FlagOk.receiveRecords :
    ∀ {records : List (Record Time)} {router after : Router Time},
      FlagOk config router →
      ¬ TrapsReading config clock now records router →
      receiveRecords config clock now records router = .ok after →
      FlagOk config after := by
  intro records
  induction records with
  | nil =>
      intro router after ok _ run
      cases run
      exact ok
  | cons record rest ih =>
      intro router after ok clear run
      unfold Popnet.receiveRecords at run
      split at run
      case isFalse =>
        cases run
        exact ok
      case isTrue start =>
        obtain ⟨injected, taken, remaining⟩ := bind_eq_ok.mp run
        have kept : FlagOk config injected := by
          refine ok.injectPacket ?_ taken
          exact fun traps => clear ⟨start.1, start.2, Or.inl traps⟩
        refine ih kept ?_ remaining
        intro further
        rw [injectPacket_shape taken] at further
        exact clear ⟨start.1, start.2, Or.inr further⟩

/-! ### Stages -/

variable {work next : Work Time}

/-- A flit is sent from an injection channel. -/
theorem FlagOk.sendInjected {j : Nat} (ok : FlagOk config work.router)
    (clear : ¬ work.router.TrapsSending config clock now j)
    (run : flitOutbufferVC config clock now work (0, j) = .ok next) :
    FlagOk config next.router := by
  simp only [flitOutbufferVC] at run
  split at run
  case isFalse =>
    cases run
    exact ok
  case isTrue busy =>
  split at run
  case h_1 => cases run
  case h_2 => cases run
  case h_3 out flit rest _ buffered =>
  have moved : SameInjection (work.router.drained j)
      { moveFlit work.router (0, j) out flit rest with ibuffFull := false } := by
    refine ⟨rfl, ?_, rfl, rfl, rfl⟩
    intro i
    simp only [moveFlit, Router.record, Router.setPort, Router.setInput,
      Router.setOutput, Router.drained, buffered, List.tail_cons]
  have tail : (work.router.input (0, j)).buffer.tail = rest := by
    rw [buffered]
    rfl
  have length : ((moveFlit work.router (0, j) out flit rest).input
      (0, j)).buffer = rest := by
    simp [moveFlit, Router.record, Router.setPort, Router.setInput]
  unfold Router.TrapsSending at clear
  rw [tail] at clear
  cases refilling : refill config clock now
      (moveFlit work.router (0, j) out flit rest) (0, j) with
  | error _ =>
      rw [refilling] at run
      cases run
  | ok refilled =>
      rw [refilling] at run
      cases run
      have finished : ∀ state, SameQueues refilled
          (finishSend refilled (0, j) out flit.type state) := by
        intro state
        refine ⟨?_, ?_, ?_, fun i => finishSend_buffer _ _ _ _ _ _⟩
        all_goals
          unfold finishSend
          split <;> rfl
      refine (finished _).flagOk ?_
      unfold refill at refilling
      rw [length] at refilling
      split at refilling
      case isTrue resumed =>
        have full : work.router.ibuffFull = true := resumed.2.1
        rw [if_pos resumed.2.2] at clear
        have cleared : FlagOk config
            { moveFlit work.router (0, j) out flit rest with
              ibuffFull := false } := fun impossible => by cases impossible
        refine cleared.receiveRecords ?_ refilling
        intro traps
        exact clear ⟨busy, full, moved.trapsReading traps⟩
      case isFalse still =>
        cases refilling
        intro full
        have flag : work.router.ibuffFull = true := full
        have long : ¬ rest.length < 100 := fun short =>
          still ⟨rfl, flag, short⟩
        rw [if_neg long] at clear
        have remaining : (work.router.drained j).Resumable config := by
          by_contra only
          exact clear ⟨busy, flag, only⟩
        have same := moved.sameQueues.resumable remaining
        exact same

theorem FlagOk.flitOutbuffer (ok : FlagOk config work.router)
    (single : SinglePort config work.router)
    (clear : ∀ j, ¬ work.router.TrapsSending config clock now j)
    (run : flitOutbuffer config clock now work = .ok next) :
    FlagOk config next.router := by
  refine (foldlM_induction
    (fun vcs (after : Work Time) =>
      (∀ vc ∈ vcs, config.InRange vc) ∧ SinglePort config after.router ∧
        (∀ j < config.vcNumber,
          (after.router.input (0, j)).state = .swTr →
          SameInjection work.router after.router) ∧
        FlagOk config after.router)
    ?_ ⟨fun _ => mem_channels.mp, single,
      fun _ _ _ => SameInjection.refl _, ok⟩ run).2.2.2
  rintro vc rest after last ⟨inRange, singleAfter, untouched, okAfter⟩ step
  have vcInRange := inRange vc List.mem_cons_self
  refine ⟨fun other member => inRange other (List.mem_cons_of_mem vc member),
    singleAfter.of_states fun _ busy => (flitOutbufferVC_swTr step busy).2,
    flitOutbufferVC_same vcInRange singleAfter untouched step, ?_⟩
  by_cases injection : vc.1 = 0
  · have vcIs : vc = (0, vc.2) := Prod.ext injection rfl
    rw [vcIs] at step
    refine okAfter.sendInjected ?_ step
    intro traps
    obtain ⟨busy, full, trapped⟩ := traps
    have same := untouched vc.2 vcInRange.2 busy
    have drained : SameInjection (work.router.drained vc.2)
        (after.router.drained vc.2) := by
      refine ⟨same.address, ?_, rfl, same.pending, same.packetCounter⟩
      intro i
      simp only [Router.drained, Router.setInput, same.input]
      by_cases here : ((0, i) : VC) = (0, vc.2)
      · rw [here, update_self, update_self]
      · rw [update_of_ne here, update_of_ne here]
        exact same.input i
    rw [same.input] at busy trapped
    rw [same.ibuffFull] at full
    refine clear vc.2 ⟨busy, full, ?_⟩
    split at trapped
    case isTrue short =>
      rw [if_pos short]
      rw [same.pending] at trapped
      exact drained.trapsReading trapped
    case isFalse long =>
      rw [if_neg long]
      exact fun resumable => trapped (drained.sameQueues.resumable resumable)
  · exact (flitOutbufferVC_outer injection step).sameQueues.flagOk okAfter

theorem FlagOk.routingDecision {address : Addr} {file : List (Record Time)}
    (ok : FlagOk config work.router)
    (inv : QueueInv address file work.router)
    (run : routingDecision config clock now work = .ok next) :
    FlagOk config next.router := by
  refine (foldlM_induction
    (fun vcs (after : Work Time) =>
      (∀ vc ∈ vcs, config.InRange vc) ∧
        QueueInv address file after.router ∧ FlagOk config after.router)
    ?_ ⟨fun _ => mem_channels.mp, inv, ok⟩ run).2.2
  rintro vc rest after last ⟨inRange, invAfter, okAfter⟩ step
  have moves :=
    moves_routingDecisionVC (inRange vc List.mem_cons_self) step
  refine ⟨fun other member => inRange other (List.mem_cons_of_mem vc member),
    invariant_of_reflTransGen
      (fun work => QueueInv address file work.router) QueueInv.move invAfter
      moves, ?_⟩
  obtain ⟨sameAddress, flag, pending, same |
      ⟨channel, input, buffers, _⟩⟩ :=
    routingDecisionVC_input step
  · exact SameQueues.flagOk ⟨sameAddress, flag, pending, fun j => by rw [same]⟩
      okAfter
  · intro full
    rw [flag] at full
    refine (okAfter full).of_buffers sameAddress ?_
    intro j flit member away
    rw [input]
    by_cases here : ((0, j) : VC) = vc
    · rw [here, update_self]
      rw [here] at member
      rcases buffers with unchanged | ⟨first, was, forHere⟩
      · rwa [unchanged]
      · rw [was] at member
        refine (List.mem_cons.mp member).resolve_left ?_
        rintro rfl
        rcases forHere with atHome | atThis
        · rw [← here] at atHome was
          obtain ⟨head, isHead, itsOwn⟩ := invAfter.home j atHome
          rw [was, List.head?_cons, Option.mem_some_iff] at isHead
          rw [isHead] at away
          exact away (itsOwn.trans invAfter.located.symm)
        · exact away atThis
    · rwa [update_of_ne here]

omit [LinearOrder Time] in
/-- The arbitrations move no flit. -/
theorem sameQueues_swArbitration
    (run : swArbitration config work = .ok next) :
    SameQueues work.router next.router := by
  unfold swArbitration at run
  split at run
  case isTrue => cases run
  case isFalse =>
  dsimp only at run
  refine foldlM_induction
    (fun _ (after : Work Time) => SameQueues work.router after.router)
    ?_ ?_ run
  · intro i _ before after same step
    unfold swGrantPort at step
    split at step
    case h_1 =>
      cases step
      exact same
    case h_2 vc rng chosen =>
    split at step
    case isTrue => cases step
    case isFalse =>
      cases step
      refine same.trans ⟨rfl, rfl, rfl, ?_⟩
      intro j
      rw [stateUpdate_input]
      by_cases here : ((0, j) : VC) = vc
      · rw [here, update_self]
      · rw [update_of_ne here]
  · exact ⟨rfl, rfl, rfl, fun _ => rfl⟩

omit [LinearOrder Time] in
theorem sameQueues_vcArbitration
    (run : vcArbitration config work = .ok next) :
    SameQueues work.router next.router := by
  unfold vcArbitration at run
  obtain ⟨⟨requests, rng⟩, _, granting⟩ := bind_eq_ok.mp run
  cases granting
  refine foldl_induction
    (fun _ (after : Work Time) => SameQueues work.router after.router)
    ?_ ⟨rfl, rfl, rfl, fun _ => rfl⟩
  intro out _ after same
  unfold vcGrant
  split
  case isFalse => exact same
  case isTrue =>
    split
    case h_1 => exact same
    case h_2 vc _ _ =>
      refine same.trans ⟨rfl, rfl, rfl, ?_⟩
      intro j
      simp only [Router.record, Router.acquire, Router.setInput,
        Router.setOutput]
      by_cases here : ((0, j) : VC) = vc
      · rw [here, update_self]
      · rw [update_of_ne here]

theorem sameQueues_flitTraversal
    (run : flitTraversal config clock now work = .ok next) :
    SameQueues work.router next.router := by
  cases run
  refine foldl_induction
    (fun _ (after : Work Time) => SameQueues work.router after.router)
    ?_ ⟨rfl, rfl, rfl, fun _ => rfl⟩
  intro i _ after same
  refine same.trans ?_
  unfold flitTraversalPort
  dsimp only
  split <;> exact ⟨rfl, rfl, rfl, fun _ => rfl⟩

theorem FlagOk.stage {stage : Stage} {address : Addr}
    {file : List (Record Time)} (ok : FlagOk config work.router)
    (inv : QueueInv address file work.router)
    (single : SinglePort config work.router)
    (clear : stage = .flitOutbuffer →
      ∀ j, ¬ work.router.TrapsSending config clock now j)
    (run : stage.run config clock now work = .ok next) :
    FlagOk config next.router := by
  cases stage with
  | flitTraversal => exact (sameQueues_flitTraversal run).flagOk ok
  | flitOutbuffer => exact ok.flitOutbuffer single (clear rfl) run
  | swArbitration => exact (sameQueues_swArbitration run).flagOk ok
  | vcArbitration => exact (sameQueues_vcArbitration run).flagOk ok
  | routingDecision => exact ok.routingDecision inv run

end Flag

/-! ## Up to date -/

section UpToDate

variable [LinearOrder Time] {config : Config} {clock : Clock Time}
variable {now : Time}

/-- As long as the flag is not set, only records of `remaining` are left. -/
def UpToDate (remaining : List (Record Time)) (router : Router Time) : Prop :=
  router.ibuffFull = false → router.pending <:+ remaining

omit [LinearOrder Time] in
theorem SameQueues.upToDate {remaining : List (Record Time)}
    {router after : Router Time} (same : SameQueues router after)
    (upToDate : UpToDate remaining router) : UpToDate remaining after := by
  intro reading
  rw [same.pending]
  rw [same.ibuffFull] at reading
  exact upToDate reading

/-- `receive_packet` reads all records that are due, or sets the flag. -/
theorem receiveRecords_due :
    ∀ {records : List (Record Time)} {router after : Router Time},
      receiveRecords config clock now records router = .ok after →
      after.pending <:+ records ∧
        (after.ibuffFull = false →
          ∀ record ∈ after.pending.head?, clock.slack now < record.time) := by
  intro records
  induction records with
  | nil =>
      intro router after run
      cases run
      exact ⟨List.suffix_rfl, fun _ _ nobody => by cases nobody⟩
  | cons record rest ih =>
      intro router after run
      unfold receiveRecords at run
      split at run
      case isFalse stopped =>
        cases run
        refine ⟨List.suffix_rfl, ?_⟩
        intro reading other isHead
        have stillOpen : router.ibuffFull = false := reading
        cases isHead
        by_contra due
        exact stopped ⟨stillOpen, not_lt.mp due⟩
      case isTrue =>
        obtain ⟨injected, _, remaining⟩ := bind_eq_ok.mp run
        obtain ⟨suffix, due⟩ := ih remaining
        exact ⟨suffix.trans (List.suffix_cons record rest), due⟩

omit [LinearOrder Time] in
/-- A suffix that does not begin in the first part is a suffix of the
second. -/
theorem suffix_of_head {Item : Type} {items first second : List Item}
    (suffix : items <:+ first ++ second)
    (beyond : ∀ item ∈ items.head?, item ∉ first) : items <:+ second := by
  rcases List.suffix_or_suffix_of_suffix suffix
    (List.suffix_append first second) with inside | ⟨added, whole⟩
  · exact inside
  · cases added with
    | nil => exact ⟨[], whole.symm⟩
    | cons item added =>
        obtain ⟨before, all⟩ := suffix
        rw [← whole, ← List.append_assoc] at all
        have split := List.append_cancel_right all
        refine absurd ?_ (beyond item (by rw [← whole]; rfl))
        rw [← split]
        exact List.mem_append_right _ List.mem_cons_self

/-- After `receive_packet` the router is up to date, if the records that
should have been read are due. -/
theorem upToDate_of_receiveRecords {router after : Router Time}
    {records past remaining : List (Record Time)}
    (suffix : records <:+ past ++ remaining)
    (due : ∀ record ∈ past, record.time ≤ clock.slack now)
    (run : receiveRecords config clock now records router = .ok after) :
    UpToDate remaining after := by
  obtain ⟨pending, read⟩ := receiveRecords_due run
  intro reading
  refine suffix_of_head (pending.trans suffix) ?_
  intro record isHead inPast
  exact absurd (due record inPast)
    (not_le.mpr (read reading record isHead))

variable {work next : Work Time} {past remaining : List (Record Time)}

theorem UpToDate.flitOutbufferVC {vc : VC}
    (upToDate : UpToDate remaining work.router)
    (suffix : work.router.pending <:+ past ++ remaining)
    (due : ∀ record ∈ past, record.time ≤ clock.slack now)
    (run : flitOutbufferVC config clock now work vc = .ok next) :
    UpToDate remaining next.router ∧
      next.router.pending <:+ past ++ remaining := by
  simp only [Popnet.flitOutbufferVC] at run
  split at run
  case isFalse =>
    cases run
    exact ⟨upToDate, suffix⟩
  case isTrue =>
  split at run
  case h_1 => cases run
  case h_2 => cases run
  case h_3 out flit rest _ _ =>
  cases refilling : refill config clock now
      (moveFlit work.router vc out flit rest) vc with
  | error _ =>
      rw [refilling] at run
      cases run
  | ok refilled =>
      rw [refilling] at run
      cases run
      have kept : UpToDate remaining refilled ∧
          refilled.pending <:+ past ++ remaining := by
        unfold refill at refilling
        split at refilling
        case isFalse =>
          cases refilling
          exact ⟨upToDate, suffix⟩
        case isTrue =>
          refine ⟨upToDate_of_receiveRecords suffix due refilling, ?_⟩
          exact (receiveRecords_due refilling).1.trans suffix
      show UpToDate remaining (finishSend refilled vc out flit.type _) ∧
        (finishSend refilled vc out flit.type _).pending <:+ _
      unfold finishSend
      split <;> exact kept

theorem UpToDate.stage {stage : Stage}
    (upToDate : UpToDate remaining work.router)
    (suffix : work.router.pending <:+ past ++ remaining)
    (due : ∀ record ∈ past, record.time ≤ clock.slack now)
    (run : stage.run config clock now work = .ok next) :
    UpToDate remaining next.router := by
  cases stage with
  | flitTraversal => exact (sameQueues_flitTraversal run).upToDate upToDate
  | flitOutbuffer =>
      refine (foldlM_induction
        (fun _ (after : Work Time) => UpToDate remaining after.router ∧
          after.router.pending <:+ past ++ remaining)
        ?_ ⟨upToDate, suffix⟩ run).1
      rintro vc _ before after ⟨upToDateBefore, suffixBefore⟩ step
      exact upToDateBefore.flitOutbufferVC suffixBefore due step
  | swArbitration => exact (sameQueues_swArbitration run).upToDate upToDate
  | vcArbitration => exact (sameQueues_vcArbitration run).upToDate upToDate
  | routingDecision =>
      refine foldlM_induction
        (fun _ (after : Work Time) => UpToDate remaining after.router)
        ?_ upToDate run
      intro vc _ before after upToDateBefore step reading
      obtain ⟨_, flag, pending, _⟩ := routingDecisionVC_input step
      rw [pending]
      rw [flag] at reading
      exact upToDateBefore reading

end UpToDate

/-- A flit that arrives does not touch the injection port. -/
theorem sameQueues_receiveFlit {router : Router Time} {pc vc : Nat}
    {flit : Flit Time} (outer : pc ≠ 0) :
    SameQueues router (receiveFlit router (pc, vc) flit) := by
  refine ⟨rfl, rfl, rfl, ?_⟩
  intro j
  have different : ((0, j) : VC) ≠ (pc, vc) := by
    intro same
    exact outer (congrArg Prod.fst same).symm
  unfold receiveFlit Router.record Router.setInput
  dsimp only
  rw [update_of_ne different]

/-! ## Runs -/

section Runs

variable [LinearOrder Time] {config : Config} {clock : Clock Time}
variable {files : Addr → List (Record Time)} {sim next : Sim Time}

/-- The times of the trace file do not decrease, and every router has its part
of it in its local trace file. -/
structure Splits (config : Config) (time : Time) (trace : List (Record Time))
    (files : Addr → List (Record Time)) : Prop where
  sorted : (time :: trace.map Record.time).Pairwise (· ≤ ·)
  parts : ∀ address ∈ config.addresses,
    files address = trace.filter (·.sorAddr = address)

/-- What holds for the trace file and the queue. -/
structure TraceInv (config : Config) (trace : List (Record Time))
    (sim : Sim Time) : Prop where
  ordered : Ordered Event.time sim.queue
  later : ∀ event ∈ sim.queue, sim.currentTime ≤ event.time
  announced : ∀ record ∈ sim.trace.head?,
    sim.queue.filterMap Event.evgTime = [record.time]
  past : ∃ past, trace = past ++ sim.trace ∧
    ∀ record ∈ past, record.time ≤ sim.currentTime
  upToDate : ∀ address ∈ config.addresses,
    UpToDate (sim.trace.filter (·.sorAddr = address)) (sim.network address)

theorem traceInv_start {time : Time} {trace : List (Record Time)}
    (splits : Splits config time trace files) (rng : Rng) :
    TraceInv config trace (Sim.start config time trace files rng) := by
  have events : EventInv (Sim.start config time trace files rng) :=
    eventInv_start splits.sorted files rng
  refine ⟨events.ordered, events.later, events.announced,
    ⟨[], rfl, fun _ nobody => by cases nobody⟩, ?_⟩
  intro address listed _
  show files address <:+ trace.filter (·.sorAddr = address)
  rw [splits.parts address listed]

omit [LinearOrder Time] in
/-- A router is found at its own address. -/
theorem router_of_mem_addresses {address : Addr}
    (listed : address ∈ config.addresses) :
    config.router address = .ok address := by
  rcases Nat.eq_zero_or_pos config.arySize with empty | positive
  · obtain ⟨i, inside, rfl⟩ := List.mem_map.mp listed
    rw [List.mem_range, Config.routerCounter, empty] at inside
    cases cube : config.cubeSize with
    | zero => simp [Config.router, Config.routerIndex, Config.routerCounter,
        cube, addressAt]
    | succ =>
        rw [cube] at inside
        simp at inside
  · exact config.router_of_valid
      (config.valid_of_mem_addresses positive listed)

/-- The trace file is not read. -/
theorem TraceInv.of_events {trace : List (Record Time)}
    (inv : TraceInv config trace sim) (events : EventInv next)
    (onward : sim.currentTime ≤ next.currentTime)
    (sameTrace : next.trace = sim.trace)
    (upToDate : ∀ address ∈ config.addresses,
      UpToDate (sim.trace.filter (·.sorAddr = address))
        (next.network address)) :
    TraceInv config trace next := by
  obtain ⟨past, whole, done⟩ := inv.past
  refine ⟨events.ordered, events.later, events.announced,
    ⟨past, by rw [sameTrace]; exact whole, ?_⟩, sameTrace ▸ upToDate⟩
  intro record member
  exact (done record member).trans onward

/-- `receive_EVG_message`. -/
theorem TraceInv.evg {start : Time} {trace : List (Record Time)}
    (inv : TraceInv config trace sim) (forward : clock.Forward)
    (splits : Splits config start trace files) (ports : PortInv files sim)
    {time : Time} {rest : List (Event Time)} {record : Record Time}
    {records : List (Record Time)} {address : Addr} {router : Router Time}
    (queue : sim.queue = ⟨time, .evg⟩ :: rest)
    (isTrace : sim.trace = record :: records)
    (located : config.router record.sorAddr = .ok address)
    (packets : receivePacket config clock time (sim.network address) =
      .ok router)
    (events : EventInv next) (onward : sim.currentTime ≤ time)
    (network : next.network = update sim.network address router)
    (nextTime : next.currentTime = time) (nextTrace : next.trace = records) :
    TraceInv config trace next := by
  have announced := inv.announced record (by rw [isTrace]; rfl)
  rw [queue] at announced
  obtain ⟨rfl, _⟩ : time = record.time ∧
      rest.filterMap Event.evgTime = [] := by
    simpa [Event.evgTime] using announced
  obtain ⟨past, whole, done⟩ := inv.past
  rw [isTrace] at whole
  have since : ∀ other ∈ past, other.time ≤ record.time :=
    fun other member => (done other member).trans onward
  refine ⟨events.ordered, events.later, events.announced,
    ⟨past ++ [record], ?_, ?_⟩, ?_⟩
  · rw [whole, nextTrace, List.append_assoc]
    rfl
  · intro other member
    rw [nextTime]
    rcases List.mem_append.mp member with old | isRecord
    · exact since other old
    · rw [List.mem_singleton.mp isRecord]
  · intro other listed
    rw [nextTrace, network]
    by_cases same : other = address
    · subst same
      rw [update_self]
      obtain ⟨consumed, file, _⟩ := (ports.queues other).read
      have suffix : (sim.network other).pending <:+
          (past ++ [record]).filter (·.sorAddr = other) ++
            records.filter (·.sorAddr = other) := by
        refine ⟨consumed, ?_⟩
        rw [← file, splits.parts other listed, whole, ← List.filter_append,
          List.append_assoc]
        rfl
      refine upToDate_of_receiveRecords suffix ?_ packets
      intro old member
      refine le_trans ?_ (forward.slack record.time)
      rcases List.mem_append.mp (List.mem_of_mem_filter member) with
        before | isRecord
      · exact since old before
      · rw [List.mem_singleton.mp isRecord]
    · rw [update_of_ne same]
      have skipped : record.sorAddr ≠ other := by
        rintro rfl
        rw [router_of_mem_addresses listed] at located
        cases located
        exact same rfl
      have kept := inv.upToDate other listed
      rw [isTrace, List.filter_cons_of_neg (by simpa using skipped)] at kept
      exact kept

/-- A stage of a router. -/
theorem TraceInv.stage {start : Time} {trace : List (Record Time)}
    (inv : TraceInv config trace sim) (forward : clock.Forward)
    (splits : Splits config start trace files) (ports : PortInv files sim)
    {address : Addr} {work : Work Time}
    (ran : sim.stage.run config clock sim.currentTime (sim.work address) =
      .ok work) :
    ∀ other ∈ config.addresses,
      UpToDate (sim.trace.filter (·.sorAddr = other))
        (update sim.network address work.router other) := by
  obtain ⟨past, whole, done⟩ := inv.past
  intro other listed
  by_cases same : other = address
  · subst same
    rw [update_self]
    obtain ⟨consumed, file, _⟩ := (ports.queues other).read
    have suffix : (sim.work other).router.pending <:+
        past.filter (·.sorAddr = other) ++
          sim.trace.filter (·.sorAddr = other) := by
      refine ⟨consumed, ?_⟩
      rw [← List.filter_append, ← whole, ← splits.parts other listed, file]
      rfl
    have start : UpToDate (sim.trace.filter (·.sorAddr = other))
        (sim.work other).router := inv.upToDate other listed
    refine start.stage suffix ?_ ran
    intro old member
    exact (done old (List.mem_of_mem_filter member)).trans
      (forward.slack sim.currentTime)
  · rw [update_of_ne same]
    exact inv.upToDate other listed

theorem TraceInv.step {simLength start : Time} {trace : List (Record Time)}
    (inv : TraceInv config trace sim) (forward : clock.Forward)
    (splits : Splits config start trace files) (ports : PortInv files sim)
    (events : EventInv next) (onward : sim.currentTime ≤ next.currentTime)
    (run : sim.step config clock simLength = .ok next) :
    TraceInv config trace next := by
  have replaced : ∀ {address : Addr} {router : Router Time},
      SameQueues (sim.network address) router →
      ∀ other ∈ config.addresses,
        UpToDate (sim.trace.filter (·.sorAddr = other))
          (update sim.network address router other) := by
    intro address router same other listed
    by_cases here : other = address
    · rw [here, update_self]
      exact same.upToDate (here ▸ inv.upToDate other listed)
    · rw [update_of_ne here]
      exact inv.upToDate other listed
  cases stepCase run with
  | stage address rest work agenda ran after =>
      have kept := inv.stage forward splits ports ran
      refine inv.of_events events onward ?_ ?_
      · rw [after]
        unfold Sim.advance
        split <;> rfl
      · rw [after, advance_network]
        exact kept
  | evg time rest record records address router _ queue isTrace located
      packets after =>
      have due : sim.currentTime ≤ time := by rwa [after] at onward
      exact inv.evg forward splits ports queue isTrace located packets events
        due (by rw [after]) (by rw [after]) (by rw [after])
  | router time rest _ queue after =>
      refine inv.of_events events onward ?_ ?_
      · rw [after]
        rfl
      · rw [after]
        exact inv.upToDate
  | wire time src des pc vc flit rest address _ queue _ _ after =>
      have outer : pc ≠ 0 :=
        ports.wires _ (queue ▸ List.mem_cons_self) src des pc vc flit rfl
      refine inv.of_events events onward ?_ ?_
      · rw [after]
        rfl
      · rw [after]
        exact replaced (sameQueues_receiveFlit outer)
  | credit time src des pc vc rest address _ queue _ _ after =>
      refine inv.of_events events onward ?_ ?_
      · rw [after]
        rfl
      · rw [after]
        exact replaced ⟨rfl, rfl, rfl, fun _ => rfl⟩

/-- The records that have not come up are not earlier than the simulated
time. -/
theorem TraceInv.currentTime_le {start : Time} {trace : List (Record Time)}
    (inv : TraceInv config trace sim)
    (splits : Splits config start trace files) {record : Record Time}
    (member : record ∈ sim.trace) : sim.currentTime ≤ record.time := by
  obtain ⟨past, whole, _⟩ := inv.past
  have sorted := (List.pairwise_cons.mp splits.sorted).2
  rw [List.pairwise_map, whole] at sorted
  have tail := (List.pairwise_append.mp sorted).2.1
  cases isTrace : sim.trace with
  | nil =>
      rw [isTrace] at member
      cases member
  | cons first rest =>
      rw [isTrace] at member tail
      have announced := inv.announced first (by rw [isTrace]; rfl)
      have waiting : first.time ∈ sim.queue.filterMap Event.evgTime := by
        rw [announced]
        exact List.mem_singleton_self _
      obtain ⟨event, queued, isEvg⟩ := List.mem_filterMap.mp waiting
      have sameTime : event.time = first.time := by
        unfold Event.evgTime at isEvg
        split at isEvg
        · simpa using isEvg
        · cases isEvg
      have start : sim.currentTime ≤ first.time :=
        sameTime ▸ inv.later event queued
      rcases List.mem_cons.mp member with rfl | later
      · exact start
      · exact start.trans ((List.pairwise_cons.mp tail).1 record later)

/-- No packet for the router itself is about to set the flag for good: not in
`receive_packet` for an `EVG_` event, and not in `flit_outbuffer`. -/
def Sim.KeepsReading (config : Config) (clock : Clock Time)
    (sim : Sim Time) : Prop :=
  (∀ time rest record records address, sim.agenda = [] →
    sim.queue = ⟨time, .evg⟩ :: rest → sim.trace = record :: records →
    config.router record.sorAddr = .ok address →
    ¬ TrapsReading config clock time (sim.network address).pending
      (sim.network address)) ∧
  (sim.stage = .flitOutbuffer → ∀ address ∈ sim.agenda.head?, ∀ j,
    ¬ (sim.network address).TrapsSending config clock sim.currentTime j)

theorem flagOk_step {simLength : Time} (ports : PortInv files sim) (keeps : sim.KeepsReading config clock)
    (single : ∀ address, SinglePort config (sim.network address))
    (ok : ∀ address, FlagOk config (sim.network address))
    (run : sim.step config clock simLength = .ok next) :
    ∀ address, FlagOk config (next.network address) := by
  cases stepCase run with
  | stage address rest work agenda ran after =>
      rw [after, advance_network]
      have first : address ∈ sim.agenda.head? := by simp [agenda]
      have start : FlagOk config (sim.work address).router := ok address
      refine forall_update (FlagOk config) ok address
        (start.stage (ports.queues address) (single address) ?_ ran)
      exact fun sending => keeps.2 sending address first
  | evg time rest record records address router between queue trace located
      packets after =>
      rw [after]
      exact forall_update (FlagOk config) ok address
        ((ok address).receiveRecords
          (keeps.1 time rest record records address between queue trace
            located) packets)
  | router time rest _ _ after =>
      rw [after]
      exact ok
  | wire time src des pc vc flit rest address _ queue _ _ after =>
      rw [after]
      have outer : pc ≠ 0 :=
        ports.wires _ (queue ▸ List.mem_cons_self) src des pc vc flit rfl
      exact forall_update (FlagOk config) ok address
        ((sameQueues_receiveFlit outer).flagOk (ok address))
  | credit time src des pc vc rest address _ _ _ _ after =>
      rw [after]
      exact forall_update (FlagOk config) ok address (ok address)

/-- What holds in every run in which no packet for the router itself sets the
flag for good. -/
theorem flagInv_of_reachable {simLength time : Time}
    {trace : List (Record Time)} {rng : Rng}
    (reached : Sim.ReachableWhile config clock
      (Sim.KeepsReading config clock) simLength time trace files rng sim) :
    sim.Ready config ∧ PortInv files sim ∧
      (∀ address, SinglePort config (sim.network address)) ∧
      (∀ address, FlagOk config (sim.network address)) ∧
      (clock.Forward → Splits config time trace files →
        EventInv sim ∧ TraceInv config trace sim) := by
  refine invariant_of_reflTransGen
    (fun (sim : Sim Time) => sim.Ready config ∧ PortInv files sim ∧
      (∀ address, SinglePort config (sim.network address)) ∧
      (∀ address, FlagOk config (sim.network address)) ∧
      (clock.Forward → Splits config time trace files →
        EventInv sim ∧ TraceInv config trace sim))
    ?_ ⟨ready_start, portInv_start config time trace files rng, ?_, ?_, ?_⟩
    reached
  · rintro before after ⟨ready, ports, single, ok, traced⟩ ⟨keeps, step⟩
    obtain ⟨readyAfter, portsAfter⟩ := ports.step ready step
    refine ⟨readyAfter, portsAfter, singlePort_step ready single step,
      flagOk_step ports keeps single ok step, ?_⟩
    intro forward splits
    obtain ⟨events, records⟩ := traced forward splits
    obtain ⟨eventsAfter, onward⟩ := events.step forward ready step
    exact ⟨eventsAfter,
      records.step forward splits ports eventsAfter onward step⟩
  · exact fun address => singlePort_start config address _
  · intro address full
    cases full
  · exact fun _ splits =>
      ⟨eventInv_start splits.sorted files rng, traceInv_start splits rng⟩

/-- In every run in which no packet for the router itself sets the full flag
for good: as long as the flag of a router is set, an injection channel holds a
flit for another router, which leaves through `flit_outbuffer` only; the
records of the local trace file are read in their order and injected once
each; and if the flag is not set, only records are left that have not come up
in the trace file. -/
theorem injection_keeps_reading {simLength time : Time}
    {trace : List (Record Time)} {rng : Rng}
    (reached : Sim.ReachableWhile config clock
      (Sim.KeepsReading config clock) simLength time trace files rng sim)
    (address : Addr) :
    ((sim.network address).ibuffFull = true →
        ∃ j < config.vcNumber,
          ∃ flit ∈ ((sim.network address).input (0, j)).buffer,
            flit.desAddr ≠ address) ∧
      (∀ j, ∀ flit ∈ (sim.network address).acceptedAt (0, j),
        flit.desAddr = address) ∧
      (∃ consumed, files address = consumed ++ (sim.network address).pending ∧
        (sim.network address).injected = injectedFlits address consumed) ∧
      (clock.Forward → Splits config time trace files →
        address ∈ config.addresses →
        (sim.network address).ibuffFull = false →
        (sim.network address).pending <:+
            sim.trace.filter (·.sorAddr = address) ∧
          ∀ record ∈ (sim.network address).pending,
            sim.currentTime ≤ record.time) := by
  obtain ⟨_, ports, _, ok, traced⟩ := flagInv_of_reachable reached
  have inv := ports.queues address
  refine ⟨?_, inv.accepted, ?_, ?_⟩
  · intro full
    obtain ⟨j, inside, flit, member, away⟩ := ok address full
    rw [inv.located] at away
    exact ⟨j, inside, flit, member, away⟩
  · obtain ⟨consumed, file, _, injected⟩ := inv.read
    exact ⟨consumed, file, injected⟩
  · intro forward splits listed reading
    obtain ⟨_, traceInv⟩ := traced forward splits
    have suffix := traceInv.upToDate address listed reading
    refine ⟨suffix, ?_⟩
    intro record member
    exact traceInv.currentTime_le splits
      (List.mem_of_mem_filter (suffix.subset member))

end Runs

/-! ## Runs of a small mesh -/

theorem popnetClock_forward : popnetClock.Forward where
  wire := fun delay time => by cases delay <;> exact Nat.le_add_left _ _
  credit := fun time => Nat.le_add_right time _
  slack := fun time => Nat.le_succ time

/-- Packets to other routers do not trap a router. -/
theorem not_trapsReading_of_away [LinearOrder Time] {config : Config}
    {clock : Clock Time} {now : Time} :
    ∀ {records : List (Record Time)} {router : Router Time},
      (∀ record ∈ records, record.desAddr ≠ router.address) →
      ¬ TrapsReading config clock now records router := by
  intro records
  induction records with
  | nil => exact fun _ traps => traps
  | cons record rest ih =>
      rintro router away ⟨_, _, traps | further⟩
      · exact away record List.mem_cons_self traps.2.2.1
      · refine ih ?_ further
        intro other member
        have same : (addPacket config router record).address =
            router.address := by
          unfold addPacket
          split <;> rfl
        show other.desAddr ≠ (addPacket config router record).address
        rw [same]
        exact away other (List.mem_cons_of_mem record member)

/-- No full queue is drained by the next step. -/
def notDraining (sim : Sim Nat) : Bool :=
  sim.stage != .flitOutbuffer ||
    sim.agenda.head?.all fun address => !(sim.network address).ibuffFull

/-- No full queue is drained, and only packets to other routers are left. -/
def remoteOnly (sim : Sim Nat) : Bool :=
  notDraining sim && meshTwo.addresses.all fun address =>
    (sim.network address).pending.all fun record =>
      decide (record.desAddr ≠ (sim.network address).address)

theorem keepsReading_of_remoteOnly (sim : Sim Nat)
    (passed : remoteOnly sim = true) :
    sim.KeepsReading meshTwo popnetClock := by
  rw [remoteOnly, Bool.and_eq_true] at passed
  refine ⟨?_, ?_⟩
  · intro time rest record records address _ _ _ located
    refine not_trapsReading_of_away ?_
    intro other member
    have all := List.all_eq_true.mp passed.2 address
      (meshTwo.mem_addresses_of_router located)
    simpa using List.all_eq_true.mp all other member
  · intro sending address first j traps
    have flag := traps.2.1
    rw [Option.mem_def] at first
    have draining := passed.1
    simp [notDraining, sending, first, flag] at draining

theorem splits_filter {records : List (Record Nat)}
    (sorted : (0 :: records.map Record.time).Pairwise (· ≤ ·)) :
    Splits meshTwo 0 records
      (fun address => records.filter (·.sorAddr = address)) :=
  ⟨sorted, fun _ _ => rfl⟩

theorem injection_keeps_reading_mesh :
    ∃ sim : Sim Nat,
      Sim.ReachableWhile meshTwo popnetClock
        (Sim.KeepsReading meshTwo popnetClock) 100000000000 0 remoteRecords
        (fun address => remoteRecords.filter (·.sorAddr = address))
        ⟨fun _ => 0, 0⟩ sim ∧
      (sim.network [1, 0]).ibuffFull = true ∧
      (∃ j < 1, ∃ flit ∈ ((sim.network [1, 0]).input (0, j)).buffer,
        flit.desAddr ≠ [1, 0]) ∧
      (sim.network [0, 0]).ibuffFull = false ∧
      (sim.network [0, 0]).pending <:+
        sim.trace.filter (·.sorAddr = [0, 0]) := by
  obtain ⟨sim, reached, observed⟩ :=
    exists_of_meshSteps remoteRecords remoteOnly 22
      (fun sim => ((sim.network [1, 0]).ibuffFull,
        (sim.network [0, 0]).ibuffFull))
      keepsReading_of_remoteOnly
      (show _ = Except.ok (true, false) by decide +kernel)
  rw [Prod.mk.injEq] at observed
  have splits : Splits meshTwo 0 remoteRecords
      (fun address => remoteRecords.filter (·.sorAddr = address)) :=
    splits_filter (by decide)
  obtain ⟨full, _⟩ := injection_keeps_reading reached [1, 0]
  obtain ⟨_, _, _, upToDate⟩ := injection_keeps_reading reached [0, 0]
  exact ⟨sim, reached, observed.1, full observed.1, observed.2,
    (upToDate popnetClock_forward splits (by decide +kernel)
      observed.2).1⟩

/-- Two packets to the router itself, the first of which fills the queue, and
one that is never read. -/
def homeRecords : List (Record Nat) :=
  [⟨0, [1, 0], [1, 0], 101⟩, ⟨0, [1, 0], [1, 0], 1⟩, ⟨0, [1, 0], [0, 0], 1⟩]

/-- The injection channel is empty, the flag is set, and a record that is due
is left. -/
theorem flag_outlives_queue :
    ∃ sim, MeshReachable homeRecords sim ∧ sim.agenda = [] ∧
      (sim.network [1, 0]).ibuffFull = true ∧
      (∀ j < meshTwo.vcNumber,
        ((sim.network [1, 0]).input (0, j)).buffer = []) ∧
      (sim.network [1, 0]).pending ≠ [] := by
  obtain ⟨sim, reached, between, observed⟩ :=
    exists_of_meshRun homeRecords [[1, 0]] 107
      (fun sim => ((sim.network [1, 0]).ibuffFull,
        ((sim.network [1, 0]).input (0, 0)).buffer.length,
        (sim.network [1, 0]).pending.length))
      (by decide +kernel) (show _ = Except.ok (true, 0, 1) by decide +kernel)
  rw [Prod.mk.injEq, Prod.mk.injEq] at observed
  obtain ⟨full, empty, left⟩ := observed
  refine ⟨sim, reached, between, full, ?_, ?_⟩
  · intro j inside
    have first : j = 0 := Nat.lt_one_iff.mp inside
    rw [first]
    exact List.length_eq_zero_iff.mp empty
  · intro nothing
    rw [nothing] at left
    cases left

end ChipletSniper.Popnet
