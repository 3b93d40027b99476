import ChipletSniper.Popnet.RouterInvariant

/-!
# Every move keeps the invariant of the router
-/

namespace ChipletSniper.Popnet

open Library Relation Function

variable {Time : Type} [LinearOrder Time] {config : Config}
variable {router next : Router Time} {vc out : VC} {flit : Flit Time}
variable {rest : List (Flit Time)}

/-! ## The next flit of a channel -/

theorem header_of_accepts (inPlace : accepts none flit = true) :
    isHeader flit.type = true := by
  simp only [accepts, Bool.and_eq_true] at inPlace
  exact inPlace.1

theorem continues_of_accepts {last : Flit Time}
    (inPlace : accepts (some last) flit = true) :
    isHeader flit.type = false ∧ last.continues flit := by
  simpa [accepts] using inPlace

namespace ChannelOk

theorem accepts_head (ok : ChannelOk config router vc)
    (buffered : (router.input vc).buffer = flit :: rest) :
    accepts (router.opened vc) flit = true := by
  obtain ⟨last, framed⟩ := ok.framed
  rw [ok.history, buffered] at framed
  exact accepts_of_framing framed ok.departed

/-- The flit that leaves next belongs to the current packet. -/
theorem current_head (ok : ChannelOk config router vc)
    (buffered : (router.input vc).buffer = flit :: rest) :
    ∃ current, Current (router.input vc) (router.opened vc) current ∧
      current.desAddr = flit.desAddr := by
  cases opened : router.opened vc with
  | none =>
      exact ⟨flit, Or.inr ⟨rfl, by rw [buffered]; rfl⟩, rfl⟩
  | some last =>
      have inPlace := ok.accepts_head buffered
      rw [opened] at inPlace
      obtain ⟨_, _, _, sameTarget, _⟩ := continues_of_accepts inPlace
      exact ⟨last, Or.inl rfl, sameTarget.symm⟩

/-- An injection channel never waits for the rest of a packet. -/
theorem opened_of_injection (ok : ChannelOk config router vc)
    (injection : vc.1 = 0) (empty : (router.input vc).buffer = []) :
    router.opened vc = none := by
  have whole := ok.whole injection
  rw [ok.history, empty, List.append_nil, ok.departed] at whole
  exact Option.some.inj whole

end ChannelOk

/-- The open packet after a departure. -/
theorem opened_after (ok : ChannelOk config router vc)
    (buffered : (router.input vc).buffer = flit :: rest)
    (departed : next.departed vc = router.departed vc ++ [flit]) :
    framing (next.departed vc) = some (next.opened vc) ∧
      next.opened vc = if closes flit then none else some flit := by
  have after :=
    framing_snoc ok.departed (ok.accepts_head buffered)
  rw [← departed] at after
  have opened : next.opened vc = if closes flit then none else some flit := by
    rw [Router.opened, after]
    rfl
  exact ⟨by rw [after, opened], opened⟩

/-! ## Moves inside a channel -/

omit [LinearOrder Time] in
/-- A channel without an output has an open packet only at home. -/
theorem Phase.ite_home {address : Addr} {channel : InputVC Time}
    {opened : Option (Flit Time)} {holder : Option VC}
    (phase : Phase config address vc channel opened holder)
    (free : holder = none) :
    (if channel.state = .home then opened else none) = opened := by
  cases opened with
  | none => split <;> rfl
  | some last =>
      have home := phase.home_iff.mpr ⟨by simp, free⟩
      rw [if_pos home]

/-- A flit is accepted. -/
theorem RouterInv.accept (inv : RouterInv config router)
    (inRange : config.InRange vc)
    (buffered : (router.input vc).buffer = flit :: rest)
    (free : router.holder vc = none)
    (home : flit.desAddr = router.address) {state : VCState}
    (phase :
      Phase config router.address vc
        { router.input vc with buffer := rest, state := state }
        (if closes flit then none else some flit) none) :
    RouterInv config
      ((router.setInput vc
        { router.input vc with buffer := rest, state := state }).record
        [.accepted vc flit]) := by
  set next := (router.setInput vc
    { router.input vc with buffer := rest, state := state }).record
      [.accepted vc flit] with nextDef
  have ok := inv.channel vc
  have log : next.log = router.log ++ [.accepted vc flit] := rfl
  have channel : next.input vc =
      { router.input vc with buffer := rest, state := state } :=
    update_self _ _ _
  have elsewhere : Elsewhere router next vc :=
    elsewhere_of_log rfl
      (fun other different => update_of_ne different _ _) log
      (by simp [Note.channel])
  have departed : next.departed vc = router.departed vc ++ [flit] := by
    simp [departed_of_log log, Note.departure]
  have arrivals : next.arrivals vc = router.arrivals vc := by
    simp [arrivals_of_log log, Note.arrival]
  have acceptedAt : next.acceptedAt vc = router.acceptedAt vc ++ [flit] := by
    simp [acceptedAt_of_log log, Note.acceptance]
  have holder : next.holder vc = router.holder vc := by
    simp [holder_of_log log, Note.holding]
  have passedTo : next.passedTo = router.passedTo := by
    funext target
    simp [passedTo_of_log log, Note.passage]
  obtain ⟨framed, opened⟩ := opened_after ok buffered departed
  refine inv.of_channel inRange elsewhere rfl passedTo holder (Or.inl free) ?_
  refine ⟨?_, ?_, ?_, framed, ?_, ?_, ?_, ?_⟩
  · rw [arrivals, departed, channel, ok.history, buffered, List.append_assoc]
    rfl
  · rw [arrivals]
    exact ok.framed
  · rw [arrivals]
    exact ok.whole
  · have before := ok.accepted
    rw [ok.phase.ite_home free] at before
    rw [acceptedAt, framing_snoc before (ok.accepts_head buffered), channel,
      opened]
    exact congrArg some (phase.ite_home rfl).symm
  · intro earlier member
    rw [acceptedAt, List.mem_append, List.mem_singleton] at member
    rcases member with old | rfl
    · exact ok.atHome earlier old
    · exact home
  · rw [channel, opened, holder, free]
    exact phase
  · intro target held
    rw [holder, free] at held
    cases held

/-- A channel changes its state and keeps its flits. -/
theorem RouterInv.restate (inv : RouterInv config router)
    (inRange : config.InRange vc) {channel : InputVC Time}
    (buffer : channel.buffer = (router.input vc).buffer)
    (phase :
      Phase config router.address vc channel (router.opened vc)
        (router.holder vc))
    (holds : ∀ target, router.holder vc = some target →
      Holds config router.address channel (router.opened vc) target) :
    RouterInv config (router.setInput vc channel) := by
  set next := router.setInput vc channel
  have ok := inv.channel vc
  have log : next.log = router.log ++ [] := (List.append_nil _).symm
  have itself : next.input vc = channel := update_self _ _ _
  have elsewhere : Elsewhere router next vc :=
    elsewhere_of_log rfl
      (fun other different => update_of_ne different _ _) log
      (fun _ none => by cases none)
  refine inv.of_channel inRange elsewhere rfl rfl rfl (Or.inr rfl) ?_
  refine ⟨?_, ok.framed, ok.whole, ok.departed, ?_, ok.atHome, ?_, ?_⟩
  · rw [itself, buffer]
    exact ok.history
  · rw [itself]
    simp only [phase.home_iff, ← ok.phase.home_iff]
    exact ok.accepted
  · rw [itself]
    exact phase
  · rw [itself]
    exact holds

/-- The phase of a channel in `ROUTING_`. -/
theorem ChannelOk.of_routing (ok : ChannelOk config router vc)
    (state : (router.input vc).state = .routing) :
    router.opened vc = none ∧ router.holder vc = none := by
  cases ok.phase with
  | idle other | gap _ _ other | requesting _ _ other | home _ other =>
      rw [state] at other
      cases other
  | routing _ _ opened free => exact ⟨opened, free⟩
  | active _ other =>
      rw [state] at other
      rcases other with other | other <;> cases other

/-- The phase of a channel in `HOME_`. -/
theorem ChannelOk.of_home (ok : ChannelOk config router vc)
    (state : (router.input vc).state = .home) :
    ∃ last, router.opened vc = some last ∧
      last.desAddr = router.address ∧ router.holder vc = none := by
  cases ok.phase with
  | idle other | gap _ _ other | routing other | requesting _ _ other =>
      rw [state] at other
      cases other
  | active _ other =>
      rw [state] at other
      rcases other with other | other <;> cases other
  | home last _ opened home free => exact ⟨last, opened, home, free⟩

/-- The phase of a channel in `VC_AB_`. -/
theorem ChannelOk.of_vcAb (ok : ChannelOk config router vc)
    (state : (router.input vc).state = .vcAb) :
    ∃ flit rest, (router.input vc).buffer = flit :: rest ∧
      router.address ≠ flit.desAddr ∧
      (router.input vc).routing =
        currAlgorithm config.arySize router.address flit.desAddr
          config.routingAlg ∧
      router.opened vc = none ∧ router.holder vc = none := by
  cases ok.phase with
  | idle other | gap _ _ other | routing other | home _ other =>
      rw [state] at other
      cases other
  | active _ other =>
      rw [state] at other
      rcases other with other | other <;> cases other
  | requesting flit rest _ buffered away routing opened free =>
      exact ⟨flit, rest, buffered, away, routing, opened, free⟩

/-- The phase of a channel that waits for the switch or holds it. -/
theorem ChannelOk.of_active (ok : ChannelOk config router vc)
    (state : (router.input vc).state = .swAb ∨
      (router.input vc).state = .swTr) :
    (router.input vc).buffer ≠ [] ∧
      ∃ target, router.holder vc = some target := by
  cases ok.phase with
  | idle other | gap _ _ other | routing other | requesting _ _ other
  | home _ other =>
      rw [other] at state
      rcases state with state | state <;> cases state
  | active target _ nonempty held => exact ⟨nonempty, target, held⟩

/-- The packet that is being accepted is at home. -/
theorem ChannelOk.home_head (ok : ChannelOk config router vc)
    (state : (router.input vc).state = .home)
    (buffered : (router.input vc).buffer = flit :: rest) :
    flit.desAddr = router.address := by
  obtain ⟨last, opened, home, _⟩ := ok.of_home state
  have inPlace := ok.accepts_head buffered
  rw [opened] at inPlace
  obtain ⟨_, _, _, sameTarget, _⟩ := continues_of_accepts inPlace
  exact sameTarget.trans home

/-- A flit that waits for an output is not at home. -/
theorem ChannelOk.away_of_other (ok : ChannelOk config router vc)
    (outer : vc.1 ≠ 0)
    (notRouting : (router.input vc).state ≠ .routing)
    (notHome : (router.input vc).state ≠ .home)
    (buffered : (router.input vc).buffer = flit :: rest) :
    router.address ≠ flit.desAddr := by
  have nonempty : (router.input vc).buffer ≠ [] := by simp [buffered]
  cases ok.phase with
  | idle _ empty _ _ => exact absurd (empty outer) nonempty
  | gap _ _ _ _ empty _ _ => exact absurd empty nonempty
  | routing state _ _ _ => exact absurd state notRouting
  | home _ state _ _ _ => exact absurd state notHome
  | requesting first others _ itsBuffer away _ _ _ =>
      rw [buffered, List.cons.injEq] at itsBuffer
      rw [itsBuffer.1]
      exact away
  | active target _ _ held =>
      obtain ⟨current, isCurrent, sameTarget⟩ := ok.current_head buffered
      rw [← sameTarget]
      exact ((ok.holds target held).routed current isCurrent).1

omit [LinearOrder Time] in
theorem phase_stateAfterPacket (config : Config) (address : Addr)
    (channel : InputVC Time) (rest : List (Flit Time)) :
    Phase config address vc
      { channel with buffer := rest, state := stateAfterPacket rest }
      none none := by
  cases rest with
  | nil => exact .idle rfl (fun _ => rfl) rfl rfl
  | cons flit rest =>
      exact .routing (by simp [stateAfterPacket]) (by simp) rfl rfl

theorem RouterInv.acceptFirst (inv : RouterInv config router)
    (inRange : config.InRange vc)
    (state : (router.input vc).state = .routing)
    (buffered : (router.input vc).buffer = flit :: rest)
    (home : router.address = flit.desAddr) :
    RouterInv config
      ((router.setInput vc
        { router.input vc with
          buffer := rest
          state :=
            if flit.type = .header then .home
            else stateAfterPacket rest }).record [.accepted vc flit]) := by
  obtain ⟨opened, free⟩ := (inv.channel vc).of_routing state
  have inPlace := (inv.channel vc).accepts_head buffered
  rw [opened] at inPlace
  have header := header_of_accepts inPlace
  refine inv.accept inRange buffered free home.symm ?_
  cases type : flit.type with
  | header =>
      simp only [closes, type, isTail]
      exact .home flit rfl rfl home.symm rfl
  | single =>
      simp only [closes, type, isTail]
      exact phase_stateAfterPacket config router.address _ rest
  | body | tail =>
      rw [type] at header
      cases header

theorem RouterInv.acceptNext (inv : RouterInv config router)
    (inRange : config.InRange vc)
    (state : (router.input vc).state = .home)
    (buffered : (router.input vc).buffer = flit :: rest) :
    RouterInv config
      ((router.setInput vc
        { router.input vc with
          buffer := rest
          state :=
            if flit.type = .tail then stateAfterPacket rest
            else .home }).record [.accepted vc flit]) := by
  obtain ⟨last, opened, _, free⟩ := (inv.channel vc).of_home state
  have inPlace := (inv.channel vc).accepts_head buffered
  rw [opened] at inPlace
  have further := (continues_of_accepts inPlace).1
  have home := (inv.channel vc).home_head state buffered
  refine inv.accept inRange buffered free home ?_
  cases type : flit.type with
  | body =>
      simp only [closes, type, isTail]
      exact .home flit rfl rfl home rfl
  | tail =>
      simp only [closes, type, isTail]
      exact phase_stateAfterPacket config router.address _ rest
  | header | single =>
      rw [type] at further
      cases further

theorem RouterInv.route (inv : RouterInv config router)
    (inRange : config.InRange vc)
    (state : (router.input vc).state = .routing)
    (buffered : (router.input vc).buffer = flit :: rest)
    (away : router.address ≠ flit.desAddr) :
    RouterInv config
      (router.setInput vc
        { router.input vc with
          routing :=
            currAlgorithm config.arySize router.address flit.desAddr
              config.routingAlg
          crouting := none
          state := .vcAb }) := by
  obtain ⟨opened, free⟩ := (inv.channel vc).of_routing state
  refine inv.restate inRange rfl ?_ ?_
  · exact .requesting flit rest rfl buffered away rfl opened free
  · intro target held
    rw [free] at held
    cases held

theorem RouterInv.grantSwitch (inv : RouterInv config router)
    (inRange : config.InRange vc)
    (state : (router.input vc).state = .swAb) :
    RouterInv config (router.stateUpdate vc .swTr) := by
  obtain ⟨nonempty, target, held⟩ :=
    (inv.channel vc).of_active (Or.inl state)
  refine inv.restate inRange rfl ?_ ?_
  · exact .active target (Or.inr rfl) nonempty held
  · intro other isHeld
    have holds := (inv.channel vc).holds other isHeld
    exact ⟨holds.crouting, holds.inRange, holds.outward, holds.routed⟩

/-! ## Arrivals -/

/-- A channel that holds an output has a current packet to show for it. -/
theorem ChannelOk.current_of_holder (ok : ChannelOk config router vc)
    {target : VC} (held : router.holder vc = some target)
    (unopened : router.opened vc = none) :
    (router.input vc).buffer ≠ [] := by
  cases ok.phase with
  | idle _ _ _ free | routing _ _ _ free | requesting _ _ _ _ _ _ _ free
  | home _ _ _ _ free =>
      rw [held] at free
      cases free
  | gap _ _ _ _ _ opened _ =>
      rw [unopened] at opened
      cases opened
  | active _ _ nonempty _ => exact nonempty

omit [LinearOrder Time] in
theorem holding_arrivals (current : Option VC) (flits : List (Flit Time)) :
    (flits.map (Note.arrived vc)).foldl (Note.holding vc) current =
      current := by
  induction flits with
  | nil => rfl
  | cons flit rest ih => exact ih

/-- Flits are added to a channel. -/
theorem RouterInv.extend (inv : RouterInv config router)
    (inRange : config.InRange vc) {flits : List (Flit Time)}
    {state : VCState}
    (framed : ∃ last, framing (router.arrivals vc ++ flits) = some last)
    (whole : vc.1 = 0 → framing (router.arrivals vc ++ flits) = some none)
    (phase :
      Phase config router.address vc
        { router.input vc with
          buffer := (router.input vc).buffer ++ flits
          state := state }
        (router.opened vc) (router.holder vc)) :
    RouterInv config
      ((router.setInput vc
        { router.input vc with
          buffer := (router.input vc).buffer ++ flits
          state := state }).record (flits.map (.arrived vc))) := by
  set next := (router.setInput vc
    { router.input vc with
      buffer := (router.input vc).buffer ++ flits
      state := state }).record (flits.map (.arrived vc))
  have ok := inv.channel vc
  have log : next.log = router.log ++ flits.map (.arrived vc) := rfl
  have itself : next.input vc =
      { router.input vc with
        buffer := (router.input vc).buffer ++ flits
        state := state } :=
    update_self _ _ _
  have elsewhere : Elsewhere router next vc :=
    elsewhere_of_log rfl
      (fun other different => update_of_ne different _ _) log
      (by simp [Note.channel])
  have arrivals : next.arrivals vc = router.arrivals vc ++ flits := by
    simp [arrivals_of_log log, List.filterMap_map, comp_def,
      Note.arrival]
  have departed : next.departed vc = router.departed vc := by
    simp [departed_of_log log, List.filterMap_map, comp_def,
      Note.departure]
  have acceptedAt : next.acceptedAt vc = router.acceptedAt vc := by
    simp [acceptedAt_of_log log, List.filterMap_map, comp_def,
      Note.acceptance]
  have passedTo : next.passedTo = router.passedTo := by
    funext target
    simp [passedTo_of_log log, List.filterMap_map, comp_def,
      Note.passage]
  have holder : next.holder vc = router.holder vc := by
    rw [holder_of_log log, holding_arrivals]
  have opened : next.opened vc = router.opened vc := by
    rw [Router.opened, departed, Router.opened]
  refine inv.of_channel inRange elsewhere rfl passedTo holder (Or.inr opened)
    ?_
  refine ⟨?_, ?_, ?_, ?_, ?_, ?_, ?_, ?_⟩
  · rw [arrivals, departed, itself, ok.history, List.append_assoc]
  · rw [arrivals]
    exact framed
  · rw [arrivals]
    exact whole
  · rw [departed, opened]
    exact ok.departed
  · rw [acceptedAt, opened, itself, ok.accepted]
    simp only [ok.phase.home_iff, phase.home_iff]
  · rw [acceptedAt]
    exact ok.atHome
  · rw [itself, opened, holder]
    exact phase
  · intro target held
    rw [holder] at held
    rw [itself, opened]
    have holds := ok.holds target held
    refine ⟨holds.crouting, holds.inRange, holds.outward, ?_⟩
    intro current isCurrent
    apply holds.routed current
    rcases isCurrent with open_ | ⟨unopened, first⟩
    · exact Or.inl open_
    · -- the first flit of the buffer is still the first
      have nonempty := ok.current_of_holder held unopened
      refine Or.inr ⟨unopened, ?_⟩
      rwa [List.head?_append_of_ne_nil _ nonempty] at first

/-- The state that `receive_flit` leaves. -/
def stateAfterArrival (channel : InputVC Time) (flit : Flit Time) : VCState :=
  if isHeader flit.type then
    if channel.buffer.length + 1 = 1 then .routing else channel.state
  else
    if channel.state = .init then .swAb else channel.state

theorem phase_of_arrival (ok : ChannelOk config router vc)
    (outer : vc.1 ≠ 0) {last : Option (Flit Time)}
    (before : framing (router.arrivals vc) = some last)
    (inPlace : accepts last flit = true) :
    Phase config router.address vc
      { router.input vc with
        buffer := (router.input vc).buffer ++ [flit]
        state := stateAfterArrival (router.input vc) flit }
      (router.opened vc) (router.holder vc) := by
  have opened_of_empty : (router.input vc).buffer = [] →
      router.opened vc = last := by
    intro empty
    rw [ok.history, empty, List.append_nil, ok.departed] at before
    exact Option.some.inj before
  have unchanged : (router.input vc).buffer ≠ [] →
      (router.input vc).state ≠ .init →
      stateAfterArrival (router.input vc) flit = (router.input vc).state := by
    intro nonempty busy
    simp [stateAfterArrival, nonempty, busy]
  cases ok.phase with
  | idle state empty opened free =>
      -- a packet starts
      have nothing := empty outer
      rw [← opened_of_empty nothing, opened] at inPlace
      have header := header_of_accepts inPlace
      refine .routing ?_ (by simp) opened free
      simp [stateAfterArrival, header, nothing]
  | gap open_ target state _ empty opened held =>
      -- the packet goes on
      rw [← opened_of_empty empty, opened] at inPlace
      have further := (continues_of_accepts inPlace).1
      refine .active target (Or.inl ?_) (by simp) held
      simp [stateAfterArrival, further, state]
  | routing state nonempty opened free =>
      refine .routing ?_ (by simp) opened free
      exact (unchanged nonempty (by simp [state])).trans state
  | requesting first others state buffered away routing opened free =>
      refine .requesting first (others ++ [flit]) ?_ ?_ away routing opened
        free
      · exact (unchanged (by simp [buffered]) (by simp [state])).trans state
      · simp [buffered]
  | active target state nonempty held =>
      have busy : (router.input vc).state ≠ .init := by
        rcases state with state | state <;> simp [state]
      refine .active target ?_ (by simp) held
      show stateAfterArrival (router.input vc) flit = .swAb ∨
        stateAfterArrival (router.input vc) flit = .swTr
      rwa [unchanged nonempty busy]
  | home open_ state opened home free =>
      refine .home open_ ?_ opened home free
      by_cases header : isHeader flit.type = true
      · have nonempty : (router.input vc).buffer ≠ [] := by
          intro empty
          rw [← opened_of_empty empty, opened] at inPlace
          rw [(continues_of_accepts inPlace).1] at header
          cases header
        exact (unchanged nonempty (by simp [state])).trans state
      · simp [stateAfterArrival, header, state]

/-- A flit arrives that continues the flits of its channel. -/
theorem RouterInv.receiveFlit (inv : RouterInv config router)
    (inRange : config.InRange vc) (outer : vc.1 ≠ 0)
    {last : Option (Flit Time)}
    (before : framing (router.arrivals vc) = some last)
    (inPlace : accepts last flit = true) :
    RouterInv config (receiveFlit router vc flit) :=
  inv.extend inRange ⟨_, framing_snoc before inPlace⟩
    (fun injection => absurd injection outer)
    (phase_of_arrival (inv.channel vc) outer before inPlace)

/-! ## Injection -/

theorem physicPorts_pos (config : Config) : 0 < config.physicPorts := by
  unfold Config.physicPorts
  split <;> omega

omit [LinearOrder Time] in
theorem shortestVC_lt (positive : 0 < config.vcNumber) :
    shortestVC config router < config.vcNumber := by
  suffices bound :
      (∀ i ∈ ([] : List Nat), i < config.vcNumber) ∧
        shortestVC config router < config.vcNumber from bound.2
  refine foldl_induction
    (fun items best => (∀ i ∈ items, i < config.vcNumber) ∧
      best < config.vcNumber) ?_
    ⟨fun i => List.mem_range.mp, positive⟩
  rintro i rest best ⟨inside, bound⟩
  refine ⟨fun k later => inside k (List.mem_cons_of_mem i later), ?_⟩
  split
  · exact inside i List.mem_cons_self
  · exact bound

omit [LinearOrder Time] in
theorem inRange_shortestVC (positive : 0 < config.vcNumber) :
    config.InRange (0, shortestVC config router) :=
  ⟨physicPorts_pos config, shortestVC_lt positive⟩

/-- Whole packets are added to an injection channel.  A packet that comes to
an empty channel starts it, unless the channel is held. -/
theorem phase_of_injection (ok : ChannelOk config router vc)
    (injection : vc.1 = 0) {flits : List (Flit Time)}
    (nonempty : flits ≠ []) (held : Option VC) :
    Phase config router.address vc
      { router.input vc with
        buffer := (router.input vc).buffer ++ flits
        state :=
          if (router.input vc).buffer.length = 0 ∧ held ≠ some vc then
            .routing
          else (router.input vc).state }
      (router.opened vc) (router.holder vc) := by
  have inner : ¬ vc.1 ≠ 0 := fun outer => outer injection
  have unchanged : (router.input vc).buffer ≠ [] →
      (if (router.input vc).buffer.length = 0 ∧ held ≠ some vc then
        VCState.routing else (router.input vc).state) =
        (router.input vc).state := by
    intro filled
    rw [if_neg]
    rintro ⟨empty, _⟩
    exact filled (List.eq_nil_of_length_eq_zero empty)
  cases ok.phase with
  | idle state _ opened free =>
      by_cases starts :
          (router.input vc).buffer.length = 0 ∧ held ≠ some vc
      · rw [if_pos starts]
        exact .routing rfl (by simp [nonempty]) opened free
      · rw [if_neg starts]
        exact .idle state (fun outer => absurd outer inner) opened free
  | gap _ _ _ outer => exact absurd outer inner
  | routing state filled opened free =>
      exact .routing ((unchanged filled).trans state) (by simp [nonempty])
        opened free
  | requesting first others state buffered away routing opened free =>
      refine .requesting first (others ++ flits) ?_ ?_ away routing opened
        free
      · exact (unchanged (by simp [buffered])).trans state
      · simp [buffered]
  | active target state filled isHeld =>
      refine .active target ?_ (by simp [nonempty]) isHeld
      rw [unchanged filled]
      exact state
  | home last state opened home free =>
      have filled : (router.input vc).buffer ≠ [] := by
        intro empty
        rw [ok.opened_of_injection injection empty] at opened
        cases opened
      exact .home last ((unchanged filled).trans state) opened home free

omit [LinearOrder Time] in
theorem packetFlits_ne_nil {origin : Addr} {a : Nat} {b c : Addr} {d : Time}
    {size : ℤ} (positive : ¬ size ≤ 0) :
    packetFlits origin a b c d size.toNat ≠ [] := by
  intro empty
  have length := congrArg List.length empty
  simp [packetFlits] at length
  omega

theorem RouterInv.readRecord (inv : RouterInv config router)
    (held : Option VC) {record : Record Time} {rest : List (Record Time)}
    (admitted : record.Admitted config) :
    RouterInv config (readRecord config held router record rest) := by
  unfold Popnet.readRecord addPacketHolding
  by_cases empty : record.packSize ≤ 0
  · simp only [empty, if_true]
    exact inv.of_same rfl rfl (fun _ => rfl) (fun _ => rfl) rfl
  · simp only [empty, if_false]
    have channels := admitted.2.2 (by omega)
    have whole := (inv.channel (0, shortestVC config router)).whole rfl
    have appended :
        framing
          (router.arrivals (0, shortestVC config router) ++
            packetFlits router.address router.packetCounter record.sorAddr
              record.desAddr record.time record.packSize.toNat) =
          some none := by
      unfold framing at whole ⊢
      rw [progress_append, whole]
      exact framing_packetFlits _ _ _ _ _ _
    have extended := inv.extend (inRange_shortestVC channels)
      ⟨none, appended⟩ (fun _ => appended)
      (phase_of_injection (inv.channel _) rfl (packetFlits_ne_nil empty) held)
    exact extended.of_same rfl rfl (fun _ => rfl) (fun _ => rfl) rfl

/-! ## Outputs are won and lost -/

theorem RouterInv.grantChannel (inv : RouterInv config router)
    (inRange : config.InRange vc) (outInRange : config.InRange out)
    (outward : 1 ≤ out.1)
    (state : (router.input vc).state = .vcAb)
    (candidate : out ∈ (router.input vc).routing)
    (free : (router.output out).usage = .free) :
    RouterInv config
      (((router.setInput vc
        { router.input vc with
          state := .swAb
          crouting := some out }).acquire out vc).record
        [.granted vc out]) := by
  set next := ((router.setInput vc
    { router.input vc with
      state := .swAb
      crouting := some out }).acquire out vc).record [.granted vc out]
  have ok := inv.channel vc
  obtain ⟨first, others, buffered, away, routing, unopened, unheld⟩ :=
    ok.of_vcAb state
  have unassigned := (inv.usage out).mp free
  have log : next.log = router.log ++ [.granted vc out] := rfl
  have itself : next.input vc =
      { router.input vc with state := .swAb, crouting := some out } :=
    update_self _ _ _
  have elsewhere : Elsewhere router next vc :=
    elsewhere_of_log rfl
      (fun other different => update_of_ne different _ _) log
      (by simp [Note.channel])
  have arrivals : next.arrivals vc = router.arrivals vc := by
    simp [arrivals_of_log log, Note.arrival]
  have departed : next.departed = router.departed := by
    funext other
    simp [departed_of_log log, Note.departure]
  have acceptedAt : next.acceptedAt vc = router.acceptedAt vc := by
    simp [acceptedAt_of_log log, Note.acceptance]
  have passedTo : next.passedTo = router.passedTo := by
    funext target
    simp [passedTo_of_log log, Note.passage]
  have opened : next.opened = router.opened := by
    funext other
    rw [Router.opened, departed, Router.opened]
  have holder : next.holder vc = some out := by
    simp [holder_of_log log, Note.holding]
  have atOut : next.output out =
      { router.output out with usage := .used, assign := some vc } :=
    update_self _ _ _
  have atOther : ∀ target, target ≠ out →
      next.output target = router.output target :=
    fun target different => update_of_ne different _ _
  refine ⟨?_, ?_, ?_, ?_, ?_⟩
  · intro other
    by_cases same : other = vc
    · rw [same]
      refine ⟨?_, ?_, ?_, ?_, ?_, ?_, ?_, ?_⟩
      · rw [arrivals, departed, itself]
        exact ok.history
      · rw [arrivals]
        exact ok.framed
      · rw [arrivals]
        exact ok.whole
      · rw [departed, opened]
        exact ok.departed
      · rw [acceptedAt, itself]
        simpa [state] using ok.accepted
      · rw [acceptedAt]
        exact ok.atHome
      · rw [itself, opened, holder]
        exact .active out (Or.inl rfl) (by simp [buffered]) rfl
      · intro target held
        rw [holder, Option.some.injEq] at held
        rw [← held, itself, opened]
        refine ⟨rfl, outInRange, outward, ?_⟩
        rintro current (open_ | ⟨_, isFirst⟩)
        · rw [unopened] at open_
          cases open_
        · have same : first = current := by simpa [buffered] using isFirst
          rw [← same]
          exact ⟨away, routing ▸ candidate⟩
    · exact elsewhere.channel same (inv.channel other)
  · intro other outside
    have different : other ≠ vc := by
      rintro rfl
      exact outside inRange
    rw [elsewhere.input other different, elsewhere.holder other different]
    exact inv.outside other outside
  · intro other target
    by_cases same : other = vc
    · rw [same, holder]
      by_cases sameOut : target = out
      · rw [sameOut, atOut]
        exact ⟨fun _ => rfl, fun _ => rfl⟩
      · rw [atOther target sameOut, ← inv.assigned vc target, unheld]
        simp [Ne.symm sameOut]
    · rw [elsewhere.holder other same, inv.assigned other target]
      by_cases sameOut : target = out
      · rw [sameOut, atOut, unassigned]
        simp [Ne.symm same]
      · rw [atOther target sameOut]
  · intro target
    by_cases sameOut : target = out
    · rw [sameOut, atOut]
      simp
    · rw [atOther target sameOut]
      exact inv.usage target
  · intro target
    rw [passedTo, inv.sent target, opened]
    by_cases sameOut : target = out
    · rw [sameOut, atOut, unassigned]
      simp [unopened]
    · rw [atOther target sameOut]

section Send

/-- The router after a flit has passed. -/
abbrev afterSend (router : Router Time) (vc out : VC) (flit : Flit Time)
    (rest : List (Flit Time)) : Router Time :=
  finishSend (moveFlit router vc out flit rest) vc out flit.type
    (stateAfterSend (flit :: rest).length flit.type)

omit [LinearOrder Time] in
theorem afterSend_input :
    (afterSend router vc out flit rest).input =
      update router.input vc
        { router.input vc with
          buffer := rest
          state := stateAfterSend (flit :: rest).length flit.type } := by
  rw [afterSend, finishSend_input]
  simp [moveFlit, Router.record, Router.setPort, Router.setInput,
    Router.setOutput]

omit [LinearOrder Time] in
theorem afterSend_log :
    (afterSend router vc out flit rest).log =
      router.log ++ [.passed vc out flit] := by
  unfold afterSend finishSend
  split <;> rfl

omit [LinearOrder Time] in
theorem afterSend_address :
    (afterSend router vc out flit rest).address = router.address := by
  unfold afterSend finishSend
  split <;> rfl

omit [LinearOrder Time] in
theorem afterSend_output :
    (afterSend router vc out flit rest).output =
      update router.output out
        { counter := (router.output out).counter - 1
          usage :=
            if isTail flit.type then .free else (router.output out).usage
          assign :=
            if isTail flit.type then none
            else (router.output out).assign } := by
  unfold afterSend finishSend
  split <;>
    simp_all [moveFlit, Router.record, Router.setPort, Router.setInput,
      Router.setOutput, Router.release, Router.stateUpdate]

omit [LinearOrder Time] in
/-- The phase after a flit has passed.  An injection channel that is left
empty has passed a tail. -/
theorem phase_afterSend {address : Addr} {channel : InputVC Time}
    (whole : vc.1 = 0 → rest = [] → isTail flit.type = true) :
    Phase config address vc
      { channel with
        buffer := rest
        state := stateAfterSend (flit :: rest).length flit.type }
      (if closes flit then none else some flit)
      (if isTail flit.type then none else some out) := by
  cases tail : isTail flit.type with
  | true =>
      simp only [closes, tail, if_true]
      cases rest with
      | nil => exact .idle rfl (fun _ => rfl) rfl rfl
      | cons first others =>
          exact .routing (by simp [stateAfterSend, tail]) (by simp) rfl rfl
  | false =>
      simp only [closes, tail]
      cases rest with
      | nil =>
          refine .gap flit out rfl ?_ rfl rfl rfl
          intro injection
          rw [whole injection rfl] at tail
          cases tail
      | cons first others =>
          exact .active out (Or.inl (by simp [stateAfterSend, tail]))
            (by simp) rfl

theorem RouterInv.send (inv : RouterInv config router)
    (inRange : config.InRange vc)
    (state : (router.input vc).state = .swTr)
    (crouting : (router.input vc).crouting = some out)
    (buffered : (router.input vc).buffer = flit :: rest) :
    RouterInv config (afterSend router vc out flit rest) := by
  set next := afterSend router vc out flit rest
  have ok := inv.channel vc
  obtain ⟨_, target, held⟩ := ok.of_active (Or.inr state)
  have holds := ok.holds target held
  obtain rfl : target = out := by
    rw [holds.crouting, Option.some.injEq] at crouting
    exact crouting
  have assigned := (inv.assigned vc target).mp held
  have log : next.log = router.log ++ [.passed vc target flit] :=
    afterSend_log
  have itself : next.input vc =
      { router.input vc with
        buffer := rest
        state := stateAfterSend (flit :: rest).length flit.type } := by
    rw [afterSend_input, update_self]
  have elsewhere : Elsewhere router next vc :=
    elsewhere_of_log afterSend_address
      (fun other different => by
        rw [afterSend_input, update_of_ne different]) log
      (by simp [Note.channel])
  have arrivals : next.arrivals vc = router.arrivals vc := by
    simp [arrivals_of_log log, Note.arrival]
  have departed : next.departed vc = router.departed vc ++ [flit] := by
    simp [departed_of_log log, Note.departure]
  have acceptedAt : next.acceptedAt vc = router.acceptedAt vc := by
    simp [acceptedAt_of_log log, Note.acceptance]
  have passedTo : next.passedTo target = router.passedTo target ++ [flit] := by
    simp [passedTo_of_log log, Note.passage]
  have passedElsewhere : ∀ other, other ≠ target →
      next.passedTo other = router.passedTo other := by
    intro other different
    simp [passedTo_of_log log, Note.passage, Ne.symm different]
  have holder : next.holder vc =
      if isTail flit.type then none else some target := by
    simp [holder_of_log log, Note.holding, held]
  have atOut : next.output target =
      { counter := (router.output target).counter - 1
        usage :=
          if isTail flit.type then .free else (router.output target).usage
        assign :=
          if isTail flit.type then none
          else (router.output target).assign } := by
    rw [afterSend_output, update_self]
  have atOther : ∀ other, other ≠ target →
      next.output other = router.output other := by
    intro other different
    rw [afterSend_output, update_of_ne different]
  have inPlace := ok.accepts_head buffered
  obtain ⟨framed, opened⟩ := opened_after ok buffered departed
  refine ⟨?_, ?_, ?_, ?_, ?_⟩
  · intro other
    by_cases same : other = vc
    · rw [same]
      refine ⟨?_, ?_, ?_, framed, ?_, ?_, ?_, ?_⟩
      · rw [arrivals, departed, itself, ok.history, buffered,
          List.append_assoc]
        rfl
      · rw [arrivals]
        exact ok.framed
      · rw [arrivals]
        exact ok.whole
      · have away : stateAfterSend (flit :: rest).length flit.type ≠ .home := by
          unfold stateAfterSend
          split
          · split <;> simp
          · simp
        rw [acceptedAt, itself, if_neg away]
        simpa [state] using ok.accepted
      · rw [acceptedAt, afterSend_address]
        exact ok.atHome
      · rw [itself, opened, holder, afterSend_address]
        apply phase_afterSend
        intro injection empty
        have complete := ok.whole injection
        rw [ok.history, buffered, empty,
          framing_snoc ok.departed inPlace] at complete
        by_contra open_
        simp [closes, open_] at complete
      · intro other isHeld
        rw [holder] at isHeld
        rw [itself, opened, afterSend_address]
        by_cases tail : isTail flit.type = true
        · rw [if_pos tail] at isHeld
          cases isHeld
        · rw [if_neg tail, Option.some.injEq] at isHeld
          rw [← isHeld]
          refine ⟨holds.crouting, holds.inRange, holds.outward, ?_⟩
          obtain ⟨current, isCurrent, sameTarget⟩ := ok.current_head buffered
          rintro later (open_ | ⟨shut, _⟩)
          · simp only [closes, tail] at open_
            cases open_
            rw [← sameTarget]
            exact holds.routed current isCurrent
          · simp [closes, tail] at shut
    · exact elsewhere.channel same (inv.channel other)
  · intro other outside
    have different : other ≠ vc := by
      rintro rfl
      exact outside inRange
    rw [elsewhere.input other different, elsewhere.holder other different]
    exact inv.outside other outside
  · intro other output
    by_cases same : other = vc
    · rw [same, holder]
      by_cases sameOut : output = target
      · rw [sameOut, atOut, assigned]
        split <;> simp
      · rw [atOther output sameOut, ← inv.assigned vc output, held]
        split <;> simp [Ne.symm sameOut]
    · rw [elsewhere.holder other same, inv.assigned other output]
      by_cases sameOut : output = target
      · rw [sameOut, atOut, assigned]
        split <;> simp [Ne.symm same]
      · rw [atOther output sameOut]
  · intro output
    by_cases sameOut : output = target
    · rw [sameOut, atOut]
      have before := inv.usage target
      by_cases tail : isTail flit.type = true
      · simp [tail]
      · simpa [tail] using before
    · rw [atOther output sameOut]
      exact inv.usage output
  · intro output
    by_cases sameOut : output = target
    · have before := inv.sent target
      rw [assigned, Option.bind_some] at before
      rw [sameOut, passedTo, atOut, framing_snoc before inPlace, assigned]
      by_cases tail : isTail flit.type = true
      · simp [closes, tail]
      · simp [closes, tail, opened]
    · rw [passedElsewhere output sameOut, atOther output sameOut,
        inv.sent output]
      cases owner : (router.output output).assign with
      | none => rfl
      | some other =>
          have different : other ≠ vc := by
            rintro rfl
            have heldToo := (inv.assigned other output).mpr owner
            rw [held, Option.some.injEq] at heldToo
            exact sameOut heldToo.symm
          rw [Option.bind_some, Option.bind_some, elsewhere.opened different]

end Send

/-! ## Moves and stages -/

variable {clock : Clock Time} {now : Time} {work after : Work Time}

theorem RouterInv.traverse (inv : RouterInv config work.router) (i : Nat) :
    RouterInv config (flitTraversalPort config clock now work i).router := by
  unfold flitTraversalPort
  dsimp only
  split
  · exact inv
  · exact inv.of_same rfl rfl (fun _ => rfl) (fun _ => rfl) rfl

theorem RouterInv.receiveCredit (inv : RouterInv config router) (out : VC) :
    RouterInv config (receiveCredit router out) := by
  have unchanged : ∀ target,
      ((Popnet.receiveCredit router out).output target).usage =
          (router.output target).usage ∧
        ((Popnet.receiveCredit router out).output target).assign =
          (router.output target).assign := by
    intro target
    unfold Popnet.receiveCredit Router.setOutput
    dsimp only
    by_cases same : target = out
    · rw [same, update_self]
      exact ⟨rfl, rfl⟩
    · rw [update_of_ne same]
      exact ⟨rfl, rfl⟩
  exact inv.of_same rfl rfl (fun target => (unchanged target).1)
    (fun target => (unchanged target).2) rfl

/-- Every move keeps the invariant. -/
theorem RouterInv.move (inv : RouterInv config work.router)
    (move : Move config clock now work after) :
    RouterInv config after.router := by
  cases move with
  | draw | strayCredit => exact inv
  | traverse i => exact inv.traverse i
  | send vc out flit rest inRange state crouting buffered =>
      exact inv.send inRange state crouting buffered
  | reopen => exact inv.of_same rfl rfl (fun _ => rfl) (fun _ => rfl) rfl
  | read held record rest _ admitted => exact inv.readRecord held admitted
  | grantSwitch vc out inRange state => exact inv.grantSwitch inRange state
  | grantChannel vc out inRange outInRange outward state candidate free =>
      exact inv.grantChannel inRange outInRange outward state candidate free
  | route vc flit rest inRange state buffered away =>
      exact inv.route inRange state buffered away
  | acceptFirst vc flit rest inRange state buffered home =>
      simp only [acceptFlit, returnCredit_router]
      exact inv.acceptFirst inRange state buffered home
  | acceptNext vc flit rest inRange state buffered _ =>
      simp only [acceptFlit, returnCredit_router]
      exact inv.acceptNext inRange state buffered

theorem RouterInv.moves (inv : RouterInv config work.router)
    (moves : Moves config clock now work after) :
    RouterInv config after.router :=
  invariant_of_reflTransGen (fun work => RouterInv config work.router)
    RouterInv.move inv moves

end ChipletSniper.Popnet
