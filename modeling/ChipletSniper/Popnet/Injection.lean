import Mathlib.Data.Finset.Card
import ChipletSniper.Popnet.Replay

/-!
# The injection channels

A packet waits in an injection channel until a stage takes it up, and no stage
takes up a channel in `INIT_`.  `flit_outbuffer` reads further packets in the
middle of its update and then sets the state of its channel from the size
before: a packet that was put into the channel meanwhile is stranded.
-/

namespace ChipletSniper.Popnet

open Library Relation Function

variable {Time : Type}

/-- An injection channel that holds flits is not in `INIT_`. -/
def Router.Lively (router : Router Time) (j : Nat) : Prop :=
  (router.input (0, j)).buffer ≠ [] → (router.input (0, j)).state ≠ .init

/-- The number of empty injection channels before channel `j`. -/
def Router.emptyBefore (router : Router Time) (j : Nat) : Nat :=
  ((Finset.range j).filter fun i => (router.input (0, i)).buffer = []).card

section Due

variable [LinearOrder Time] (clock : Clock Time) (now : Time)

/-- The number of packets with flits at the start of the records that are
due. -/
def duePackets (records : List (Record Time)) : Nat :=
  (records.takeWhile fun record =>
    decide (record.time ≤ clock.slack now)).countP fun record =>
      decide (0 < record.packSize)

/-- The last flit of injection channel `j` is about to leave, the injection
was stopped, and more packets are due than there are empty channels before
channel `j`. -/
def Router.Strands (router : Router Time) (j : Nat) : Prop :=
  (router.input (0, j)).state = .swTr ∧
    (router.input (0, j)).buffer.length = 1 ∧
    router.ibuffFull = true ∧
    router.emptyBefore j < duePackets clock now router.pending

end Due

/-! ## Reading packets -/

section Reading

variable {config : Config} {router : Router Time}

/-- The shortest queue is the first empty one, if there is one. -/
theorem shortestVC_of_empty {i : Nat} (inside : i < config.vcNumber)
    (empty : (router.input (0, i)).buffer = []) :
    (router.input (0, shortestVC config router)).buffer = [] ∧
      shortestVC config router ≤ i := by
  suffices scanned : ∀ count,
      (List.range count).foldl
          (fun best i =>
            if (router.input (0, i)).buffer.length <
                (router.input (0, best)).buffer.length then i
            else best) 0 ≤ count ∧
        ∀ i < count, (router.input (0, i)).buffer = [] →
          (router.input (0, (List.range count).foldl
            (fun best i =>
              if (router.input (0, i)).buffer.length <
                  (router.input (0, best)).buffer.length then i
              else best) 0)).buffer = [] ∧
          (List.range count).foldl
            (fun best i =>
              if (router.input (0, i)).buffer.length <
                  (router.input (0, best)).buffer.length then i
              else best) 0 ≤ i from
    (scanned config.vcNumber).2 i inside empty
  intro count
  induction count with
  | zero => exact ⟨Nat.le_refl 0, fun i below => absurd below (by omega)⟩
  | succ count ih =>
      rw [List.range_succ, List.foldl_append]
      generalize (List.range count).foldl _ 0 = best at ih ⊢
      obtain ⟨bound, first⟩ := ih
      simp only [List.foldl_cons, List.foldl_nil]
      split
      case isTrue shorter =>
        refine ⟨by omega, ?_⟩
        intro i below isEmpty
        have last : i = count := by
          by_contra earlier
          have bestEmpty := (first i (by omega) isEmpty).1
          rw [bestEmpty] at shorter
          exact absurd shorter (by simp)
        subst last
        exact ⟨isEmpty, Nat.le_refl i⟩
      case isFalse longer =>
        refine ⟨by omega, ?_⟩
        intro i below isEmpty
        by_cases last : i = count
        · subst last
          rw [isEmpty] at longer
          exact ⟨List.length_eq_zero_iff.mp (by simpa using longer), bound⟩
        · exact first i (by omega) isEmpty

/-- A packet goes to the shortest queue, which is then ready to be routed. -/
theorem addPacket_lively {record : Record Time} {j : Nat}
    (lively : router.Lively j) : (addPacket config router record).Lively j := by
  unfold addPacket
  split
  case isTrue => exact lively
  case isFalse =>
    unfold Router.Lively at lively ⊢
    simp only [Router.record, Router.setInput]
    by_cases same : ((0, j) : VC) = (0, shortestVC config router)
    · rw [same, update_self]
      rw [same] at lively
      dsimp only
      split
      case isTrue => simp
      case isFalse filled =>
        intro _
        refine lively ?_
        intro empty
        exact filled (by rw [empty]; rfl)
    · rw [update_of_ne same]
      exact lively

/-- Only the shortest queue changes. -/
theorem addPacket_other {record : Record Time} {vc : VC}
    (different : vc ≠ (0, shortestVC config router)) :
    (addPacket config router record).input vc = router.input vc := by
  unfold addPacket
  split
  · rfl
  · simp only [Router.record, Router.setInput]
    rw [update_of_ne different]

/-- The new packet takes the first empty channel, if there is one. -/
theorem addPacket_empty {record : Record Time} {j : Nat}
    (inside : j < config.vcNumber)
    (empty : (router.input (0, j)).buffer = [])
    (room : 0 < record.packSize → 0 < router.emptyBefore j) :
    ((addPacket config router record).input (0, j)).buffer = [] ∧
      router.emptyBefore j ≤
        (addPacket config router record).emptyBefore j +
          if 0 < record.packSize then 1 else 0 := by
  by_cases positive : 0 < record.packSize
  · obtain ⟨i, member⟩ := Finset.card_pos.mp (room positive)
    obtain ⟨before, isEmpty⟩ := Finset.mem_filter.mp member
    have below := Finset.mem_range.mp before
    obtain ⟨_, first⟩ :=
      shortestVC_of_empty (show i < config.vcNumber by omega) isEmpty
    have different :
        ((0, j) : VC) ≠ (0, shortestVC config router) := by
      intro equal
      have index := congrArg Prod.snd equal
      dsimp only at index
      omega
    refine ⟨?_, ?_⟩
    · rw [addPacket_other different]
      exact empty
    · rw [if_pos positive]
      refine le_trans (Finset.card_le_card ?_)
        (Finset.card_insert_le (shortestVC config router) _)
      intro k listed
      obtain ⟨inRange, wasEmpty⟩ := Finset.mem_filter.mp listed
      by_cases taken : k = shortestVC config router
      · rw [taken]
        exact Finset.mem_insert_self _ _
      · refine Finset.mem_insert_of_mem (Finset.mem_filter.mpr ⟨inRange, ?_⟩)
        rw [addPacket_other fun equal => taken (congrArg Prod.snd equal)]
        exact wasEmpty
  · have unchanged : addPacket config router record = router := by
      unfold addPacket
      rw [if_pos (by omega)]
    rw [unchanged, if_neg positive]
    exact ⟨empty, Nat.le_refl _⟩

end Reading

section Loop

variable [LinearOrder Time] {config : Config} {clock : Clock Time}
variable {now : Time}

omit [LinearOrder Time] in
theorem injectPacket_shape {router next : Router Time} {record : Record Time}
    (injected : injectPacket config router record = .ok next) :
    next = { addPacket config router record with
      packetCounter := router.packetCounter + 1 } := by
  unfold injectPacket at injected
  split_ifs at injected
  cases injected
  rfl

/-- Reading packets strands none. -/
theorem receiveRecords_lively {j : Nat} :
    ∀ {records : List (Record Time)} {router next : Router Time},
      receiveRecords config clock now records router = .ok next →
      router.Lively j → next.Lively j := by
  intro records
  induction records with
  | nil =>
      intro router next run lively
      cases run
      exact lively
  | cons record rest ih =>
      intro router next run lively
      unfold receiveRecords at run
      split at run
      case isFalse =>
        cases run
        exact lively
      case isTrue =>
        obtain ⟨injected, taken, remaining⟩ := bind_eq_ok.mp run
        refine ih remaining ?_
        rw [injectPacket_shape taken]
        have added : (addPacket config router record).Lively j :=
          addPacket_lively lively
        exact added

/-- As long as there are empty channels before it for all packets that are
due, channel `j` stays empty. -/
theorem receiveRecords_empty {j : Nat} (inside : j < config.vcNumber) :
    ∀ {records : List (Record Time)} {router next : Router Time},
      receiveRecords config clock now records router = .ok next →
      (router.input (0, j)).buffer = [] →
      duePackets clock now records ≤ router.emptyBefore j →
      (next.input (0, j)).buffer = [] := by
  intro records
  induction records with
  | nil =>
      intro router next run empty _
      cases run
      exact empty
  | cons record rest ih =>
      intro router next run empty due
      unfold receiveRecords at run
      split at run
      case isFalse =>
        cases run
        exact empty
      case isTrue start =>
        obtain ⟨injected, taken, remaining⟩ := bind_eq_ok.mp run
        have split : duePackets clock now (record :: rest) =
            duePackets clock now rest +
              if 0 < record.packSize then 1 else 0 := by
          simp [duePackets, start.2, List.countP_cons]
        rw [split] at due
        obtain ⟨stillEmpty, room⟩ :=
          addPacket_empty inside empty fun positive => by
            rw [if_pos positive] at due
            omega
        refine ih remaining ?_ ?_
        · rw [injectPacket_shape taken]
          exact stillEmpty
        · have added : (addPacket config router record).emptyBefore j =
              injected.emptyBefore j := by
            rw [injectPacket_shape taken]
            rfl
          omega

end Loop

/-! ## Stages -/

section Stages

variable [LinearOrder Time] {config : Config} {clock : Clock Time}
variable {now : Time} {work next : Work Time}

/-- At most one injection channel holds the switch. -/
def SinglePort (config : Config) (router : Router Time) : Prop :=
  ∀ j k, j < config.vcNumber → k < config.vcNumber →
    (router.input (0, j)).state = .swTr →
    (router.input (0, k)).state = .swTr → j = k

omit [LinearOrder Time] in
theorem SinglePort.of_states {router after : Router Time}
    (single : SinglePort config router)
    (swTr : ∀ vc, (after.input vc).state = .swTr →
      (router.input vc).state = .swTr) :
    SinglePort config after :=
  fun j k jInside kInside jBusy kBusy =>
    single j k jInside kInside (swTr (0, j) jBusy) (swTr (0, k) kBusy)

omit [LinearOrder Time] in
/-- One channel changes. -/
theorem lively_of_update {router after : Router Time} {vc : VC}
    {channel : InputVC Time}
    (input : after.input = update router.input vc channel)
    (started : channel.buffer ≠ [] → channel.state ≠ .init) {j : Nat}
    (lively : router.Lively j) : after.Lively j := by
  unfold Router.Lively
  rw [input]
  by_cases same : ((0, j) : VC) = vc
  · rw [same, update_self]
    exact started
  · rw [update_of_ne same]
    exact lively

theorem flitTraversal_input
    (run : flitTraversal config clock now work = .ok next) :
    next.router.input = work.router.input := by
  cases run
  refine foldl_induction
    (fun _ (after : Work Time) => after.router.input = work.router.input)
    ?_ rfl
  intro i rest after same
  rw [← same]
  unfold flitTraversalPort
  dsimp only
  split <;> rfl

/-- A turn of the loop of `flit_outbuffer` strands no packet unless it meets
the condition for it. -/
theorem flitOutbufferVC_lively {vc : VC} (inRange : config.InRange vc)
    (clear : vc.1 = 0 → ¬ work.router.Strands clock now vc.2)
    (run : flitOutbufferVC config clock now work vc = .ok next) (j : Nat)
    (lively : work.router.Lively j) : next.router.Lively j := by
  simp only [flitOutbufferVC] at run
  split at run
  case isFalse =>
    cases run
    exact lively
  case isTrue busy =>
  split at run
  case h_1 => cases run
  case h_2 => cases run
  case h_3 target flit rest _ buffered =>
  cases refilling : refill config clock now
      (moveFlit work.router vc target flit rest) vc with
  | error _ =>
      rw [refilling] at run
      cases run
  | ok refilled =>
      rw [refilling] at run
      cases run
      have input :
          (moveFlit work.router vc target flit rest).input =
            update work.router.input vc
              { work.router.input vc with buffer := rest } := rfl
      unfold Router.Lively
      rw [finishSend_input]
      by_cases same : ((0, j) : VC) = vc
      · subst same
        rw [update_self]
        dsimp only
        intro filled
        unfold stateAfterSend
        split
        · split <;> simp
        case isFalse last =>
          -- the channel is empty unless packets were put into it
          have rest_nil : rest = [] := by
            cases rest with
            | nil => rfl
            | cons => simp at last
          refine absurd ?_ filled
          have empty : ((moveFlit work.router (0, j) target flit rest).input
              (0, j)).buffer = [] := by
            rw [input, update_self]
            exact rest_nil
          unfold refill at refilling
          split at refilling
          case isFalse =>
            cases refilling
            exact empty
          case isTrue full =>
            have calm : ¬ work.router.Strands clock now j := clear rfl
            have single : (work.router.input (0, j)).buffer.length = 1 := by
              rw [buffered, rest_nil]
              rfl
            have flag : work.router.ibuffFull = true := full.2.1
            have enough : duePackets clock now work.router.pending ≤
                work.router.emptyBefore j := by
              by_contra missing
              exact calm ⟨busy, single, flag, by omega⟩
            have before :
                work.router.emptyBefore j =
                  (moveFlit work.router (0, j) target flit
                    rest).emptyBefore j := by
              unfold Router.emptyBefore
              rw [input]
              refine congrArg Finset.card (Finset.filter_congr ?_)
              intro i below
              have different : ((0, i) : VC) ≠ (0, j) := by
                intro equal
                have index := congrArg Prod.snd equal
                have earlier := Finset.mem_range.mp below
                dsimp only at index
                omega
              rw [update_of_ne different]
            have room : duePackets clock now work.router.pending ≤
                (moveFlit work.router (0, j) target flit rest).emptyBefore
                  j := by
              rw [← before]
              exact enough
            have kept := receiveRecords_empty inRange.2 refilling
            exact kept empty room
      · rw [update_of_ne same]
        have moved :
            (moveFlit work.router vc target flit rest).Lively j := by
          unfold Router.Lively
          rw [input, update_of_ne same]
          exact lively
        unfold refill at refilling
        split at refilling
        case isFalse =>
          cases refilling
          exact moved
        case isTrue =>
          have received : Router.Lively _ j → refilled.Lively j :=
            receiveRecords_lively refilling
          exact received moved

/-- The injection port is as it was: its channels and their flag, and the
records that are left. -/
structure SameInjection (router after : Router Time) : Prop where
  address : after.address = router.address
  input : ∀ i, after.input (0, i) = router.input (0, i)
  ibuffFull : after.ibuffFull = router.ibuffFull
  pending : after.pending = router.pending
  packetCounter : after.packetCounter = router.packetCounter

omit [LinearOrder Time] in
theorem SameInjection.refl (router : Router Time) :
    SameInjection router router :=
  ⟨rfl, fun _ => rfl, rfl, rfl, rfl⟩

omit [LinearOrder Time] in
theorem SameInjection.trans {router middle after : Router Time}
    (first : SameInjection router middle)
    (second : SameInjection middle after) : SameInjection router after where
  address := second.address.trans first.address
  input := fun i => (second.input i).trans (first.input i)
  ibuffFull := second.ibuffFull.trans first.ibuffFull
  pending := second.pending.trans first.pending
  packetCounter := second.packetCounter.trans first.packetCounter

omit [LinearOrder Time] in
theorem SameInjection.emptyBefore {router after : Router Time}
    (same : SameInjection router after) (j : Nat) :
    after.emptyBefore j = router.emptyBefore j := by
  unfold Router.emptyBefore
  refine congrArg Finset.card (Finset.filter_congr ?_)
  intro i _
  rw [same.input i]

/-- Another port leaves the injection channels alone. -/
theorem flitOutbufferVC_outer {vc : VC} (outer : vc.1 ≠ 0)
    (run : flitOutbufferVC config clock now work vc = .ok next) :
    SameInjection work.router next.router := by
  simp only [flitOutbufferVC] at run
  split at run
  case isFalse =>
    cases run
    exact SameInjection.refl _
  case isTrue =>
  split at run
  case h_1 => cases run
  case h_2 => cases run
  case h_3 out flit rest _ _ =>
  have idle : refill config clock now
      (moveFlit work.router vc out flit rest) vc =
        .ok (moveFlit work.router vc out flit rest) := by
    unfold refill
    rw [if_neg fun full => outer full.1]
  rw [idle] at run
  cases run
  have finished : ∀ state, SameInjection work.router
      (finishSend (moveFlit work.router vc out flit rest) vc out flit.type
        state) := by
    intro state
    refine ⟨?_, ?_, ?_, ?_, ?_⟩
    case refine_2 =>
      intro i
      have different : ((0, i) : VC) ≠ vc := by
        rintro rfl
        exact outer rfl
      rw [finishSend_input, update_of_ne different]
      exact update_of_ne different _ _
    all_goals
      unfold finishSend
      split <;> rfl
  exact finished _

/-- As long as an injection channel still holds the switch, `flit_outbuffer`
has done nothing at the injection port. -/
theorem flitOutbufferVC_same {vc : VC} {router : Router Time}
    (inRange : config.InRange vc) (single : SinglePort config work.router)
    (untouched : ∀ j < config.vcNumber,
      (work.router.input (0, j)).state = .swTr →
      SameInjection router work.router)
    (run : flitOutbufferVC config clock now work vc = .ok next) :
    ∀ j < config.vcNumber, (next.router.input (0, j)).state = .swTr →
      SameInjection router next.router := by
  intro j inside busy
  obtain ⟨different, before⟩ := flitOutbufferVC_swTr run busy
  have same := untouched j inside before
  by_cases injection : vc.1 = 0
  · -- the channel of this turn does not hold the switch
    have idle : (work.router.input vc).state ≠ .swTr := by
      intro itsBusy
      have vcIs : vc = (0, vc.2) := Prod.ext injection rfl
      rw [vcIs] at itsBusy
      refine different ?_
      rw [vcIs, single j vc.2 inside inRange.2 before itsBusy]
    simp only [flitOutbufferVC] at run
    rw [if_neg idle] at run
    cases run
    exact same
  · exact same.trans (flitOutbufferVC_outer injection run)

/-- `flit_outbuffer` strands no packet if the condition for it is not met at
the beginning. -/
theorem flitOutbuffer_lively (single : SinglePort config work.router)
    (calm : ∀ j, ¬ work.router.Strands clock now j)
    (lively : ∀ j, work.router.Lively j)
    (run : flitOutbuffer config clock now work = .ok next) :
    ∀ j, next.router.Lively j := by
  refine (foldlM_induction
    (fun vcs (after : Work Time) =>
      (∀ vc ∈ vcs, config.InRange vc) ∧ SinglePort config after.router ∧
        (∀ j < config.vcNumber,
          (after.router.input (0, j)).state = .swTr →
          SameInjection work.router after.router) ∧
        ∀ j, after.router.Lively j)
    ?_ ⟨fun _ => mem_channels.mp, single,
      fun _ _ _ => SameInjection.refl _, lively⟩ run).2.2.2
  rintro vc rest after last ⟨inRange, singleAfter, untouched, livelyAfter⟩ step
  have vcInRange := inRange vc List.mem_cons_self
  have clear : vc.1 = 0 → ¬ after.router.Strands clock now vc.2 := by
    intro injection strands
    obtain ⟨busy, alone, flag, due⟩ := strands
    have same := untouched vc.2 vcInRange.2 busy
    rw [same.input] at busy alone
    rw [same.ibuffFull] at flag
    rw [same.pending, same.emptyBefore] at due
    exact calm vc.2 ⟨busy, alone, flag, due⟩
  refine ⟨fun other member => inRange other (List.mem_cons_of_mem vc member),
    singleAfter.of_states fun _ busy => (flitOutbufferVC_swTr step busy).2,
    flitOutbufferVC_same vcInRange singleAfter untouched step, ?_⟩
  exact fun j => flitOutbufferVC_lively vcInRange clear step j (livelyAfter j)

omit [LinearOrder Time] in
/-- Every input port nominates at most one channel. -/
theorem swRequests_single {router : Router Time} {rng : Rng}
    {first second : Nat × VC}
    (firstMember : first ∈ (swRequests config router rng).1)
    (secondMember : second ∈ (swRequests config router rng).1)
    (samePort : first.2.1 = second.2.1) : first.2 = second.2 := by
  suffices collected :
      ([] : List Nat).Nodup ∧
        (∀ request ∈ (swRequests config router rng).1,
          request.2.1 ∉ ([] : List Nat)) ∧
        ∀ first ∈ (swRequests config router rng).1,
          ∀ second ∈ (swRequests config router rng).1,
            first.2.1 = second.2.1 → first.2 = second.2 from
    collected.2.2 first firstMember second secondMember samePort
  refine foldl_induction
    (fun (ports : List Nat) (state : List (Nat × VC) × Rng) =>
      ports.Nodup ∧ (∀ request ∈ state.1, request.2.1 ∉ ports) ∧
        ∀ first ∈ state.1, ∀ second ∈ state.1,
          first.2.1 = second.2.1 → first.2 = second.2)
    ?_ ⟨List.nodup_range, ?_, ?_⟩
  rotate_left
  · intro request member
    cases member
  · intro request member
    cases member
  rintro i rest ⟨requests, rng⟩ ⟨nodup, passed, single⟩
  obtain ⟨fresh, nodupRest⟩ := List.nodup_cons.mp nodup
  have older : ∀ request ∈ requests, request.2.1 ≠ i ∧
      request.2.1 ∉ rest := by
    intro request member
    have outside := passed request member
    rw [List.mem_cons, not_or] at outside
    exact outside
  refine ⟨nodupRest, ?_, ?_⟩
  · dsimp only
    split
    case h_1 => exact fun request member => (older request member).2
    case h_2 vc after chosen =>
      obtain ⟨listed, _⟩ := List.mem_filter.mp (mem_of_choose chosen)
      obtain ⟨j, _, rfl⟩ := List.mem_map.mp listed
      intro request member
      rcases List.mem_append.mp member with old | new
      · exact (older request old).2
      · rw [List.mem_singleton.mp new]
        exact fresh
  · dsimp only
    split
    case h_1 => exact single
    case h_2 vc after chosen =>
      obtain ⟨listed, _⟩ := List.mem_filter.mp (mem_of_choose chosen)
      obtain ⟨j, _, rfl⟩ := List.mem_map.mp listed
      intro first firstMember second secondMember same
      rcases List.mem_append.mp firstMember with firstOld | firstNew
      · rcases List.mem_append.mp secondMember with secondOld | secondNew
        · exact single first firstOld second secondOld same
        · rw [List.mem_singleton.mp secondNew] at same
          exact absurd same (older first firstOld).1
      · rcases List.mem_append.mp secondMember with secondOld | secondNew
        · rw [List.mem_singleton.mp firstNew] at same
          exact absurd same.symm (older second secondOld).1
        · rw [List.mem_singleton.mp firstNew, List.mem_singleton.mp secondNew]

omit [LinearOrder Time] in
/-- Only channels that asked for the switch get it. -/
theorem swGrantPort_lively {requests : List (Nat × VC)} {i : Nat}
    (run : swGrantPort requests work i = .ok next) :
    (∀ j, work.router.Lively j → next.router.Lively j) ∧
      ∀ vc, (next.router.input vc).state = .swTr →
        (work.router.input vc).state = .swTr ∨
          ∃ request ∈ requests, request.2 = vc := by
  unfold swGrantPort at run
  split at run
  case h_1 =>
    cases run
    exact ⟨fun _ lively => lively, fun _ busy => Or.inl busy⟩
  case h_2 vc rng chosen =>
  split at run
  case isTrue => cases run
  case isFalse =>
    cases run
    obtain ⟨request, found, rfl⟩ := List.mem_map.mp (mem_of_choose chosen)
    refine ⟨?_, ?_⟩
    · intro j lively
      unfold Router.Lively
      rw [stateUpdate_input]
      by_cases same : ((0, j) : VC) = request.2
      · rw [same, update_self]
        simp
      · rw [update_of_ne same]
        exact lively
    · intro vc busy
      rw [stateUpdate_input] at busy
      by_cases same : vc = request.2
      · exact Or.inr ⟨request, (List.mem_filter.mp found).1, same.symm⟩
      · rw [update_of_ne same] at busy
        exact Or.inl busy

omit [LinearOrder Time] in
theorem swArbitration_lively (free : SwitchFree config work.router)
    (run : swArbitration config work = .ok next) :
    SinglePort config next.router ∧
      ∀ j, work.router.Lively j → next.router.Lively j := by
  unfold swArbitration at run
  split at run
  case isTrue => cases run
  case isFalse =>
  dsimp only at run
  have granted : (∀ j, work.router.Lively j → next.router.Lively j) ∧
      ∀ vc, config.InRange vc → (next.router.input vc).state = .swTr →
        ∃ request ∈ (swRequests config work.router work.rng).1,
          request.2 = vc := by
    refine foldlM_induction
      (fun _ (after : Work Time) =>
        (∀ j, work.router.Lively j → after.router.Lively j) ∧
          ∀ vc, config.InRange vc →
            (after.router.input vc).state = .swTr →
            ∃ request ∈ (swRequests config work.router work.rng).1,
              request.2 = vc)
      ?_ ?_ run
    · rintro i _ before after ⟨lively, won⟩ step
      obtain ⟨keeps, grants⟩ := swGrantPort_lively step
      refine ⟨fun j was => keeps j (lively j was), ?_⟩
      intro vc inRange busy
      exact (grants vc busy).elim (won vc inRange) id
    · exact ⟨fun _ lively => lively,
        fun vc inRange busy => absurd busy (free vc inRange)⟩
  obtain ⟨lively, won⟩ := granted
  refine ⟨?_, lively⟩
  intro j k jInside kInside jBusy kBusy
  obtain ⟨first, firstMember, firstIs⟩ :=
    won (0, j) ⟨physicPorts_pos config, jInside⟩ jBusy
  obtain ⟨second, secondMember, secondIs⟩ :=
    won (0, k) ⟨physicPorts_pos config, kInside⟩ kBusy
  have same := swRequests_single firstMember secondMember
    (by rw [firstIs, secondIs])
  rw [firstIs, secondIs] at same
  exact congrArg Prod.snd same

omit [LinearOrder Time] in
theorem vcArbitration_lively (run : vcArbitration config work = .ok next) :
    (∀ vc, (next.router.input vc).state = .swTr →
        (work.router.input vc).state = .swTr) ∧
      ∀ j, work.router.Lively j → next.router.Lively j := by
  unfold vcArbitration at run
  obtain ⟨⟨requests, rng⟩, _, granting⟩ := bind_eq_ok.mp run
  cases granting
  refine foldl_induction
    (fun _ (after : Work Time) =>
      (∀ vc, (after.router.input vc).state = .swTr →
          (work.router.input vc).state = .swTr) ∧
        ∀ j, work.router.Lively j → after.router.Lively j)
    ?_ ⟨fun _ busy => busy, fun _ lively => lively⟩
  rintro out _ after ⟨swTr, lively⟩
  unfold vcGrant
  split
  case isFalse => exact ⟨swTr, lively⟩
  case isTrue =>
    split
    case h_1 => exact ⟨swTr, lively⟩
    case h_2 vc _ _ =>
      refine ⟨?_, ?_⟩
      · intro other busy
        exact swTr other (update_swTr (by simp) other busy).1
      · intro j was
        refine lively_of_update rfl ?_ (lively j was)
        intro _ impossible
        cases impossible

omit [LinearOrder Time] in
theorem stateAfterPacket_lively {rest : List (Flit Time)}
    (filled : rest ≠ []) : stateAfterPacket rest ≠ .init := by
  unfold stateAfterPacket
  rw [if_pos (List.length_pos_iff.mpr filled)]
  simp

/-- The channel is as it was but for its first flit, which is at home. -/
def Accepts (address : Addr) (before after : InputVC Time) : Prop :=
  ∃ flit, before.buffer = flit :: after.buffer ∧
    (before.state = .home ∨ flit.desAddr = address)

/-- What `routing_decision` does with a channel: nothing, or its first flit is
accepted, or its packet is routed. -/
theorem routingDecisionVC_input {vc : VC}
    (run : routingDecisionVC config clock now work vc = .ok next) :
    next.router.address = work.router.address ∧
      next.router.ibuffFull = work.router.ibuffFull ∧
      next.router.pending = work.router.pending ∧
      (next.router.input = work.router.input ∨
        ∃ channel, next.router.input =
            update work.router.input vc channel ∧
          (channel.buffer = (work.router.input vc).buffer ∨
            Accepts work.router.address (work.router.input vc) channel) ∧
          (channel.buffer ≠ [] → channel.state ≠ .init) ∧
          channel.state ≠ .swTr) := by
  unfold routingDecisionVC at run
  dsimp only at run
  have sameRouter : (returnCredit config clock now work vc).router =
      work.router := returnCredit_router work vc
  generalize returnCredit config clock now work vc = before
    at run sameRouter
  split at run
  case h_1 =>
    unfold routeHeader at run
    split at run
    case h_1 => cases run
    case h_2 flit rest buffered =>
    split at run
    case isTrue => cases run
    case isFalse =>
    split at run
    case isTrue forHere =>
      cases run
      rw [← sameRouter]
      refine ⟨rfl, rfl, rfl, Or.inr ⟨_, rfl, Or.inr ?_, ?_, ?_⟩⟩
      · exact ⟨flit, buffered, Or.inr forHere.symm⟩
      · intro filled
        dsimp only
        split
        · simp
        · exact stateAfterPacket_lively filled
      · dsimp only
        split
        · simp
        · exact stateAfterPacket_ne_swTr rest
    case isFalse =>
      cases run
      rw [← sameRouter]
      exact ⟨rfl, rfl, rfl, Or.inr ⟨_, rfl, Or.inl rfl, by simp, by simp⟩⟩
  case h_2 atHome =>
    unfold acceptAtHome at run
    split at run
    case h_1 =>
      cases run
      rw [sameRouter]
      exact ⟨rfl, rfl, rfl, Or.inl rfl⟩
    case h_2 flit rest buffered =>
    split at run
    case isTrue => cases run
    case isFalse =>
      cases run
      rw [← sameRouter] at atHome ⊢
      refine ⟨rfl, rfl, rfl, Or.inr ⟨_, rfl, Or.inr ?_, ?_, ?_⟩⟩
      · exact ⟨flit, buffered, Or.inl atHome⟩
      · intro filled
        dsimp only
        split
        · exact stateAfterPacket_lively filled
        · rw [atHome]
          simp
      · dsimp only
        split
        · exact stateAfterPacket_ne_swTr rest
        · rw [atHome]
          simp
  case h_3 =>
    cases run
    rw [sameRouter]
    exact ⟨rfl, rfl, rfl, Or.inl rfl⟩

theorem routingDecision_lively
    (run : routingDecision config clock now work = .ok next) :
    (∀ vc, (next.router.input vc).state = .swTr →
        (work.router.input vc).state = .swTr) ∧
      ∀ j, work.router.Lively j → next.router.Lively j := by
  refine foldlM_induction
    (fun _ (after : Work Time) =>
      (∀ vc, (after.router.input vc).state = .swTr →
          (work.router.input vc).state = .swTr) ∧
        ∀ j, work.router.Lively j → after.router.Lively j)
    ?_ ⟨fun _ busy => busy, fun _ lively => lively⟩ run
  rintro vc _ before after ⟨swTr, lively⟩ step
  obtain same | ⟨channel, input, _, started, idle⟩ :=
    (routingDecisionVC_input step).2.2.2
  · refine ⟨?_, ?_⟩
    · rw [same]
      exact swTr
    · intro j was
      unfold Router.Lively
      rw [same]
      exact lively j was
  · refine ⟨?_, fun j was => lively_of_update input started (lively j was)⟩
    intro other busy
    rw [input] at busy
    exact swTr other (update_swTr idle other busy).1

/-- The switch is given to at most one injection channel. -/
theorem SinglePort.stage {stage : Stage}
    (single : SinglePort config work.router)
    (free : stage = .swArbitration → SwitchFree config work.router)
    (run : stage.run config clock now work = .ok next) :
    SinglePort config next.router := by
  cases stage with
  | flitTraversal =>
      refine single.of_states ?_
      rw [flitTraversal_input run]
      exact fun _ busy => busy
  | flitOutbuffer =>
      refine foldlM_induction
        (fun _ (after : Work Time) => SinglePort config after.router) ?_
        single run
      intro vc _ before after singleBefore step
      exact singleBefore.of_states fun _ busy =>
        (flitOutbufferVC_swTr step busy).2
  | swArbitration => exact (swArbitration_lively (free rfl) run).1
  | vcArbitration => exact single.of_states (vcArbitration_lively run).1
  | routingDecision => exact single.of_states (routingDecision_lively run).1

/-- No stage strands a packet. -/
theorem stage_lively {stage : Stage} (single : SinglePort config work.router)
    (free : stage = .swArbitration → SwitchFree config work.router)
    (calm : stage = .flitOutbuffer → ∀ j, ¬ work.router.Strands clock now j)
    (lively : ∀ j, work.router.Lively j)
    (run : stage.run config clock now work = .ok next) :
    ∀ j, next.router.Lively j := by
  cases stage with
  | flitTraversal =>
      intro j
      unfold Router.Lively
      rw [flitTraversal_input run]
      exact lively j
  | flitOutbuffer => exact flitOutbuffer_lively single (calm rfl) lively run
  | swArbitration =>
      exact fun j => (swArbitration_lively (free rfl) run).2 j (lively j)
  | vcArbitration => exact fun j => (vcArbitration_lively run).2 j (lively j)
  | routingDecision =>
      exact fun j => (routingDecision_lively run).2 j (lively j)

omit [LinearOrder Time] in
theorem receiveFlit_swTr {router : Router Time} {vc other : VC}
    {flit : Flit Time}
    (busy : ((receiveFlit router vc flit).input other).state = .swTr) :
    (router.input other).state = .swTr := by
  unfold receiveFlit Router.record Router.setInput at busy
  dsimp only at busy
  by_cases same : other = vc
  · rw [same, update_self] at busy
    rw [same]
    split_ifs at busy <;> exact busy
  · rwa [update_of_ne same] at busy

omit [LinearOrder Time] in
theorem receiveFlit_lively {router : Router Time} {vc : VC}
    {flit : Flit Time} {j : Nat} (lively : router.Lively j) :
    (receiveFlit router vc flit).Lively j := by
  unfold Router.Lively at lively ⊢
  unfold receiveFlit Router.record Router.setInput
  dsimp only
  by_cases same : ((0, j) : VC) = vc
  · subst same
    rw [update_self]
    dsimp only
    intro _
    split
    · split
      · simp
      case isFalse filled =>
        refine lively ?_
        intro empty
        exact filled (by rw [empty]; rfl)
    · split
      · simp
      case isFalse started => exact started
  · rw [update_of_ne same]
    exact lively

end Stages

/-! ## Steps of the simulator -/

section Steps

variable [LinearOrder Time] (config : Config) (clock : Clock Time)

/-- What a step of the simulator is: a stage of a router, or an event. -/
inductive StepCase (sim next : Sim Time) : Prop
  | stage (address : Addr) (rest : List Addr) (work : Work Time) :
      sim.agenda = address :: rest →
      sim.stage.run config clock sim.currentTime (sim.work address) =
        .ok work →
      next = (sim.absorb address work).advance → StepCase sim next
  | evg (time : Time) (rest : List (Event Time)) (record : Record Time)
      (records : List (Record Time)) (address : Addr)
      (router : Router Time) :
      sim.agenda = [] → sim.queue = ⟨time, .evg⟩ :: rest →
      sim.trace = record :: records →
      config.router record.sorAddr = .ok address →
      receivePacket config clock time (sim.network address) = .ok router →
      next = { sim with
        network := update sim.network address router
        queue := enqueueAll Event.time
          (records.head?.toList.map fun record => ⟨record.time, .evg⟩) rest
        currentTime := time
        trace := records } → StepCase sim next
  | router (time : Time) (rest : List (Event Time)) :
      sim.agenda = [] → sim.queue = ⟨time, .router⟩ :: rest →
      next = { sim with queue := rest, currentTime := time
        }.receiveROUTERMessage config clock → StepCase sim next
  | wire (time : Time) (src des : Addr) (pc vc : Nat) (flit : Flit Time)
      (rest : List (Event Time)) (address : Addr) :
      sim.agenda = [] → sim.queue = ⟨time, .wire src des pc vc flit⟩ :: rest →
      config.router des = .ok address → config.InRange (pc, vc) →
      next = { sim with queue := rest, currentTime := time }.setRouter address
        (receiveFlit (sim.network address) (pc, vc) flit) →
      StepCase sim next
  | credit (time : Time) (src des : Addr) (pc vc : Nat)
      (rest : List (Event Time)) (address : Addr) :
      sim.agenda = [] → sim.queue = ⟨time, .credit src des pc vc⟩ :: rest →
      config.router des = .ok address → config.InRange (pc, vc) →
      next = { sim with queue := rest, currentTime := time }.setRouter address
        (receiveCredit (sim.network address) (pc, vc)) →
      StepCase sim next

variable {config clock}

theorem stepCase {simLength : Time} {sim next : Sim Time}
    (run : sim.step config clock simLength = .ok next) :
    StepCase config clock sim next := by
  unfold Sim.step at run
  split at run
  case h_2 address rest agenda =>
    obtain ⟨work, ran, run⟩ := bind_eq_ok.mp run
    cases run
    exact .stage address rest work agenda ran rfl
  case h_1 between =>
  unfold Sim.handle at run
  split at run
  case h_1 => cases run
  case h_2 event rest queue =>
  split_ifs at run
  obtain ⟨time, mess⟩ := event
  cases mess with
  | evg =>
      unfold Sim.receive Sim.receiveEVGMessage at run
      dsimp only at run
      split at run
      case h_1 => cases run
      case h_2 record records trace =>
      obtain ⟨address, located, run⟩ := bind_eq_ok.mp run
      obtain ⟨router, packets, run⟩ := bind_eq_ok.mp run
      refine .evg time rest record records address router between queue trace
        located packets ?_
      split at run <;> cases run <;> rfl
  | router =>
      cases run
      exact .router time rest between queue rfl
  | wire src des pc vc flit =>
      obtain ⟨address, located, run⟩ := bind_eq_ok.mp run
      split at run
      case isFalse => cases run
      case isTrue inRange =>
        cases run
        exact .wire time src des pc vc flit rest address between queue located
          inRange rfl
  | credit src des pc vc =>
      obtain ⟨address, located, run⟩ := bind_eq_ok.mp run
      split at run
      case isFalse => cases run
      case isTrue inRange =>
        cases run
        exact .credit time src des pc vc rest address between queue located
          inRange rfl

omit [LinearOrder Time] in
theorem advance_network (sim : Sim Time) :
    sim.advance.network = sim.network := by
  unfold Sim.advance
  split <;> rfl

/-- `flit_outbuffer` is not about to strand a packet. -/
def Sim.NoStranding (clock : Clock Time) (sim : Sim Time) : Prop :=
  sim.stage = .flitOutbuffer → ∀ address ∈ sim.agenda.head?, ∀ j,
    ¬ (sim.network address).Strands clock sim.currentTime j

omit [LinearOrder Time] in
/-- A router is replaced by one that meets the invariant. -/
theorem forall_update (Invariant : Router Time → Prop)
    {network : Addr → Router Time} {router : Router Time}
    (inv : ∀ address, Invariant (network address))
    (address : Addr) (kept : Invariant router) :
    ∀ other, Invariant (update network address router other) := by
  intro other
  by_cases same : other = address
  · rw [same, update_self]
    exact kept
  · rw [update_of_ne same]
    exact inv other

/-- The switch of every router is given to at most one injection channel. -/
theorem singlePort_step {simLength : Time} {sim next : Sim Time}
    (ready : sim.Ready config)
    (single : ∀ address, SinglePort config (sim.network address))
    (run : sim.step config clock simLength = .ok next) :
    ∀ address, SinglePort config (next.network address) := by
  cases stepCase run with
  | stage address rest work agenda ran after =>
      rw [after, advance_network]
      refine forall_update (SinglePort config) single address ?_
      have first : address ∈ sim.agenda.head? := by simp [agenda]
      have start : SinglePort config (sim.work address).router :=
        single address
      exact start.stage (fun atSwitch => ready.free atSwitch address first)
        ran
  | evg time rest record records address router _ _ _ _ packets after =>
      rw [after]
      exact forall_update (SinglePort config) single address
        ((single address).of_states fun _ => receiveRecords_swTr packets)
  | router time rest _ _ after =>
      rw [after]
      exact single
  | wire time src des pc vc flit rest address _ _ _ _ after =>
      rw [after]
      exact forall_update (SinglePort config) single address
        ((single address).of_states fun _ => receiveFlit_swTr)
  | credit time src des pc vc rest address _ _ _ _ after =>
      rw [after]
      exact forall_update (SinglePort config) single address (single address)

theorem lively_step {simLength : Time} {sim next : Sim Time}
    (ready : sim.Ready config) (calm : sim.NoStranding clock)
    (single : ∀ address, SinglePort config (sim.network address))
    (lively : ∀ address j, (sim.network address).Lively j)
    (run : sim.step config clock simLength = .ok next) :
    ∀ address j, (next.network address).Lively j := by
  cases stepCase run with
  | stage address rest work agenda ran after =>
      rw [after, advance_network]
      have first : address ∈ sim.agenda.head? := by simp [agenda]
      have start : SinglePort config (sim.work address).router :=
        single address
      have kept : ∀ j, work.router.Lively j :=
        stage_lively start (fun atSwitch => ready.free atSwitch address first)
          (fun sending => calm sending address first) (lively address) ran
      exact forall_update (fun router => ∀ j, router.Lively j) lively
        address kept
  | evg time rest record records address router _ _ _ _ packets after =>
      rw [after]
      have kept : ∀ j, router.Lively j := fun j =>
        receiveRecords_lively packets (lively address j)
      exact forall_update (fun router => ∀ j, router.Lively j) lively
        address kept
  | router time rest _ _ after =>
      rw [after]
      exact lively
  | wire time src des pc vc flit rest address _ _ _ _ after =>
      rw [after]
      have kept : ∀ j, (receiveFlit (sim.network address) (pc, vc)
          flit).Lively j :=
        fun j => receiveFlit_lively (lively address j)
      exact forall_update (fun router => ∀ j, router.Lively j) lively
        address kept
  | credit time src des pc vc rest address _ _ _ _ after =>
      rw [after]
      exact forall_update (fun router => ∀ j, router.Lively j) lively
        address (lively address)

omit [LinearOrder Time] in
theorem singlePort_start (config : Config) (address : Addr)
    (pending : List (Record Time)) :
    SinglePort config (Router.start config address pending) := by
  intro j k _ _ busy
  cases busy

theorem lively_of_reachable {simLength time : Time}
    {trace : List (Record Time)} {files : Addr → List (Record Time)}
    {rng : Rng} {sim : Sim Time}
    (reached : Sim.ReachableWhile config clock (Sim.NoStranding clock)
      simLength time trace files rng sim) :
    ∀ address j, (sim.network address).Lively j := by
  refine (invariant_of_reflTransGen
    (fun (sim : Sim Time) => sim.Ready config ∧
      (∀ address, SinglePort config (sim.network address)) ∧
      ∀ address j, (sim.network address).Lively j)
    ?_ ⟨ready_start, ?_, ?_⟩ reached).2.2
  · rintro before after ⟨ready, single, lively⟩ ⟨calm, step⟩
    have anywhere : before.PassesOnly fun _ _ => True :=
      fun _ _ _ _ _ _ _ => trivial
    exact ⟨(ready.step anywhere step).1, singlePort_step ready single step,
      lively_step ready calm single lively step⟩
  · exact fun address => singlePort_start config address _
  · intro address j filled
    exact absurd rfl filled

/-- In every run in which `flit_outbuffer` never sends the last flit of an
injection channel while more packets are due than there are empty channels
before it, no packet is stranded at an injection port. -/
theorem no_stranded_packet {simLength time : Time}
    {trace : List (Record Time)} {files : Addr → List (Record Time)}
    {rng : Rng} {sim : Sim Time}
    (reached : Sim.ReachableWhile config clock (Sim.NoStranding clock)
      simLength time trace files rng sim)
    (address : Addr) (j : Nat)
    (filled : ((sim.network address).input (0, j)).buffer ≠ []) :
    ((sim.network address).input (0, j)).state ≠ .init :=
  lively_of_reachable reached address j filled

end Steps

/-! ## Runs of a small mesh -/

section Runs

variable [LinearOrder Time] (config : Config) (clock : Clock Time)
variable (simLength : Time)

/-- The next `count` steps, as long as a check is passed. -/
def Sim.stepsWhile (check : Sim Time → Bool) :
    Nat → Sim Time → Except Halt (Sim Time)
  | 0, sim => .ok sim
  | count + 1, sim =>
      if check sim then do
        let next ← sim.step config clock simLength
        next.stepsWhile check count
      else .error .finished

variable {config clock simLength}

theorem reachableWhile_of_steps {Condition : Sim Time → Prop}
    {check : Sim Time → Bool}
    (sound : ∀ sim, check sim = true → Condition sim)
    {time : Time} {trace : List (Record Time)}
    {files : Addr → List (Record Time)} {rng : Rng} {count : Nat}
    {sim : Sim Time}
    (run : (Sim.start config time trace files rng).stepsWhile config clock
      simLength check count = .ok sim) :
    Sim.ReachableWhile config clock Condition simLength time trace files rng
      sim := by
  unfold Sim.ReachableWhile
  generalize Sim.start config time trace files rng = first at run ⊢
  induction count generalizing first with
  | zero =>
      cases run
      exact ReflTransGen.refl
  | succ count ih =>
      unfold Sim.stepsWhile at run
      split at run
      case isFalse => cases run
      case isTrue passed =>
        obtain ⟨next, step, further⟩ := bind_eq_ok.mp run
        exact ReflTransGen.head ⟨sound first passed, step⟩
          (ih next further)

end Runs

/-- A mesh of four routers with one virtual channel. -/
def meshTwo : Config where
  arySize := 2
  cubeSize := 2
  vcNumber := 1
  bufferSize := 1
  outbufferSize := 1
  routingAlg := .txy

/-- The start of a run on the mesh in which every router has its own part of
`records` in its trace file. -/
def meshStart (records : List (Record Nat)) : Sim Nat :=
  Sim.start meshTwo 0 records
    (fun address => records.filter (·.sorAddr = address)) ⟨fun _ => 0, 0⟩

/-- The states that are reached in a run on the mesh. -/
def MeshReachable (records : List (Record Nat)) : Sim Nat → Prop :=
  Sim.Reachable meshTwo popnetClock 100000000000 0 records
    (fun address => records.filter (·.sorAddr = address)) ⟨fun _ => 0, 0⟩

/-- What a run of a few routers of the mesh shows. -/
theorem exists_of_meshRun {Value : Type} (records : List (Record Nat))
    (active : List Addr) (count : Nat) (observe : Sim Nat → Value)
    {value : Value}
    (listed : meshTwo.addresses.filter (active.contains ·) = active)
    (observed : ((meshStart records).turns meshTwo popnetClock 100000000000
      active count).map observe = .ok value) :
    ∃ sim, MeshReachable records sim ∧ sim.agenda = [] ∧
      observe sim = value := by
  cases run : (meshStart records).turns meshTwo popnetClock 100000000000
      active count with
  | error _ =>
      rw [run] at observed
      cases observed
  | ok sim =>
      rw [run] at observed
      cases observed
      obtain ⟨reached, between⟩ := Sim.reachable_of_turns listed run
      exact ⟨sim, reached, between, rfl⟩

/-- What the first steps of a run on the mesh show, as long as a check is
passed. -/
theorem exists_of_meshSteps {Value : Type} {Condition : Sim Nat → Prop}
    (records : List (Record Nat)) (check : Sim Nat → Bool) (count : Nat)
    (observe : Sim Nat → Value) {value : Value}
    (sound : ∀ sim, check sim = true → Condition sim)
    (observed : ((meshStart records).stepsWhile meshTwo popnetClock
      100000000000 check count).map observe = .ok value) :
    ∃ sim,
      Sim.ReachableWhile meshTwo popnetClock Condition 100000000000 0 records
        (fun address => records.filter (·.sorAddr = address))
        ⟨fun _ => 0, 0⟩ sim ∧
      observe sim = value := by
  cases run : (meshStart records).stepsWhile meshTwo popnetClock 100000000000
      check count with
  | error _ =>
      rw [run] at observed
      cases observed
  | ok sim =>
      rw [run] at observed
      cases observed
      exact ⟨sim, reachableWhile_of_steps sound run, rfl⟩

/-- When a full queue may be drained by the next step, no packet is due. -/
def drainsLast (sim : Sim Nat) : Bool :=
  sim.stage != .flitOutbuffer ||
    sim.agenda.head?.all fun address =>
      !(sim.network address).ibuffFull ||
        duePackets popnetClock sim.currentTime
          (sim.network address).pending == 0

theorem noStranding_of_drainsLast (sim : Sim Nat)
    (passed : drainsLast sim = true) : sim.NoStranding popnetClock := by
  intro sending address first j strands
  obtain ⟨-, -, flag, due⟩ := strands
  rw [Option.mem_def] at first
  simp [drainsLast, sending, first, flag] at passed
  omega

/-- Two packets to the next router, the first of which fills the queue. -/
def remoteRecords : List (Record Nat) :=
  [⟨0, [1, 0], [0, 0], 101⟩, ⟨0, [1, 0], [0, 0], 1⟩]

/-- The queue has drained as far as 99 flits. -/
theorem no_stranded_packet_mesh :
    ∃ sim : Sim Nat,
      Sim.ReachableWhile meshTwo popnetClock (Sim.NoStranding popnetClock)
        100000000000 0 remoteRecords
        (fun address => remoteRecords.filter (·.sorAddr = address))
        ⟨fun _ => 0, 0⟩ sim ∧
      ((sim.network [1, 0]).input (0, 0)).buffer.length = 99 ∧
      (sim.network [1, 0]).ibuffFull = false ∧
      ((sim.network [1, 0]).input (0, 0)).state ≠ .init := by
  obtain ⟨sim, reached, drained⟩ :=
    exists_of_meshSteps remoteRecords drainsLast 691
      (fun sim => (((sim.network [1, 0]).input (0, 0)).buffer.length,
        (sim.network [1, 0]).ibuffFull))
      noStranding_of_drainsLast
      (show _ = Except.ok (99, false) by decide +kernel)
  rw [Prod.mk.injEq] at drained
  refine ⟨sim, reached, drained.1, drained.2,
    no_stranded_packet reached [1, 0] 0 ?_⟩
  intro empty
  rw [empty] at drained
  cases drained.1

/-- A long packet to the router itself fills its queue, and two short ones
wait behind it. -/
def queuedRecords : List (Record Nat) :=
  [⟨0, [1, 0], [1, 0], 101⟩, ⟨0, [1, 0], [0, 0], 1⟩, ⟨0, [1, 0], [0, 0], 1⟩]

/-- When the second packet leaves, the third is put into the empty channel,
and the state of the channel becomes `INIT_`. -/
theorem queued_packet_stranded :
    ∃ sim, MeshReachable queuedRecords sim ∧ sim.agenda = [] ∧
      ((sim.network [1, 0]).input (0, 0)).buffer ≠ [] ∧
      ((sim.network [1, 0]).input (0, 0)).state = .init := by
  obtain ⟨sim, reached, between, observed⟩ :=
    exists_of_meshRun queuedRecords [[1, 0]] 109
      (fun sim => (((sim.network [1, 0]).input (0, 0)).buffer.length,
        ((sim.network [1, 0]).input (0, 0)).state))
      (by decide +kernel) (show _ = Except.ok (1, .init) by decide +kernel)
  rw [Prod.mk.injEq] at observed
  refine ⟨sim, reached, between, ?_, observed.2⟩
  intro empty
  rw [empty] at observed
  cases observed.1

end ChipletSniper.Popnet
