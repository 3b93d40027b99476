import ChipletSniper.Popnet.Wormhole

/-!
# Credits are conserved

The credits of an output channel, the flits that were passed to it and the
credits on their way back add up to the size of the buffer behind it and the
flits that have left that buffer.  Every move keeps this balance; the flits in
the output buffer, on the wire and in the buffer are what lies between.
-/

namespace ChipletSniper.Popnet

open Library Relation Function

variable {Time : Type}

/-- The event is a credit for an output of a router. -/
def Event.isCreditTo (address : Addr) (out : VC) (event : Event Time) :
    Bool :=
  match event.mess with
  | .credit _ des pc v => decide (des = address ∧ pc = out.1 ∧ v = out.2)
  | _ => false

/-- The number of credits in flight to an output of a router. -/
def Sim.credits (sim : Sim Time) (address : Addr) (out : VC) : Nat :=
  sim.queue.countP (Event.isCreditTo address out)

/-! ## One router -/

section Router

variable [LinearOrder Time] {config : Config} {clock : Clock Time}
variable {now : Time} {work after : Work Time}

/-- What a router adds to the balance of an output. -/
def Router.load (router : Router Time) (out : VC) : ℤ :=
  (router.output out).counter + (router.passedTo out).length

/-- A move sends credits exactly for the flits that leave a channel other than
the injection channels. -/
inductive CreditEffect (config : Config) (clock : Clock Time) (now : Time)
    (work after : Work Time) : Prop
  | none :
      (∀ vc, after.router.departed vc = work.router.departed vc) →
      (∀ event ∈ after.emitted, ¬ event.IsCredit) →
      CreditEffect config clock now work after
  | leave (vc : VC) :
      (work.router.input vc).buffer ≠ [] →
      (∀ other, (after.router.departed other).length =
        (work.router.departed other).length +
          if other = vc then 1 else 0) →
      after.emitted =
        (if vc.1 = 0 then []
        else [creditEvent config clock now work.router vc]) →
      CreditEffect config clock now work after

omit [LinearOrder Time] in
theorem departed_of_note {router next : Router Time} {note : Note Time}
    (log : next.log = router.log ++ [note]) (vc : VC) :
    (next.departed vc).length = (router.departed vc).length +
      if (note.departure vc).isSome then 1 else 0 := by
  rw [departed_of_log log, List.length_append]
  cases departure : note.departure vc <;> simp [departure]

omit [LinearOrder Time] in
theorem isNotCredit_of_nil {events : List (Event Time)}
    (nothing : events = []) : ∀ event ∈ events, ¬ event.IsCredit := by
  intro event member
  rw [nothing] at member
  cases member

/-- The credit of a flit that is accepted. -/
theorem emitted_of_returnCredit (fresh : work.emitted = []) {vc : VC}
    {flit : Flit Time} {rest : List (Flit Time)}
    (buffered : (work.router.input vc).buffer = flit :: rest)
    (home : work.router.address = flit.desAddr) :
    (returnCredit config clock now work vc).emitted =
      if vc.1 = 0 then []
      else [creditEvent config clock now work.router vc] := by
  unfold returnCredit
  rw [buffered]
  dsimp only
  by_cases injection : vc.1 = 0
  · simp [injection, fresh]
  · simp [injection, home, fresh]

theorem acceptFlit_log {vc : VC} {flit : Flit Time}
    {rest : List (Flit Time)} {state : VCState} :
    (acceptFlit (returnCredit config clock now work vc) vc flit rest
      state).router.log = work.router.log ++ [.accepted vc flit] := by
  simp only [acceptFlit, returnCredit_router]
  rfl

omit [LinearOrder Time] in
/-- The load stays the same when nothing is passed. -/
theorem load_of_note {router next : Router Time} {note : Note Time}
    (log : next.log = router.log ++ [note])
    (passage : ∀ out, note.passage out = none)
    (counter : ∀ out,
      (next.output out).counter = (router.output out).counter) (out : VC) :
    next.load out = router.load out := by
  simp [Router.load, passedTo_of_log log, passage, counter]

/-- A flit that is accepted leaves its channel. -/
theorem creditEffect_of_accept (fresh : work.emitted = []) {vc : VC}
    {flit : Flit Time} {rest : List (Flit Time)} (state : VCState)
    (buffered : (work.router.input vc).buffer = flit :: rest)
    (home : work.router.address = flit.desAddr) :
    CreditEffect config clock now work
      (acceptFlit (returnCredit config clock now work vc) vc flit rest
        state) := by
  refine .leave vc (by simp [buffered]) ?_
    (emitted_of_returnCredit fresh buffered home)
  intro other
  rw [departed_of_note acceptFlit_log]
  by_cases same : other = vc
  · simp [Note.departure, same]
  · simp [Note.departure, same, Ne.symm same]

omit [LinearOrder Time] in
theorem readRecord_departed {router : Router Time} {held : Option VC}
    {record : Record Time} {rest : List (Record Time)} (vc : VC) :
    (readRecord config held router record rest).departed vc =
      router.departed vc := by
  simp [departed_of_log readRecord_log, List.filterMap_map,
    comp_def, Note.departure]

omit [LinearOrder Time] in
theorem readRecord_load {router : Router Time} {held : Option VC}
    {record : Record Time} {rest : List (Record Time)} (out : VC) :
    (readRecord config held router record rest).load out =
      router.load out := by
  unfold Router.load
  rw [readRecord_same.2.1, readRecord_passedTo]

/-- Every move keeps the load of every output, and sends the credits that are
due. -/
theorem Move.credit (inv : RouterInv config work.router)
    (move : Move config clock now work after) (fresh : work.emitted = []) :
    (∀ out, after.router.load out = work.router.load out) ∧
      CreditEffect config clock now work after := by
  cases move with
  | draw | reopen | grantSwitch | route =>
      exact ⟨fun _ => rfl, .none (fun _ => rfl) (isNotCredit_of_nil fresh)⟩
  | traverse i _ _ =>
      unfold flitTraversalPort
      dsimp only
      split
      case h_1 =>
        exact ⟨fun _ => rfl, .none (fun _ => rfl) (isNotCredit_of_nil fresh)⟩
      case h_2 =>
        refine ⟨fun _ => rfl, .none (fun _ => rfl) ?_⟩
        intro event member
        rw [fresh, List.nil_append, List.mem_singleton] at member
        rw [member]
        rintro ⟨_, _, _, _, impossible⟩
        cases impossible
  | send vc out flit rest _ _ _ buffered =>
      refine ⟨?_, .leave vc (by simp [buffered]) ?_ ?_⟩
      · intro target
        show (afterSend work.router vc out flit rest).load target = _
        unfold Router.load
        rw [afterSend_output, afterSend_passedTo]
        by_cases same : target = out
        · rw [same, update_self]
          simp
        · rw [update_of_ne same]
          simp [same]
      · intro other
        rw [departed_of_note afterSend_log]
        by_cases same : other = vc
        · simp [Note.departure, same]
        · simp [Note.departure, same, Ne.symm same]
      · dsimp only
        rw [fresh]
        rfl
  | read held record rest _ _ =>
      exact ⟨readRecord_load, .none readRecord_departed
        (isNotCredit_of_nil fresh)⟩
  | grantChannel vc out =>
      refine ⟨load_of_note rfl (fun _ => rfl) ?_,
        .none ?_ (isNotCredit_of_nil fresh)⟩
      · intro target
        simp only [Router.record, Router.acquire, Router.setInput,
          Router.setOutput]
        by_cases same : target = out
        · rw [same, update_self]
        · rw [update_of_ne same]
      · intro other
        simp [Router.departed, Router.record, Router.acquire,
          Router.setInput, Router.setOutput, Note.departure]
  | acceptFirst vc flit rest _ _ buffered home =>
      refine ⟨load_of_note acceptFlit_log (fun _ => rfl) ?_,
        creditEffect_of_accept fresh _ buffered home⟩
      intro out
      simp only [acceptFlit, returnCredit_router]
      rfl
  | acceptNext vc flit rest _ state buffered further =>
      have home := ((inv.channel vc).home_head state buffered).symm
      refine ⟨load_of_note acceptFlit_log (fun _ => rfl) ?_,
        creditEffect_of_accept fresh _ buffered home⟩
      intro out
      simp only [acceptFlit, returnCredit_router]
      rfl
  | strayCredit vc flit rest _ outer routing home buffered atHome =>
      exact absurd atHome
        ((inv.channel vc).away_of_other outer routing home buffered)

end Router

/-! ## The network -/

section Network

variable {config : Config} {sim next : Sim Time}

/-- The number of flits that have left the buffer behind an output. -/
def Sim.returned (sim : Sim Time) (n : ℤ) (address : Addr) (out : VC) :
    Nat :=
  if IsLink n (address, out.1) then
    ((sim.network (linkedRouter n address out.1)).departed
      (linkedPort n address out.1, out.2)).length
  else 0

/-- The balance of credits. -/
structure CreditInv (config : Config) (sim : Sim Time) : Prop where
  balance : ∀ address out,
    (sim.network address).load out + sim.credits address out =
      config.bufferSize + sim.returned config.arySize address out
  /-- Credits go to the outputs that flits came from. -/
  returning : ∀ event ∈ sim.queue, ∀ src des pc v,
    event.mess = .credit src des pc v →
      IsLink config.arySize (des, pc) ∧
        validAddress config.arySize 4 des = true

/-- No flit leaves a buffer behind an output, and no credit is sent or
received. -/
theorem CreditInv.of_same (inv : CreditInv config sim)
    (load : ∀ address out,
      (next.network address).load out = (sim.network address).load out)
    (departed : ∀ address vc, vc.1 ≠ 0 →
      ((next.network address).departed vc).length =
        ((sim.network address).departed vc).length)
    (credits : ∀ address out,
      next.credits address out = sim.credits address out)
    (old : ∀ event ∈ next.queue, event.IsCredit → event ∈ sim.queue) :
    CreditInv config next := by
  refine ⟨?_, ?_⟩
  · intro address out
    have same : next.returned config.arySize address out =
        sim.returned config.arySize address out := by
      unfold Sim.returned
      split
      case isTrue isLink => exact departed _ _ isLink.2
      case isFalse => rfl
    rw [load, credits, same]
    exact inv.balance address out
  · intro event member src des pc v isCredit
    exact inv.returning event
      (old event member ⟨src, des, pc, v, isCredit⟩) src des pc v isCredit

/-- A flit leaves a buffer behind an output. -/
theorem CreditInv.leave (inv : CreditInv config sim) {address : Addr}
    {vc : VC} (proper : Proper config.arySize (address, vc.1))
    (outer : vc.1 ≠ 0)
    (load : ∀ other out,
      (next.network other).load out = (sim.network other).load out)
    (departed : ∀ other channel,
      ((next.network other).departed channel).length =
        ((sim.network other).departed channel).length +
          if other = address ∧ channel = vc then 1 else 0)
    (credits : ∀ other out,
      next.credits other out = sim.credits other out +
        if linked config.arySize (address, vc.1) = (other, out.1) ∧
          vc.2 = out.2 then 1 else 0)
    (returning : ∀ event ∈ next.queue, ∀ src des pc v,
      event.mess = .credit src des pc v →
        IsLink config.arySize (des, pc) ∧
          validAddress config.arySize 4 des = true) :
    CreditInv config next := by
  refine ⟨?_, returning⟩
  intro other out
  have before := inv.balance other out
  have gain : next.returned config.arySize other out =
      sim.returned config.arySize other out +
        if linked config.arySize (address, vc.1) = (other, out.1) ∧
          vc.2 = out.2 then 1 else 0 := by
    unfold Sim.returned
    by_cases here : linked config.arySize (address, vc.1) = (other, out.1) ∧
        vc.2 = out.2
    · obtain ⟨link, sameV⟩ := here
      have back : linked config.arySize (other, out.1) = (address, vc.1) := by
        rw [← link]
        exact proper
      have backRouter : linkedRouter config.arySize other out.1 = address :=
        congrArg Prod.fst back
      have backPort : linkedPort config.arySize other out.1 = vc.1 :=
        congrArg Prod.snd back
      have isLink : IsLink config.arySize (other, out.1) := by
        refine ⟨?_, ?_⟩
        · rw [← link]
          exact proper.linked
        · rw [backPort]
          exact outer
      rw [if_pos isLink, if_pos isLink, departed, backRouter, backPort,
        if_pos ⟨rfl, Prod.ext rfl sameV.symm⟩, if_pos ⟨link, sameV⟩]
    · rw [if_neg here]
      split
      case isFalse => rfl
      case isTrue isLink =>
        rw [departed, if_neg]
        rintro ⟨sameRouter, sameChannel⟩
        have samePort := congrArg Prod.fst sameChannel
        refine here ⟨?_, (congrArg Prod.snd sameChannel).symm⟩
        have forth : linked config.arySize (other, out.1) =
            (address, vc.1) :=
          Prod.ext sameRouter samePort
        rw [← forth]
        exact isLink.1
  rw [load, credits, gain]
  push_cast
  omega

/-- A credit arrives. -/
theorem CreditInv.arrive (inv : CreditInv config sim) {time : Time}
    {src address : Addr} {pc v : Nat} {rest : List (Event Time)}
    (queue : sim.queue = ⟨time, .credit src address pc v⟩ :: rest)
    (network : next.network = update sim.network address
      (receiveCredit (sim.network address) (pc, v)))
    (remaining : next.queue = rest) : CreditInv config next := by
  have departed : ∀ other vc, (next.network other).departed vc =
      (sim.network other).departed vc := by
    intro other vc
    rw [network]
    by_cases same : other = address
    · rw [same, update_self]
      rfl
    · rw [update_of_ne same]
  refine ⟨?_, ?_⟩
  · intro other out
    have before := inv.balance other out
    have same : next.returned config.arySize other out =
        sim.returned config.arySize other out := by
      unfold Sim.returned
      rw [departed]
    unfold Sim.credits at before ⊢
    rw [queue, List.countP_cons] at before
    rw [remaining, same, network]
    by_cases here : other = address ∧ out = (pc, v)
    · obtain ⟨rfl, rfl⟩ := here
      rw [update_self]
      have load : (receiveCredit (sim.network other) (pc, v)).load (pc, v) =
          (sim.network other).load (pc, v) + 1 := by
        simp only [Router.load, receiveCredit, Router.setOutput,
          update_self]
        exact Int.add_right_comm _ _ _
      have counted : Event.isCreditTo other (pc, v)
          (⟨time, .credit src other pc v⟩ : Event Time) = true := by
        simp [Event.isCreditTo]
      rw [counted] at before
      simp only [if_true] at before
      rw [load]
      omega
    · have skipped : Event.isCreditTo other out
          (⟨time, .credit src address pc v⟩ : Event Time) = false := by
        simp only [Event.isCreditTo, decide_eq_false_iff_not]
        rintro ⟨rfl, rfl, rfl⟩
        exact here ⟨rfl, rfl⟩
      rw [skipped] at before
      have load : (update sim.network address
          (receiveCredit (sim.network address) (pc, v)) other).load out =
            (sim.network other).load out := by
        by_cases same : other = address
        · have different : out ≠ (pc, v) := fun equal => here ⟨same, equal⟩
          rw [same, update_self]
          simp only [Router.load, receiveCredit, Router.setOutput,
            update_of_ne different]
          rfl
        · rw [update_of_ne same]
      rw [load]
      simpa using before
  · intro event member
    rw [remaining] at member
    refine inv.returning event ?_
    rw [queue]
    exact List.mem_cons_of_mem _ member

end Network

section Moves

variable [LinearOrder Time] {config : Config} {clock : Clock Time}
variable {sim next : Sim Time} {address : Addr}

omit [LinearOrder Time] in
theorem not_isCredit {time : Time} {mess : Mess Time}
    (plain : ∀ src des pc v, mess ≠ .credit src des pc v) :
    ¬ Event.IsCredit ⟨time, mess⟩ := by
  rintro ⟨src, des, pc, v, isCredit⟩
  exact plain src des pc v isCredit

omit [LinearOrder Time] in
theorem isCreditTo_of_plain {event : Event Time}
    (plain : ¬ event.IsCredit) (other : Addr) (out : VC) :
    Event.isCreditTo other out event = false := by
  unfold Event.isCreditTo
  split
  case h_1 src des pc v isCredit =>
    exact absurd ⟨src, des, pc, v, isCredit⟩ plain
  case h_2 => rfl

/-- Events other than credits are added. -/
theorem credits_of_plain {events : List (Event Time)}
    (queue : next.queue = enqueueAll Event.time events sim.queue)
    (plain : ∀ event ∈ events, ¬ event.IsCredit) :
    (∀ other out, next.credits other out = sim.credits other out) ∧
      ∀ event ∈ next.queue, event.IsCredit → event ∈ sim.queue := by
  constructor
  · intro other out
    have none : events.countP (Event.isCreditTo other out) = 0 := by
      rw [List.countP_eq_zero]
      intro event member
      simp [isCreditTo_of_plain (plain event member)]
    unfold Sim.credits
    rw [queue, (enqueueAll_perm events sim.queue).countP_eq,
      List.countP_append, none, Nat.zero_add]
  · intro event member isCredit
    rw [queue, mem_enqueueAll] at member
    exact member.resolve_left fun new => plain event new isCredit

omit [LinearOrder Time] in
/-- An event other than a credit is removed. -/
theorem credits_of_removal {event : Event Time} {rest : List (Event Time)}
    (queue : sim.queue = event :: rest) (remaining : next.queue = rest)
    (plain : ¬ event.IsCredit) :
    (∀ other out, next.credits other out = sim.credits other out) ∧
      ∀ event ∈ next.queue, event.IsCredit → event ∈ sim.queue := by
  constructor
  · intro other out
    unfold Sim.credits
    rw [queue, remaining, List.countP_cons, isCreditTo_of_plain plain]
    rfl
  · intro event member _
    rw [queue]
    rw [remaining] at member
    exact List.mem_cons_of_mem _ member

/-- A buffered flit came over a link. -/
theorem NetInv.link_of_buffered (inv : NetInv config clock sim) {vc : VC}
    (outer : vc.1 ≠ 0)
    (buffered : ((sim.network address).input vc).buffer ≠ []) :
    Proper config.arySize (address, vc.1) ∧
      validAddress config.arySize 4
        (linkedRouter config.arySize address vc.1) = true := by
  have arrived : (sim.network address).arrivals vc ≠ [] := by
    rw [((inv.router address).channel vc).history]
    exact List.append_ne_nil_of_right_ne_nil _ buffered
  have proper : Proper config.arySize (address, vc.1) := by
    by_contra improper
    exact arrived (inv.links.silent address vc outer improper)
  refine ⟨proper, ?_⟩
  obtain ⟨flit, member⟩ := List.exists_mem_of_ne_nil _ arrived
  have passed : flit ∈ sim.passedOver config.arySize address vc := by
    rw [inv.links.fifo address vc outer proper, List.append_assoc]
    exact List.mem_append_left _ member
  exact (inv.links.passed _ _ flit passed).2

/-- A router makes a move. -/
theorem CreditInv.work (inv : CreditInv config sim)
    (netInv : NetInv config clock sim) {after : Work Time}
    (move : Move config clock sim.currentTime (sim.work address) after) :
    CreditInv config (sim.absorb address after) := by
  obtain ⟨sameLoad, effect⟩ := move.credit (netInv.router address) rfl
  have queue : (sim.absorb address after).queue =
      enqueueAll Event.time after.emitted sim.queue := rfl
  have itself : (sim.work address).router = sim.network address := rfl
  have load : ∀ other out,
      ((sim.absorb address after).network other).load out =
        (sim.network other).load out := by
    intro other out
    unfold Sim.absorb
    dsimp only
    by_cases same : other = address
    · rw [same, update_self]
      exact sameLoad out
    · rw [update_of_ne same]
  cases effect with
  | none departed plain =>
      obtain ⟨credits, old⟩ := credits_of_plain queue plain
      refine inv.of_same load ?_ credits old
      intro other vc _
      unfold Sim.absorb
      dsimp only
      by_cases same : other = address
      · rw [same, update_self, departed vc]
        rfl
      · rw [update_of_ne same]
  | leave vc buffered departed emitted =>
      have leaves : ∀ other channel,
          (((sim.absorb address after).network other).departed
              channel).length =
            ((sim.network other).departed channel).length +
              if other = address ∧ channel = vc then 1 else 0 := by
        intro other channel
        unfold Sim.absorb
        dsimp only
        by_cases same : other = address
        · rw [same, update_self, departed channel]
          simp [itself]
        · rw [update_of_ne same, if_neg (fun both => same both.1)]
          rfl
      by_cases injection : vc.1 = 0
      · rw [if_pos injection] at emitted
        obtain ⟨credits, old⟩ :=
          credits_of_plain queue (isNotCredit_of_nil emitted)
        refine inv.of_same load ?_ credits old
        intro other channel outer
        rw [leaves, if_neg]
        · rfl
        · rintro ⟨_, rfl⟩
          exact outer injection
      · rw [if_neg injection] at emitted
        rw [emitted, enqueueAll_singleton] at queue
        obtain ⟨proper, valid⟩ :=
          netInv.link_of_buffered injection (itself ▸ buffered)
        have link : linked config.arySize (address, vc.1) =
            (linkedRouter config.arySize address vc.1,
              linkedPort config.arySize address vc.1) := rfl
        have back := proper
        unfold Proper at back
        rw [link] at back
        have backPort := congrArg Prod.snd back
        have itsAddress : (sim.network address).address = address :=
          netInv.address address
        refine inv.leave proper injection load leaves ?_ ?_
        · intro other out
          unfold Sim.credits
          rw [queue, (enqueue_perm _ _).countP_eq, List.countP_cons, link]
          simp [Event.isCreditTo, creditEvent, getFromRouter, getFromPort,
            itself, itsAddress, and_assoc]
        · intro event member src des pc v isCredit
          rw [queue, mem_enqueue] at member
          rcases member with rfl | old
          · simp only [creditEvent, getFromRouter, getFromPort, itself,
              itsAddress] at isCredit
            cases isCredit
            refine ⟨⟨proper.linked, ?_⟩, valid⟩
            intro zero
            exact injection (backPort.symm.trans zero)
          · exact inv.returning event old src des pc v isCredit

omit [LinearOrder Time] in
/-- One router changes, but neither its counters nor what has left it. -/
theorem CreditInv.of_update (inv : CreditInv config sim)
    {router : Router Time}
    (network : next.network = update sim.network address router)
    (load : ∀ out, router.load out = (sim.network address).load out)
    (departed : ∀ vc,
      router.departed vc = (sim.network address).departed vc)
    (credits : ∀ other out, next.credits other out = sim.credits other out)
    (old : ∀ event ∈ next.queue, event.IsCredit → event ∈ sim.queue) :
    CreditInv config next := by
  refine inv.of_same ?_ ?_ credits old
  · intro other out
    rw [network]
    by_cases same : other = address
    · rw [same, update_self]
      exact load out
    · rw [update_of_ne same]
  · intro other vc _
    rw [network]
    by_cases same : other = address
    · rw [same, update_self, departed vc]
    · rw [update_of_ne same]

theorem creditInv_start {time : Time} {trace : List (Record Time)}
    {files : Addr → List (Record Time)} {rng : Rng} :
    CreditInv config (Sim.start config time trace files rng) := by
  have plain : ∀ event ∈ (Sim.start config time trace files rng).queue,
      ¬ event.IsCredit := by
    intro event member
    simp only [Sim.start, mem_enqueue, List.mem_singleton] at member
    rcases member with rfl | rfl <;> rintro ⟨_, _, _, _, isCredit⟩ <;>
      cases isCredit
  refine ⟨?_, ?_⟩
  · intro address out
    have credits :
        (Sim.start config time trace files rng).credits address out = 0 := by
      refine List.countP_eq_zero.mpr ?_
      intro event member
      simp [isCreditTo_of_plain (plain event member)]
    have returned : (Sim.start config time trace files rng).returned
        config.arySize address out = 0 := by
      unfold Sim.returned
      split <;> rfl
    rw [credits, returned]
    simp [Sim.start, Router.load, Router.start, Router.passedTo]
  · intro event member src des pc v isCredit
    exact absurd ⟨src, des, pc, v, isCredit⟩ (plain event member)

omit [LinearOrder Time] in
theorem receiveFlit_departed {router : Router Time} {vc : VC}
    {flit : Flit Time} (other : VC) :
    (receiveFlit router vc flit).departed other = router.departed other := by
  have log : (receiveFlit router vc flit).log =
      router.log ++ [.arrived vc flit] := rfl
  simp [departed_of_log log, Note.departure]

/-- Every move keeps the balance. -/
theorem CreditInv.move {Allowed : Addr → VC → Prop}
    (star : StarConfig config) (inv : CreditInv config sim)
    (netInv : NetInv config clock sim)
    (move : NetMove config clock Allowed sim next) :
    CreditInv config next := by
  cases move with
  | work address after _ _ move => exact inv.work netInv move
  | advance | readTrace =>
      exact inv.of_same (fun _ _ => rfl) (fun _ _ _ => rfl) (fun _ _ => rfl)
        (fun _ member _ => member)
  | read address record rest _ pending admitted =>
      exact inv.of_update rfl readRecord_load readRecord_departed
        (fun _ _ => rfl) (fun _ member _ => member)
  | announce time =>
      obtain ⟨credits, old⟩ :=
        credits_of_plain
          (show (sim.addMessage ⟨time, .evg⟩).queue =
            enqueueAll Event.time [⟨time, .evg⟩] sim.queue from rfl)
          (List.forall_mem_singleton.mpr
            (not_isCredit fun _ _ _ _ => by simp))
      exact inv.of_same (fun _ _ => rfl) (fun _ _ _ => rfl) credits old
  | evg time rest between queue =>
      obtain ⟨credits, old⟩ :=
        credits_of_removal queue
          (show ({ sim with queue := rest, currentTime := time } :
            Sim Time).queue = rest from rfl)
          (not_isCredit fun _ _ _ _ => by simp)
      exact inv.of_same (fun _ _ => rfl) (fun _ _ _ => rfl) credits old
  | router time rest between queue =>
      obtain ⟨credits, old⟩ :=
        credits_of_removal queue
          (show ({ sim with queue := rest, currentTime := time } :
            Sim Time).queue = rest from rfl)
          (not_isCredit fun _ _ _ _ => by simp)
      obtain ⟨added, oldAdded⟩ :=
        credits_of_plain
          (show (({ sim with queue := rest, currentTime := time } :
              Sim Time).receiveROUTERMessage config clock).queue =
            enqueueAll Event.time [⟨clock.pipe time, .router⟩]
              ({ sim with queue := rest, currentTime := time } :
                Sim Time).queue from rfl)
          (List.forall_mem_singleton.mpr
            (not_isCredit fun _ _ _ _ => by simp))
      refine inv.of_same (fun _ _ => rfl) (fun _ _ _ => rfl) ?_ ?_
      · intro other out
        exact (added other out).trans (credits other out)
      · intro event member isCredit
        exact old event (oldAdded event member isCredit) isCredit
  | wire time src des pc vc flit rest address between queue located inRange =>
      obtain ⟨credits, old⟩ :=
        credits_of_removal queue
          (show ({ sim with queue := rest, currentTime := time } :
            Sim Time).queue = rest from rfl)
          (not_isCredit fun _ _ _ _ => by simp)
      refine inv.of_update rfl ?_ receiveFlit_departed credits old
      intro out
      unfold Router.load
      rw [receiveFlit_passedTo]
      rfl
  | credit time src des pc vc rest address between queue located inRange =>
      obtain ⟨_, valid⟩ :=
        inv.returning ⟨time, .credit src des pc vc⟩
          (by rw [queue]; exact List.mem_cons_self) src des pc vc rfl
      obtain ⟨rfl, _⟩ := located_of_valid star valid address located
      exact inv.arrive queue rfl rfl

/-- The invariant of the network and the balance hold in every run that stays
on links. -/
theorem creditInv_of_reachable (star : StarConfig config)
    {simLength time : Time} {trace : List (Record Time)}
    {files : Addr → List (Record Time)} {rng : Rng}
    (reached : Sim.ReachableWhile config clock (Sim.OnLinks config) simLength
      time trace files rng sim) :
    NetInv config clock sim ∧ CreditInv config sim := by
  refine invariant_of_reflTransGen
    (fun sim => NetInv config clock sim ∧ CreditInv config sim) ?_
    ⟨netInv_start, creditInv_start⟩ (netMoves_of_reachable reached).2
  rintro before after ⟨netInv, inv⟩ move
  exact ⟨netInv.move star move, inv.move star netInv move⟩

end Moves

/-! ## Conservation -/

/-- The credits of a channel, and the flits and credits behind it. -/
def Sim.creditSum (sim : Sim Time) (n : ℤ) (address : Addr) (p v : Nat) :
    ℤ :=
  ((sim.network address).output (p, v)).counter +
    (((sim.network address).port p).tagged v).length +
    (sim.wires (getNextAddress n address p)
      (getWirePc n address p, v)).length +
    ((sim.network (getNextAddress n address p)).input
      (getWirePc n address p, v)).buffer.length +
    sim.credits address (p, v)

section Conservation

variable [LinearOrder Time] {config : Config} {clock : Clock Time}
variable {sim : Sim Time}

/-- The sum over a link. -/
theorem CreditInv.creditSum (inv : CreditInv config sim)
    (netInv : NetInv config clock sim) {address : Addr} {p : Nat}
    (isLink : IsLink config.arySize (address, p)) (v : Nat) :
    sim.creditSum config.arySize address p v = config.bufferSize := by
  have proper := isLink.1
  have back : linkedRouter config.arySize
      (linkedRouter config.arySize address p)
      (linkedPort config.arySize address p) = address :=
    congrArg Prod.fst proper
  have backPort : linkedPort config.arySize
      (linkedRouter config.arySize address p)
      (linkedPort config.arySize address p) = p :=
    congrArg Prod.snd proper
  have passed := netInv.links.fifo
    (linkedRouter config.arySize address p)
    (linkedPort config.arySize address p, v) isLink.2 proper.linked
  unfold Sim.passedOver Sim.waiting at passed
  simp only [back, backPort] at passed
  have history :=
    ((netInv.router (linkedRouter config.arySize address p)).channel
      (linkedPort config.arySize address p, v)).history
  have balance := inv.balance address (p, v)
  unfold Sim.returned Router.load at balance
  rw [if_pos isLink, passed, history] at balance
  simp only [List.length_append, Nat.cast_add] at balance
  unfold Sim.creditSum getNextAddress getWirePc
  omega

/-- An output that is not the end of a link stays as it was. -/
theorem CreditInv.unused (inv : CreditInv config sim)
    (netInv : NetInv config clock sim) {address : Addr} {p : Nat}
    (noLink : ¬ IsLink config.arySize (address, p)) (v : Nat) :
    ((sim.network address).output (p, v)).counter = config.bufferSize ∧
      ((sim.network address).port p).tagged v = [] ∧
      sim.credits address (p, v) = 0 := by
  have passed : (sim.network address).passedTo (p, v) = [] := by
    rw [List.eq_nil_iff_forall_not_mem]
    intro flit member
    exact noLink (netInv.links.passed address (p, v) flit member).1
  have credits : sim.credits address (p, v) = 0 := by
    refine List.countP_eq_zero.mpr ?_
    intro event member counted
    unfold Event.isCreditTo at counted
    split at counted
    case h_2 => cases counted
    case h_1 src des pc w isCredit =>
      obtain ⟨rfl, rfl, rfl⟩ := of_decide_eq_true counted
      exact noLink (inv.returning event member src des _ _ isCredit).1
  have balance := inv.balance address (p, v)
  unfold Sim.returned Router.load at balance
  rw [if_neg noLink, passed, credits] at balance
  refine ⟨?_, netInv.tagged_of_improper noLink, credits⟩
  simpa using balance

/-- A buffer behind a port other than the injection port does not exceed its
size. -/
theorem CreditInv.buffer_le (inv : CreditInv config sim)
    (netInv : NetInv config clock sim) (address : Addr) {q : Nat}
    (outer : 1 ≤ q) (v : Nat) :
    ((sim.network address).input (q, v)).buffer.length ≤
      config.bufferSize := by
  have outer' : q ≠ 0 := by omega
  by_cases empty : ((sim.network address).input (q, v)).buffer = []
  · rw [empty]
    exact Nat.zero_le _
  · obtain ⟨proper, _⟩ :=
      netInv.link_of_buffered (show (q, v).1 ≠ 0 from outer') empty
    have forth : linkedRouter config.arySize
        (linkedRouter config.arySize address q)
        (linkedPort config.arySize address q) = address :=
      congrArg Prod.fst proper
    have forthPort : linkedPort config.arySize
        (linkedRouter config.arySize address q)
        (linkedPort config.arySize address q) = q :=
      congrArg Prod.snd proper
    have isLink : IsLink config.arySize
        (linkedRouter config.arySize address q,
          linkedPort config.arySize address q) := by
      refine ⟨proper.linked, ?_⟩
      rw [forthPort]
      exact outer'
    have sum := inv.creditSum netInv isLink v
    unfold Sim.creditSum getNextAddress getWirePc at sum
    rw [forth, forthPort] at sum
    have counter :=
      (netInv.switch (linkedRouter config.arySize address q)).counter
        (linkedPort config.arySize address q, v)
    omega

/-- Under star mode and a trace between leaf chiplets, in every reachable
state: the credits of a channel, the flits behind it and the credits on their
way back add up to the size of the buffer, for every output port whose input
port returns its credits to it; every other output port is unused.  So no
counter is negative and no buffer overflows. -/
theorem credit_conservation (star : StarConfig config)
    {simLength time : Time} {trace : List (Record Time)}
    {files : Addr → List (Record Time)} {rng : Rng}
    (leaf : LeafFiles config.arySize files)
    (reached : Sim.Reachable config clock simLength time trace files rng
      sim) :
    (∀ (address : Addr) (p v : Nat), 1 ≤ p →
      CreditsReturn config.arySize address p →
      sim.creditSum config.arySize address p v = config.bufferSize) ∧
    (∀ (address : Addr) (p v : Nat), 1 ≤ p →
      ¬ CreditsReturn config.arySize address p →
      ((sim.network address).output (p, v)).counter = config.bufferSize ∧
        ((sim.network address).port p).tagged v = [] ∧
        sim.credits address (p, v) = 0) ∧
    (∀ (address : Addr) (p v : Nat), 1 ≤ p →
      0 ≤ ((sim.network address).output (p, v)).counter ∧
        ((sim.network address).input (p, v)).buffer.length ≤
          config.bufferSize) ∧
    (∀ (address : Addr) (p : Nat),
      0 ≤ ((sim.network address).port p).localcounter ∧
        ((sim.network address).port p).localcounter =
          config.outbufferSize -
            ((sim.network address).port p).outbuffers.length) := by
  obtain ⟨netInv, inv⟩ :=
    creditInv_of_reachable star (onLinks_of_leafFiles star leaf reached)
  refine ⟨?_, ?_, ?_, ?_⟩
  · intro address p v outer returns
    exact inv.creditSum netInv (isLink_of_creditsReturn outer returns) v
  · intro address p v _ elsewhere
    refine inv.unused netInv ?_ v
    intro isLink
    exact elsewhere ⟨congrArg Prod.fst isLink.1, congrArg Prod.snd isLink.1⟩
  · intro address p v outer
    exact ⟨(netInv.switch address).counter (p, v),
      inv.buffer_le netInv address outer v⟩
  · intro address p
    have occupied := (netInv.switch address).occupied p
    exact ⟨(netInv.switch address).localcounter p, by omega⟩

end Conservation

theorem credit_conservation_leaf :
    ∃ sim,
      Sim.Reachable starThree popnetClock 100000000000 0 [leafRecord]
        (fun address => [leafRecord].filter (·.sorAddr = address))
        ⟨fun _ => 0, 0⟩ sim ∧
      ((sim.network [0, 0, 0, 0]).output (9, 0)).counter = 14 ∧
      sim.creditSum starThree.arySize [0, 0, 0, 0] 9 0 = 16 := by
  obtain ⟨sim, reached, _, counter⟩ :=
    exists_of_starRun [leafRecord] [[0, 0, 0, 0]] (fun _ => 0) 8
      (fun sim => ((sim.network [0, 0, 0, 0]).output (9, 0)).counter)
      (by decide +kernel) (show _ = Except.ok 14 by decide +kernel)
  exact ⟨sim, reached, counter,
    (credit_conservation starConfig_starThree leafFiles_leafRecord
      reached).1 [0, 0, 0, 0] 9 0 (by decide) (by decide)⟩

/-- Router `(0, 0, 0, 1)` has a port to the centre too.  The centre receives
there what `(0, 0, 0, 0)` sends, and returns its credits to `(0, 0, 0, 0)`. -/
theorem credits_exceed_buffer :
    StarConfig starThree ∧
      LeafFiles starThree.arySize
        (fun address => [leafRecord].filter (·.sorAddr = address)) ∧
      ∃ sim,
        Sim.Reachable starThree popnetClock 100000000000 0 [leafRecord]
          (fun address => [leafRecord].filter (·.sorAddr = address))
          ⟨fun _ => 0, 0⟩ sim ∧
        sim.agenda = [] ∧
        [0, 0, 0, 1] ∈ starThree.addresses ∧ 9 < starThree.physicPorts ∧
        sim.creditSum starThree.arySize [0, 0, 0, 1] 9 0 ≠
          starThree.bufferSize := by
  obtain ⟨sim, reached, between, sum⟩ :=
    exists_of_starRun [leafRecord] [[0, 0, 0, 0]] (fun _ => 0) 8
      (fun sim => sim.creditSum starThree.arySize [0, 0, 0, 1] 9 0)
      (by decide +kernel) (show _ = Except.ok 18 by decide +kernel)
  refine ⟨starConfig_starThree, leafFiles_leafRecord, sim, reached, between,
    by decide, by decide, ?_⟩
  rw [sum]
  decide

end ChipletSniper.Popnet
