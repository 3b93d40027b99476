import Mathlib.Data.Multiset.Count
import Mathlib.Algebra.BigOperators.Group.Finset.Basic
import ChipletSniper.Library.Sums
import ChipletSniper.Popnet.Wormhole

/-!
# No flit is lost or doubled

The flits in the input buffers, in the output buffers and in flight and those
that were accepted are exactly the flits that were injected.  Every move takes
a flit from one of these places to another, or injects new ones.
-/

namespace ChipletSniper.Popnet

open Library Relation Function

variable {Time : Type}

/-! ## Places -/

/-- The flit was injected. -/
def Note.injection : Note Time → Option (Flit Time)
  | .arrived channel flit => if channel.1 = 0 then some flit else none
  | _ => none

/-- The flit was passed to `accept_flit`. -/
def Note.accepting : Note Time → Option (Flit Time)
  | .accepted _ flit => some flit
  | _ => none

/-- The flit of a `WIRE_` event. -/
def Event.flit (event : Event Time) : Option (Flit Time) :=
  match event.mess with
  | .wire _ _ _ _ flit => some flit
  | _ => none

namespace Router

variable (config : Config) (router : Router Time)

def buffered : Multiset (Flit Time) :=
  ∑ vc ∈ config.channels.toFinset, ((router.input vc).buffer : Multiset _)

def outgoing : Multiset (Flit Time) :=
  ∑ i ∈ Finset.range config.physicPorts,
    ((router.port i).outbuffers.map Prod.fst : Multiset _)

def injected : List (Flit Time) :=
  router.log.filterMap Note.injection

def accepted : List (Flit Time) :=
  router.log.filterMap Note.accepting

/-- The flits that are in the router or were accepted there. -/
def inside : Multiset (Flit Time) :=
  router.buffered config + router.outgoing config + router.accepted

end Router

/-- The events that carry flits. -/
def flitsOf (events : List (Event Time)) : Multiset (Flit Time) :=
  events.filterMap Event.flit

/-! ## One router -/

section Router

variable {config : Config} {router next : Router Time}

theorem buffered_of_same
    (same : ∀ vc, (next.input vc).buffer = (router.input vc).buffer) :
    next.buffered config = router.buffered config := by
  unfold Router.buffered
  simp only [same]

/-- The buffer of one channel changes. -/
theorem buffered_of_update {vc : VC} {channel : InputVC Time}
    (inRange : config.InRange vc)
    (input : next.input = update router.input vc channel) :
    next.buffered config + (router.input vc).buffer =
      router.buffered config + channel.buffer := by
  unfold Router.buffered
  rw [input]
  exact sum_exchange (fun channel : InputVC Time =>
    (channel.buffer : Multiset (Flit Time))) router.input
    (List.mem_toFinset.mpr (mem_channels.mpr inRange)) channel

/-- The output buffer of one port changes. -/
theorem outgoing_of_update {i : Nat} {port : OutputPort Time}
    (inside : i < config.physicPorts)
    (ports : next.port = update router.port i port) :
    next.outgoing config + (router.port i).outbuffers.map Prod.fst =
      router.outgoing config + port.outbuffers.map Prod.fst := by
  unfold Router.outgoing
  rw [ports]
  exact sum_exchange (fun port : OutputPort Time =>
    (port.outbuffers.map Prod.fst : Multiset (Flit Time))) router.port
    (Finset.mem_range.mpr inside) port

/-- A flit leaves the front of a buffer. -/
theorem buffered_of_pop {vc : VC} {channel : InputVC Time}
    {flit : Flit Time} (inRange : config.InRange vc)
    (input : next.input = update router.input vc channel)
    (popped : (router.input vc).buffer = flit :: channel.buffer) :
    router.buffered config = next.buffered config + {flit} := by
  have exchanged := buffered_of_update inRange input
  rw [popped, ← Multiset.cons_coe, ← Multiset.singleton_add,
    ← add_assoc] at exchanged
  exact (add_right_cancel exchanged).symm

/-- Flits are added at the end of a buffer. -/
theorem buffered_of_push {vc : VC} {channel : InputVC Time}
    {flits : List (Flit Time)} (inRange : config.InRange vc)
    (input : next.input = update router.input vc channel)
    (pushed : channel.buffer = (router.input vc).buffer ++ flits) :
    next.buffered config = router.buffered config + flits := by
  have exchanged := buffered_of_update inRange input
  rw [pushed, ← Multiset.coe_add, ← add_assoc, add_right_comm] at exchanged
  exact add_right_cancel exchanged

end Router

section Moves

variable [LinearOrder Time] {config : Config} {clock : Clock Time}
variable {now : Time} {work after : Work Time}

/-- The number of packets that end with one of the flits. -/
def packetEnds (flits : List (Flit Time)) : Nat :=
  flits.countP fun flit => isTail flit.type

/-- A move neither loses nor doubles a flit, and counts the packets that end. -/
structure Accounts (config : Config) (work after : Work Time) : Prop where
  flits :
    after.router.inside config + flitsOf after.emitted +
        work.router.injected =
      work.router.inside config + after.router.injected
  finished :
    after.totalFinished + packetEnds work.router.accepted =
      work.totalFinished + packetEnds after.router.accepted

omit [LinearOrder Time] in
theorem flitsOf_eq_zero {events : List (Event Time)}
    (none : ∀ event ∈ events, event.flit = none) : flitsOf events = 0 := by
  unfold flitsOf
  rw [List.filterMap_eq_nil_iff.mpr none]
  rfl

omit [LinearOrder Time] in
theorem flit_of_isCredit {event : Event Time} (isCredit : event.IsCredit) :
    event.flit = none := by
  obtain ⟨_, _, _, _, mess⟩ := isCredit
  simp [Event.flit, mess]

omit [LinearOrder Time] in
/-- No flit moves. -/
theorem accounts_of_quiet
    (buffer : ∀ vc,
      (after.router.input vc).buffer = (work.router.input vc).buffer)
    (port : after.router.port = work.router.port)
    (injected : after.router.injected = work.router.injected)
    (accepted : after.router.accepted = work.router.accepted)
    (emitted : ∀ event ∈ after.emitted, event.flit = none)
    (totalFinished : after.totalFinished = work.totalFinished) :
    Accounts config work after := by
  refine ⟨?_, by rw [accepted, totalFinished]⟩
  unfold Router.inside Router.outgoing
  rw [buffered_of_same buffer, port, injected, accepted,
    flitsOf_eq_zero emitted, add_zero]

omit [LinearOrder Time] in
/-- A flit is accepted. -/
theorem accounts_of_accept {vc : VC} {flit : Flit Time}
    {rest : List (Flit Time)} {state : VCState}
    (inRange : config.InRange vc)
    (buffered : (work.router.input vc).buffer = flit :: rest)
    (emitted : ∀ event ∈ work.emitted, event.flit = none) :
    Accounts config work (acceptFlit work vc flit rest state) := by
  have log : (acceptFlit work vc flit rest state).router.log =
      work.router.log ++ [.accepted vc flit] := rfl
  have injected : (acceptFlit work vc flit rest state).router.injected =
      work.router.injected := by
    simp [Router.injected, log, Note.injection]
  have accepted : (acceptFlit work vc flit rest state).router.accepted =
      work.router.accepted ++ [flit] := by
    simp [Router.accepted, log, Note.accepting]
  have popped : work.router.buffered config =
      (acceptFlit work vc flit rest state).router.buffered config +
        {flit} := by
    exact buffered_of_pop inRange rfl buffered
  have outgoing :
      (acceptFlit work vc flit rest state).router.outgoing config =
        work.router.outgoing config := rfl
  refine ⟨?_, ?_⟩
  · unfold Router.inside
    rw [injected, accepted, outgoing, popped, ← Multiset.coe_add,
      Multiset.coe_singleton]
    rw [show flitsOf (acceptFlit work vc flit rest state).emitted = 0 from
      flitsOf_eq_zero emitted]
    abel
  · rw [accepted]
    unfold packetEnds acceptFlit
    rw [List.countP_append, List.countP_singleton]
    dsimp only
    split <;> omega

/-- The credit for a flit that is accepted is no flit. -/
theorem accounts_of_returnCredit (fresh : work.emitted = []) {vc : VC}
    {flit : Flit Time} {rest : List (Flit Time)} {state : VCState}
    (inRange : config.InRange vc)
    (buffered : (work.router.input vc).buffer = flit :: rest) :
    Accounts config work
      (acceptFlit (returnCredit config clock now work vc) vc flit rest
        state) := by
  have router : (returnCredit config clock now work vc).router =
      work.router :=
    returnCredit_router work vc
  have finished : (returnCredit config clock now work vc).totalFinished =
      work.totalFinished := by
    unfold returnCredit
    split
    · rfl
    · split <;> rfl
  have accounts : Accounts config (returnCredit config clock now work vc)
      (acceptFlit (returnCredit config clock now work vc) vc flit rest
        state) := by
    refine accounts_of_accept inRange (router ▸ buffered) ?_
    intro event member
    exact flit_of_isCredit (isCredit_of_returnCredit fresh vc event member)
  refine ⟨?_, ?_⟩
  · have flits := accounts.flits
    rwa [router] at flits
  · have ends := accounts.finished
    rwa [router, finished] at ends

omit [LinearOrder Time] in
/-- A flit goes to an output. -/
theorem accounts_of_send {vc out : VC} {flit : Flit Time}
    {rest : List (Flit Time)} (inRange : config.InRange vc)
    (outInRange : config.InRange out)
    (buffered : (work.router.input vc).buffer = flit :: rest)
    (result : after.router = afterSend work.router vc out flit rest)
    (emitted : ∀ event ∈ after.emitted, event.flit = none)
    (totalFinished : after.totalFinished = work.totalFinished) :
    Accounts config work after := by
  have log : after.router.log = work.router.log ++ [.passed vc out flit] := by
    rw [result]
    exact afterSend_log
  have injected : after.router.injected = work.router.injected := by
    simp [Router.injected, log, Note.injection]
  have accepted : after.router.accepted = work.router.accepted := by
    simp [Router.accepted, log, Note.accepting]
  have popped : work.router.buffered config =
      after.router.buffered config + {flit} := by
    refine buffered_of_pop inRange (result ▸ afterSend_input) ?_
    exact buffered
  have pushed : after.router.outgoing config =
      work.router.outgoing config + {flit} := by
    have exchanged :=
      outgoing_of_update outInRange.1 (result ▸ afterSend_port)
    rw [List.map_append, ← Multiset.coe_add, ← add_assoc,
      add_right_comm] at exchanged
    exact add_right_cancel exchanged
  refine ⟨?_, by rw [accepted, totalFinished]⟩
  unfold Router.inside
  rw [injected, accepted, popped, pushed, flitsOf_eq_zero emitted]
  abel

omit [LinearOrder Time] in
/-- A record is read. -/
theorem accounts_of_read {held : Option VC} {record : Record Time}
    {rest : List (Record Time)} (admitted : record.Admitted config)
    (result : after.router = readRecord config held work.router record rest)
    (emitted : ∀ event ∈ after.emitted, event.flit = none)
    (totalFinished : after.totalFinished = work.totalFinished) :
    Accounts config work after := by
  have log : after.router.log = work.router.log ++
      (recordFlits work.router record).map
        (.arrived (0, shortestVC config work.router)) := by
    rw [result]
    exact readRecord_log
  have injected : after.router.injected =
      work.router.injected ++ recordFlits work.router record := by
    simp [Router.injected, log, List.filterMap_map, comp_def,
      Note.injection]
  have accepted : after.router.accepted = work.router.accepted := by
    simp [Router.accepted, log, List.filterMap_map, comp_def,
      Note.accepting]
  have port : after.router.port = work.router.port := by
    rw [result]
    exact readRecord_same.1
  have pushed : after.router.buffered config =
      work.router.buffered config + recordFlits work.router record := by
    rw [result]
    unfold recordFlits readRecord addPacketHolding
    by_cases empty : record.packSize ≤ 0
    · simp only [empty, if_true]
      exact (add_zero _).symm
    · simp only [empty, if_false]
      refine buffered_of_push
        (inRange_shortestVC (admitted.2.2 (by omega))) rfl ?_
      rfl
  refine ⟨?_, by rw [accepted, totalFinished]⟩
  unfold Router.inside Router.outgoing
  rw [injected, accepted, port, pushed, flitsOf_eq_zero emitted,
    ← Multiset.coe_add]
  abel

/-- A flit is put on a wire. -/
theorem accounts_of_traverse (fresh : work.emitted = []) {i : Nat}
    (inside : i < config.physicPorts) :
    Accounts config work (flitTraversalPort config clock now work i) := by
  cases leaving : (work.router.port i).outbuffers with
  | nil =>
      have nothing : flitTraversalPort config clock now work i = work := by
        simp [flitTraversalPort, leaving]
      rw [nothing]
      refine accounts_of_quiet (fun _ => rfl) rfl rfl rfl ?_ rfl
      rw [fresh]
      exact fun _ member => by cases member
  | cons first rest =>
      have popped : work.router.outgoing config =
          (flitTraversalPort config clock now work i).router.outgoing config +
            {first.1} := by
        have ports :
            (flitTraversalPort config clock now work i).router.port =
              update work.router.port i
                ⟨rest, (work.router.port i).localcounter + 1⟩ := by
          simp [flitTraversalPort, leaving, Router.setPort]
        have exchanged := outgoing_of_update inside ports
        rw [leaving, List.map_cons, ← Multiset.cons_coe,
          ← Multiset.singleton_add, ← add_assoc] at exchanged
        exact (add_right_cancel exchanged).symm
      have flying :
          flitsOf (flitTraversalPort config clock now work i).emitted =
            {first.1} := by
        simp [flitTraversalPort, leaving, fresh, flitsOf, Event.flit]
      have input :
          (flitTraversalPort config clock now work i).router.input =
            work.router.input := by
        simp [flitTraversalPort, leaving, Router.setPort]
      have log : (flitTraversalPort config clock now work i).router.log =
          work.router.log := by
        simp [flitTraversalPort, leaving, Router.setPort]
      have finished :
          (flitTraversalPort config clock now work i).totalFinished =
            work.totalFinished := by
        simp [flitTraversalPort, leaving]
      refine ⟨?_, ?_⟩
      · unfold Router.inside Router.buffered Router.injected Router.accepted
        rw [popped, flying, input, log]
        abel
      · unfold Router.accepted
        rw [finished, log]

/-- The candidate output of a channel that holds the switch exists. -/
theorem RouterInv.inRange_of_swTr {router : Router Time}
    (inv : RouterInv config router) {vc out : VC}
    (state : (router.input vc).state = .swTr)
    (crouting : (router.input vc).crouting = some out) :
    config.InRange out := by
  have ok := inv.channel vc
  obtain ⟨_, target, isHeld⟩ := ok.of_active (Or.inr state)
  have holds := ok.holds target isHeld
  rw [holds.crouting, Option.some.injEq] at crouting
  exact crouting ▸ holds.inRange

/-- Every move accounts for its flits. -/
theorem Move.accounts (inv : RouterInv config work.router)
    (move : Move config clock now work after) (fresh : work.emitted = []) :
    Accounts config work after := by
  have nothing : ∀ event ∈ work.emitted, event.flit = none := by
    rw [fresh]
    exact fun _ member => by cases member
  cases move with
  | draw | reopen =>
      exact accounts_of_quiet (fun _ => rfl) rfl rfl rfl nothing rfl
  | traverse i _ inside => exact accounts_of_traverse fresh inside
  | send vc out flit rest inRange state crouting buffered =>
      refine accounts_of_send inRange (inv.inRange_of_swTr state crouting)
        buffered rfl ?_ rfl
      intro event member
      dsimp only at member
      split at member
      · exact nothing event member
      · rw [fresh, List.nil_append, List.mem_singleton] at member
        rw [member]
        rfl
  | read held record rest _ admitted =>
      exact accounts_of_read admitted rfl nothing rfl
  | grantSwitch vc | route vc =>
      refine accounts_of_quiet ?_ rfl rfl rfl nothing rfl
      intro other
      simp only [Router.stateUpdate, Router.setInput]
      by_cases same : other = vc
      · rw [same, update_self]
      · rw [update_of_ne same]
  | grantChannel vc out =>
      refine accounts_of_quiet ?_ rfl ?_ ?_ nothing rfl
      · intro other
        simp only [Router.record, Router.acquire, Router.setInput,
          Router.setOutput]
        by_cases same : other = vc
        · rw [same, update_self]
        · rw [update_of_ne same]
      · simp [Router.injected, Router.record, Router.acquire,
          Router.setInput, Router.setOutput, Note.injection]
      · simp [Router.accepted, Router.record, Router.acquire,
          Router.setInput, Router.setOutput, Note.accepting]
  | acceptFirst vc flit rest inRange _ buffered
  | acceptNext vc flit rest inRange _ buffered =>
      exact accounts_of_returnCredit fresh inRange buffered
  | strayCredit =>
      refine accounts_of_quiet (fun _ => rfl) rfl rfl rfl ?_ rfl
      intro event member
      rw [fresh, List.nil_append, List.mem_singleton] at member
      rw [member]
      rfl

end Moves

/-! ## Identity of flits -/

section Issued

/-- The packet of a flit, by the router that injected it and its number
there. -/
def Flit.packet (flit : Flit Time) : Addr × Nat :=
  (flit.origin, flit.flitId)

/-- The flits that are the last of their packets. -/
def lastFlits (flits : List (Flit Time)) : List (Flit Time) :=
  flits.filter fun flit => isTail flit.type

/-- The flits that a router has injected are told apart by the number of their
packet and their place in it. -/
structure Issued (router : Router Time) : Prop where
  named : ∀ flit ∈ router.injected,
    flit.origin = router.address ∧ flit.flitId < router.packetCounter
  nodup : router.injected.Nodup
  ends : ((lastFlits router.injected).map Flit.packet).Nodup
  counted : (lastFlits router.injected).length ≤ router.packetCounter

variable {config : Config} {router next : Router Time}

theorem Issued.of_same (issued : Issued router)
    (address : next.address = router.address)
    (injected : next.injected = router.injected)
    (packetCounter : next.packetCounter = router.packetCounter) :
    Issued next := by
  refine ⟨?_, ?_, ?_, ?_⟩ <;> rw [injected]
  · rw [address, packetCounter]
    exact issued.named
  · exact issued.nodup
  · exact issued.ends
  · rw [packetCounter]
    exact issued.counted

theorem nodup_packetFlits (origin : Addr) (a : Nat) (b c : Addr) (d : Time)
    (e : Nat) : (packetFlits origin a b c d e).Nodup :=
  List.nodup_range.map fun _ _ same => congrArg Flit.seq same

/-- A packet has one last flit. -/
theorem lastFlits_packetFlits (origin : Addr) (a : Nat) (b c : Addr)
    (d : Time) (e : Nat) :
    (lastFlits (packetFlits origin a b c d e)).length ≤ 1 := by
  have last : (List.range e).filter
      (fun l => isTail (packetFlit origin a b c d e l).type) ⊆ [e - 1] := by
    intro l member
    obtain ⟨inside, isLast⟩ := List.mem_filter.mp member
    rw [show (packetFlit origin a b c d e l).type = flitType e l from rfl,
      isTail_flitType (List.mem_range.mp inside)] at isLast
    exact List.mem_singleton.mpr (of_decide_eq_true isLast)
  unfold lastFlits packetFlits
  rw [List.filter_map, List.length_map]
  exact (List.subperm_of_subset (List.nodup_range.filter _) last).length_le

theorem nodup_of_length_le_one {Item : Type} {items : List Item}
    (short : items.length ≤ 1) : items.Nodup := by
  match items, short with
  | [], _ => exact List.nodup_nil
  | [item], _ => exact List.nodup_singleton item

theorem mem_recordFlits {record : Record Time} {flit : Flit Time}
    (member : flit ∈ recordFlits router record) :
    flit.origin = router.address ∧ flit.flitId = router.packetCounter := by
  unfold recordFlits at member
  split at member
  · cases member
  · obtain ⟨_, _, rfl⟩ := List.mem_map.mp member
    exact ⟨rfl, rfl⟩

/-- A record adds a new packet. -/
theorem Issued.readRecord (issued : Issued router) (held : Option VC)
    (record : Record Time) (rest : List (Record Time)) :
    Issued (readRecord config held router record rest) := by
  have injected : (Popnet.readRecord config held router record
      rest).injected = router.injected ++ recordFlits router record := by
    simp [Router.injected, readRecord_log, List.filterMap_map,
      comp_def, Note.injection]
  have packetCounter : (Popnet.readRecord config held router record
      rest).packetCounter = router.packetCounter + 1 := rfl
  have short : (lastFlits (recordFlits router record)).length ≤ 1 := by
    unfold recordFlits
    split
    · exact Nat.zero_le _
    · exact lastFlits_packetFlits _ _ _ _ _ _
  refine ⟨?_, ?_, ?_, ?_⟩ <;> rw [injected]
  · intro flit member
    rw [readRecord_same.2.2.1, packetCounter]
    rcases List.mem_append.mp member with old | new
    · obtain ⟨origin, below⟩ := issued.named flit old
      exact ⟨origin, by omega⟩
    · obtain ⟨origin, number⟩ := mem_recordFlits new
      exact ⟨origin, by omega⟩
  · refine List.Nodup.append issued.nodup ?_ ?_
    · unfold recordFlits
      split
      · exact List.nodup_nil
      · exact nodup_packetFlits _ _ _ _ _ _
    · intro flit old new
      have below := (issued.named flit old).2
      have number := (mem_recordFlits new).2
      omega
  · unfold lastFlits
    rw [List.filter_append, List.map_append]
    refine List.Nodup.append issued.ends ?_ ?_
    · refine nodup_of_length_le_one ?_
      rw [List.length_map]
      exact short
    · intro packet old new
      obtain ⟨first, isOld, firstPacket⟩ := List.mem_map.mp old
      obtain ⟨second, isNew, secondPacket⟩ := List.mem_map.mp new
      have below := (issued.named first (List.mem_of_mem_filter isOld)).2
      have number := (mem_recordFlits (List.mem_of_mem_filter isNew)).2
      have same : first.flitId = second.flitId :=
        congrArg Prod.snd (firstPacket.trans secondPacket.symm)
      omega
  · have before := issued.counted
    unfold lastFlits at before short ⊢
    rw [List.filter_append, List.length_append, packetCounter]
    omega

variable [LinearOrder Time] {clock : Clock Time} {now : Time}
variable {work after : Work Time}

theorem Issued.move (issued : Issued work.router)
    (move : Move config clock now work after) : Issued after.router := by
  cases move with
  | draw | reopen | grantSwitch | route | strayCredit =>
      exact issued.of_same rfl rfl rfl
  | traverse i _ _ =>
      refine issued.of_same ?_ ?_ ?_ <;> unfold flitTraversalPort <;>
        dsimp only <;> split <;> rfl
  | send vc out flit rest =>
      refine issued.of_same afterSend_address ?_ ?_
      · show (afterSend work.router vc out flit rest).injected = _
        simp [Router.injected, afterSend_log, Note.injection]
      · show (afterSend work.router vc out flit rest).packetCounter = _
        unfold afterSend finishSend
        split <;> rfl
  | read held record rest => exact issued.readRecord held record rest
  | grantChannel vc out =>
      refine issued.of_same rfl ?_ rfl
      simp [Router.injected, Router.record, Router.acquire, Router.setInput,
        Router.setOutput, Note.injection]
  | acceptFirst vc flit rest | acceptNext vc flit rest =>
      refine issued.of_same ?_ ?_ ?_ <;>
        simp [acceptFlit, returnCredit_router, Router.injected,
          Router.record, Router.setInput, Note.injection]

end Issued

/-! ## The network -/

namespace Sim

variable (config : Config) (sim : Sim Time)

/-- The flits in the input buffers. -/
def buffered : Multiset (Flit Time) :=
  ∑ address ∈ config.addresses.toFinset,
    (sim.network address).buffered config

/-- The flits in the output buffers. -/
def outgoing : Multiset (Flit Time) :=
  ∑ address ∈ config.addresses.toFinset,
    (sim.network address).outgoing config

/-- The flits of the `WIRE_` events. -/
def inFlight : Multiset (Flit Time) :=
  flitsOf sim.queue

/-- The flits that were passed to `accept_flit`. -/
def accepted : Multiset (Flit Time) :=
  ∑ address ∈ config.addresses.toFinset,
    ((sim.network address).accepted : Multiset (Flit Time))

/-- The flits that were injected. -/
def injected : Multiset (Flit Time) :=
  ∑ address ∈ config.addresses.toFinset,
    ((sim.network address).injected : Multiset (Flit Time))

/-- The packets whose last flit was accepted. -/
def finishedPackets : Finset (Addr × Nat) :=
  (((sim.accepted config).filter fun flit => isTail flit.type = true).map
    Flit.packet).toFinset

/-- The number of packets that were injected. -/
def packetCount : Nat :=
  ∑ address ∈ config.addresses.toFinset,
    (sim.network address).packetCounter

end Sim

/-- The accounts of the network. -/
structure AccountInv (config : Config) (sim : Sim Time) : Prop where
  flits :
    ∑ address ∈ config.addresses.toFinset,
        (sim.network address).inside config + flitsOf sim.queue =
      sim.injected config
  finished :
    sim.totalFinished =
      ∑ address ∈ config.addresses.toFinset,
        packetEnds (sim.network address).accepted
  issued : ∀ address, Issued (sim.network address)

section Network

variable {config : Config} {sim next : Sim Time} {address : Addr}
variable {router : Router Time}

/-- A router changes, and what it takes and gives is taken from the queue and
added to it. -/
theorem AccountInv.of_update (inv : AccountInv config sim)
    (listed : address ∈ config.addresses)
    (network : next.network = update sim.network address router)
    {absorbed released rest : Multiset (Flit Time)}
    (flits : router.inside config + released +
        (sim.network address).injected =
      (sim.network address).inside config + router.injected + absorbed)
    (before : flitsOf sim.queue = absorbed + rest)
    (queue : flitsOf next.queue = released + rest)
    (finished : next.totalFinished +
        packetEnds (sim.network address).accepted =
      sim.totalFinished + packetEnds router.accepted)
    (issued : Issued router) : AccountInv config next := by
  have member : address ∈ config.addresses.toFinset :=
    List.mem_toFinset.mpr listed
  refine ⟨?_, ?_, ?_⟩
  · have balance := inv.flits
    unfold Sim.injected at balance ⊢
    rw [before] at balance
    rw [network, queue]
    exact balance_of_exchange
      (sum_exchange (fun router : Router Time => router.inside config)
        sim.network member router)
      (sum_exchange (fun router : Router Time =>
        (router.injected : Multiset (Flit Time))) sim.network member router)
      flits balance
  · have exchanged := sum_exchange
      (fun router : Router Time => packetEnds router.accepted) sim.network
      member router
    have counted := inv.finished
    rw [network]
    omega
  · intro other
    rw [network]
    by_cases same : other = address
    · rw [same, update_self]
      exact issued
    · rw [update_of_ne same]
      exact inv.issued other

/-- Neither the routers nor the flits in flight change. -/
theorem AccountInv.of_queue (inv : AccountInv config sim)
    (network : next.network = sim.network)
    (totalFinished : next.totalFinished = sim.totalFinished)
    (queue : flitsOf next.queue = flitsOf sim.queue) :
    AccountInv config next := by
  refine ⟨?_, ?_, ?_⟩
  · have flits := inv.flits
    unfold Sim.injected at flits ⊢
    rw [network, queue]
    exact flits
  · rw [network, totalFinished]
    exact inv.finished
  · rw [network]
    exact inv.issued

variable [LinearOrder Time] {clock : Clock Time}

theorem flitsOf_enqueueAll (events queue : List (Event Time)) :
    flitsOf (enqueueAll Event.time events queue) =
      flitsOf events + flitsOf queue := by
  unfold flitsOf
  rw [Multiset.coe_add, ← List.filterMap_append]
  exact Multiset.coe_eq_coe.mpr
    ((enqueueAll_perm events queue).filterMap Event.flit)

/-- An event without a flit is added. -/
theorem flitsOf_enqueue {event : Event Time} {queue : List (Event Time)}
    (plain : event.flit = none) :
    flitsOf (enqueue Event.time event queue) = flitsOf queue := by
  unfold flitsOf
  rw [filterMap_enqueue_of_none plain]

omit [LinearOrder Time] in
/-- An event without a flit is removed. -/
theorem flitsOf_cons {event : Event Time} {queue rest : List (Event Time)}
    (first : queue = event :: rest) (plain : event.flit = none) :
    flitsOf rest = flitsOf queue := by
  unfold flitsOf
  rw [first, List.filterMap_cons_none plain]

/-- A router makes a move. -/
theorem AccountInv.work (inv : AccountInv config sim)
    (routerInv : RouterInv config (sim.network address))
    (listed : address ∈ config.addresses) {now : Time} {after : Work Time}
    (move : Move config clock now (sim.work address) after) :
    AccountInv config (sim.absorb address after) := by
  have accounts := move.accounts routerInv rfl
  have flits : after.router.inside config + flitsOf after.emitted +
        (sim.network address).injected =
      (sim.network address).inside config + after.router.injected + 0 := by
    rw [add_zero]
    exact accounts.flits
  exact inv.of_update listed rfl flits (zero_add _).symm
    (flitsOf_enqueueAll after.emitted sim.queue) accounts.finished
    ((inv.issued address).move move)

omit [LinearOrder Time] in
/-- A flit arrives. -/
theorem AccountInv.arrive (inv : AccountInv config sim)
    (listed : address ∈ config.addresses) {time : Time} {src des : Addr}
    {pc v : Nat} {flit : Flit Time} {rest : List (Event Time)}
    (inRange : config.InRange (pc, v)) (outer : pc ≠ 0)
    (queue : sim.queue = ⟨time, .wire src des pc v flit⟩ :: rest)
    (network : next.network = update sim.network address
      (receiveFlit (sim.network address) (pc, v) flit))
    (remaining : next.queue = rest)
    (totalFinished : next.totalFinished = sim.totalFinished) :
    AccountInv config next := by
  have log : (receiveFlit (sim.network address) (pc, v) flit).log =
      (sim.network address).log ++ [.arrived (pc, v) flit] := rfl
  have injected : (receiveFlit (sim.network address) (pc, v)
      flit).injected = (sim.network address).injected := by
    simp [Router.injected, log, Note.injection, outer]
  have accepted : (receiveFlit (sim.network address) (pc, v)
      flit).accepted = (sim.network address).accepted := by
    simp [Router.accepted, log, Note.accepting]
  have pushed : (receiveFlit (sim.network address) (pc, v) flit).buffered
      config = (sim.network address).buffered config + {flit} :=
    buffered_of_push inRange rfl rfl
  have outgoing : (receiveFlit (sim.network address) (pc, v)
      flit).outgoing config = (sim.network address).outgoing config := rfl
  have first : flitsOf sim.queue = {flit} + flitsOf rest := by
    have picked : List.filterMap Event.flit
        (⟨time, .wire src des pc v flit⟩ :: rest) =
          flit :: rest.filterMap Event.flit := rfl
    unfold flitsOf
    rw [queue, picked, ← Multiset.cons_coe, Multiset.singleton_add]
  have last : flitsOf next.queue = 0 + flitsOf rest := by
    rw [remaining, zero_add]
  refine inv.of_update listed network ?_ first last ?_ ?_
  · unfold Router.inside
    rw [injected, accepted, pushed, outgoing]
    abel
  · rw [accepted, totalFinished]
  · exact (inv.issued address).of_same rfl injected rfl

/-- Every move keeps the accounts. -/
theorem AccountInv.move {Allowed : Addr → VC → Prop}
    (inv : AccountInv config sim) (netInv : NetInv config clock sim)
    (move : NetMove config clock Allowed sim next) :
    AccountInv config next := by
  cases move with
  | work address after _ listed move =>
      exact inv.work (netInv.router address) listed move
  | advance | readTrace => exact inv.of_queue rfl rfl rfl
  | read address record rest listed pending admitted =>
      have read : Move config clock sim.currentTime (sim.work address) _ :=
        .read (sim.work address) none record rest pending admitted
      exact inv.work (netInv.router address) listed read
  | announce time => exact inv.of_queue rfl rfl (flitsOf_enqueue rfl)
  | evg time rest _ queue =>
      exact inv.of_queue rfl rfl (flitsOf_cons queue rfl)
  | router time rest _ queue =>
      refine inv.of_queue rfl rfl ?_
      exact (flitsOf_enqueue rfl).trans (flitsOf_cons queue rfl)
  | wire time src des pc vc flit rest address _ queue located inRange =>
      obtain ⟨_, outer, _⟩ :=
        netInv.links.flying ⟨time, .wire src des pc vc flit⟩
          (by rw [queue]; exact List.mem_cons_self) src des pc vc flit rfl
      exact inv.arrive (config.mem_addresses_of_router located) inRange
        outer queue rfl rfl rfl
  | credit time src des pc vc rest address _ queue located _ =>
      have last : flitsOf rest = 0 + flitsOf sim.queue := by
        rw [zero_add]
        exact flitsOf_cons queue rfl
      refine inv.of_update (config.mem_addresses_of_router located) rfl ?_
        (zero_add _).symm last rfl ((inv.issued address).of_same rfl rfl rfl)
      rw [add_zero, add_zero]
      rfl

theorem accountInv_start {time : Time} {trace : List (Record Time)}
    {files : Addr → List (Record Time)} {rng : Rng} :
    AccountInv config (Sim.start config time trace files rng) := by
  have noFlit : flitsOf (Sim.start config time trace files rng).queue =
      0 := by
    refine flitsOf_eq_zero ?_
    intro event member
    simp only [Sim.start, mem_enqueue, List.mem_singleton] at member
    rcases member with rfl | rfl <;> rfl
  have empty : ∀ address, ((Sim.start config time trace files rng).network
      address).inside config = 0 := by
    intro address
    unfold Router.inside Router.buffered Router.outgoing
    simp [Sim.start, Router.start, Router.accepted]
  refine ⟨?_, ?_, ?_⟩
  · unfold Sim.injected
    simp only [empty, noFlit]
    simp [Sim.start, Router.start, Router.injected]
  · simp [Sim.start, Router.start, Router.accepted, packetEnds]
  · intro address
    refine ⟨?_, List.nodup_nil, List.nodup_nil, Nat.zero_le _⟩
    intro flit member
    cases member

omit [LinearOrder Time] in
/-- Every place once: the flits in all places are those injected. -/
theorem AccountInv.places (inv : AccountInv config sim) :
    sim.buffered config + sim.outgoing config + sim.inFlight +
      sim.accepted config = sim.injected config := by
  rw [← inv.flits]
  unfold Sim.buffered Sim.outgoing Sim.accepted Sim.inFlight Router.inside
  rw [Finset.sum_add_distrib, Finset.sum_add_distrib]
  abel

theorem AccountInv.nodup_injected (inv : AccountInv config sim)
    (address : ∀ address, (sim.network address).address = address) :
    (sim.injected config).Nodup := by
  refine nodup_sum_of_key Flit.origin ?_ fun address =>
    Multiset.coe_nodup.mpr (inv.issued address).nodup
  intro other flit member
  rw [((inv.issued other).named flit member).1, address]

omit [LinearOrder Time] in
/-- The packets that end with flits of some routers. -/
theorem packets_of_sum (indices : Finset Addr)
    (flits : Addr → List (Flit Time)) :
    ((∑ address ∈ indices, (flits address : Multiset (Flit Time))).filter
        fun flit => isTail flit.type = true).map Flit.packet =
      ∑ address ∈ indices,
        (((lastFlits (flits address)).map Flit.packet :
          List (Addr × Nat)) : Multiset (Addr × Nat)) := by
  induction indices using Finset.induction_on with
  | empty => rfl
  | insert address rest fresh ih =>
      rw [Finset.sum_insert fresh, Finset.sum_insert fresh,
        Multiset.filter_add, Multiset.map_add, ih,
        Multiset.filter_coe, Multiset.map_coe]
      simp [lastFlits]

omit [LinearOrder Time] in
/-- No packet ends twice. -/
theorem AccountInv.nodup_ends (inv : AccountInv config sim)
    (address : ∀ address, (sim.network address).address = address) :
    (((sim.injected config).filter fun flit => isTail flit.type = true).map
      Flit.packet).Nodup := by
  unfold Sim.injected
  rw [packets_of_sum]
  refine nodup_sum_of_key Prod.fst ?_ fun address =>
    Multiset.coe_nodup.mpr (inv.issued address).ends
  intro other packet member
  obtain ⟨flit, isLast, rfl⟩ := List.mem_map.mp member
  have injected := List.mem_of_mem_filter isLast
  exact ((inv.issued other).named flit injected).1.trans (address other)

omit [LinearOrder Time] in
theorem AccountInv.accepted_le (inv : AccountInv config sim) :
    sim.accepted config ≤ sim.injected config := by
  rw [← inv.places]
  exact Multiset.le_add_left _ _

omit [LinearOrder Time] in
/-- `total_finished_` counts the packets whose last flit was accepted. -/
theorem AccountInv.card_finishedPackets (inv : AccountInv config sim)
    (address : ∀ address, (sim.network address).address = address) :
    sim.totalFinished = (sim.finishedPackets config).card := by
  have nodup : (((sim.accepted config).filter fun flit =>
      isTail flit.type = true).map Flit.packet).Nodup :=
    Multiset.nodup_of_le
      (Multiset.map_le_map (Multiset.filter_le_filter _ inv.accepted_le))
      (inv.nodup_ends address)
  unfold Sim.finishedPackets
  rw [Multiset.toFinset_card_of_nodup nodup, inv.finished]
  unfold Sim.accepted
  rw [packets_of_sum, Multiset.card_sum]
  refine Finset.sum_congr rfl ?_
  intro other _
  rw [Multiset.coe_card, List.length_map]
  exact List.countP_eq_length_filter

omit [LinearOrder Time] in
/-- No more packets are finished than were injected. -/
theorem AccountInv.finished_le (inv : AccountInv config sim) :
    sim.totalFinished ≤ sim.packetCount config := by
  have ends : ∀ flits : Addr → List (Flit Time),
      ∑ address ∈ config.addresses.toFinset,
          (lastFlits (flits address)).length =
        ((∑ address ∈ config.addresses.toFinset,
          (flits address : Multiset (Flit Time))).filter
            fun flit => isTail flit.type = true).card := by
    intro flits
    rw [← Multiset.card_map Flit.packet, packets_of_sum, Multiset.card_sum]
    simp
  have sooner := Multiset.card_le_card
    (Multiset.filter_le_filter (fun flit => isTail flit.type = true)
      inv.accepted_le)
  unfold Sim.accepted Sim.injected at sooner
  rw [← ends, ← ends] at sooner
  calc sim.totalFinished
      = ∑ address ∈ config.addresses.toFinset,
          (lastFlits (sim.network address).accepted).length := by
        rw [inv.finished]
        refine Finset.sum_congr rfl fun other _ => ?_
        exact List.countP_eq_length_filter
    _ ≤ ∑ address ∈ config.addresses.toFinset,
          (lastFlits (sim.network address).injected).length := sooner
    _ ≤ sim.packetCount config :=
        Finset.sum_le_sum fun other _ => (inv.issued other).counted

/-- What a router has accepted was for it. -/
theorem NetInv.accepted_atHome (inv : NetInv config clock sim)
    {flit : Flit Time} (member : flit ∈ (sim.network address).accepted) :
    flit.desAddr = address := by
  obtain ⟨note, logged, isAccepted⟩ := List.mem_filterMap.mp member
  cases note with
  | arrived | granted | passed => cases isAccepted
  | accepted vc other =>
      cases isAccepted
      have atChannel : flit ∈ (sim.network address).acceptedAt vc :=
        List.mem_filterMap.mpr ⟨_, logged, by simp [Note.acceptance]⟩
      rw [((inv.router address).channel vc).atHome flit atChannel,
        inv.address]

/-- Under star mode, in every state of a run that passes flits only to output
ports that get their credits back: every flit that was injected is in exactly
one place and no other flit is anywhere, flits are accepted at their
destinations only, and `total_finished_` counts the packets whose last flit
was accepted. -/
theorem delivery_accounting (star : StarConfig config)
    {simLength time : Time} {trace : List (Record Time)}
    {files : Addr → List (Record Time)} {rng : Rng}
    (reached : Sim.ReachableWhile config clock (Sim.OnLinks config) simLength
      time trace files rng sim) :
    (∀ flit : Flit Time,
      (sim.buffered config).count flit + (sim.outgoing config).count flit +
          sim.inFlight.count flit + (sim.accepted config).count flit =
        if flit ∈ sim.injected config then 1 else 0) ∧
    (∀ address, ∀ flit ∈ (sim.network address).accepted,
      flit.desAddr = address) ∧
    sim.totalFinished = (sim.finishedPackets config).card ∧
    sim.totalFinished ≤ sim.packetCount config := by
  obtain ⟨netInv, inv⟩ : NetInv config clock sim ∧ AccountInv config sim := by
    refine invariant_of_reflTransGen
      (fun sim => NetInv config clock sim ∧ AccountInv config sim) ?_
      ⟨netInv_start, accountInv_start⟩ (netMoves_of_reachable reached).2
    rintro before after ⟨netInv, inv⟩ move
    exact ⟨netInv.move star move, inv.move netInv move⟩
  refine ⟨?_, fun address flit member => netInv.accepted_atHome member,
    inv.card_finishedPackets netInv.address, inv.finished_le⟩
  intro flit
  rw [← Multiset.count_add, ← Multiset.count_add, ← Multiset.count_add,
    inv.places]
  split
  case isTrue member =>
    exact Multiset.count_eq_one_of_mem (inv.nodup_injected netInv.address)
      member
  case isFalse absent => exact Multiset.count_eq_zero.mpr absent

end Network

theorem delivery_accounting_leaf :
    ∃ sim,
      Sim.Reachable starThree popnetClock 100000000000 0 [leafRecord]
        (fun address => [leafRecord].filter (·.sorAddr = address))
        ⟨fun _ => 0, 0⟩ sim ∧
      (sim.network [0, 0, 0, 0]).injected.length = 2 ∧
      ∀ flit : Flit Nat,
        (sim.buffered starThree).count flit +
            (sim.outgoing starThree).count flit + sim.inFlight.count flit +
            (sim.accepted starThree).count flit =
          if flit ∈ sim.injected starThree then 1 else 0 := by
  obtain ⟨sim, reached, _, injected⟩ :=
    exists_of_starRun [leafRecord] [[0, 0, 0, 0]] (fun _ => 0) 8
      (fun sim => (sim.network [0, 0, 0, 0]).injected.length)
      (by decide +kernel) (show _ = Except.ok 2 by decide +kernel)
  exact ⟨sim, reached, injected,
    (delivery_accounting starConfig_starThree
      (onLinks_of_leafFiles starConfig_starThree leafFiles_leafRecord
        reached)).1⟩

/-! ## Packets on a shared port -/

/-- Two packets for another chiplet and, a little later, one for the centre
from the router that shares their port of the centre. -/
def strayRecords : List (Record Nat) :=
  [⟨0, [2, 0, 0, 0], [0, 0, 0, 0], 2⟩, ⟨0, [2, 0, 0, 0], [0, 0, 0, 0], 3⟩,
    ⟨500000000, [1, 2, 0, 0], [2, 2, 0, 0], 2⟩]

/-- The centre accepts a flit that is not for it: the header of the packet
from `(1, 2, 0, 0)` is at home, and the next flit of the channel belongs to a
packet from `(2, 0, 0, 0)`. -/
theorem centre_accepts_stray :
    StarConfig starThree ∧
      ∃ sim,
        Sim.Reachable starThree popnetClock 100000000000 0 strayRecords
          (fun address => strayRecords.filter (·.sorAddr = address))
          ⟨fun k => if k = 3 ∨ k = 4 ∨ k = 6 then 1 else 0, 0⟩ sim ∧
        sim.agenda = [] ∧
        ∃ flit ∈ (sim.network [2, 2, 0, 0]).accepted,
          flit.desAddr ≠ [2, 2, 0, 0] := by
  refine ⟨starConfig_starThree, ?_⟩
  obtain ⟨sim, reached, between, destinations⟩ :=
    exists_of_starRun strayRecords
      [[1, 2, 0, 0], [2, 0, 0, 0], [2, 2, 0, 0]]
      (fun k => if k = 3 ∨ k = 4 ∨ k = 6 then 1 else 0) 70
      (fun sim => (sim.network [2, 2, 0, 0]).accepted.map Flit.desAddr)
      (by decide +kernel)
      (show _ = Except.ok [[2, 2, 0, 0], [0, 0, 0, 0]] by decide +kernel)
  refine ⟨sim, reached, between, ?_⟩
  have member : ([0, 0, 0, 0] : Addr) ∈
      (sim.network [2, 2, 0, 0]).accepted.map Flit.desAddr := by
    rw [destinations]
    decide
  obtain ⟨flit, accepted, destination⟩ := List.mem_map.mp member
  refine ⟨flit, accepted, ?_⟩
  rw [destination]
  decide

end ChipletSniper.Popnet
