import ChipletSniper.Popnet.Assertions
import ChipletSniper.Popnet.LeafTraces
import ChipletSniper.Popnet.Replay

/-!
# Packets do not mix

The flits of a virtual channel, from the buffer of the receiver to the output
buffer of the sender, are a stretch of whole packets, one after the other.
-/

namespace ChipletSniper.Popnet

open Library Relation

variable {Time : Type}

/-! ## Sequences of packets -/

/-- The flits of one packet, as `inject_packet` adds them. -/
def IsPacket (flits : List (Flit Time)) : Prop :=
  ∃ origin a b c d e, 0 < e ∧ flits = packetFlits origin a b c d e

/-- A part of a sequence of whole packets. -/
def Segment (flits : List (Flit Time)) : Prop :=
  ∃ (before after : List (Flit Time)) (packets : List (List (Flit Time))),
    (∀ packet ∈ packets, IsPacket packet) ∧
      before ++ flits ++ after = packets.flatten

/-- The start of a sequence of whole packets. -/
def WholeFromStart (flits : List (Flit Time)) : Prop :=
  ∃ (after : List (Flit Time)) (packets : List (List (Flit Time))),
    (∀ packet ∈ packets, IsPacket packet) ∧
      flits ++ after = packets.flatten

theorem WholeFromStart.segment {before flits after : List (Flit Time)}
    (whole : WholeFromStart (before ++ flits ++ after)) : Segment flits := by
  obtain ⟨rest, packets, arePackets, cut⟩ := whole
  exact ⟨before, after ++ rest, packets, arePackets, by
    rw [← cut]
    simp only [List.append_assoc]⟩

/-- The first `count` flits of a packet that goes on. -/
def openFlits (origin : Addr) (a : Nat) (b c : Addr) (d : Time)
    (count : Nat) : List (Flit Time) :=
  (List.range count).map (packetFlit origin a b c d (count + 1))

/-- The flits of a packet of which `last` is the last one so far. -/
def IsOpen (flits : List (Flit Time)) (last : Flit Time) : Prop :=
  ∃ origin a b c d count,
    flits = openFlits origin a b c d (count + 1) ∧
      last = packetFlit origin a b c d (count + 2) count

section Packets

variable [DecidableEq Time]

theorem framing_snoc_inv {flits : List (Flit Time)} {flit : Flit Time}
    {last : Option (Flit Time)}
    (framed : framing (flits ++ [flit]) = some last) :
    ∃ current, framing flits = some current ∧
      accepts current flit = true ∧
      last = if closes flit then none else some flit := by
  obtain ⟨current, before, step⟩ := exists_progress_of_append framed
  rw [progress_singleton] at step
  obtain ⟨inPlace, result⟩ := accepts_of_advance step
  exact ⟨current, before, inPlace, result⟩

omit [DecidableEq Time] in
/-- The next flit of an open packet. -/
theorem eq_packetFlit {origin : Addr} {a : Nat} {b c : Addr} {d : Time}
    {e l e' : Nat} {flit : Flit Time}
    (next : (packetFlit origin a b c d e l).continues flit)
    (type : flit.type = flitType e' (l + 1)) :
    flit = packetFlit origin a b c d e' (l + 1) := by
  obtain ⟨flitId, sorAddr, desAddr, startTime, itsOrigin, seq⟩ := next
  cases flit
  simp only [packetFlit] at *
  simp_all

omit [DecidableEq Time] in
/-- A packet that has not ended may be longer. -/
theorem openFlits_eq (origin : Addr) (a : Nat) (b c : Addr) (d : Time)
    (count e : Nat) (longer : count < e) :
    openFlits origin a b c d count =
      (List.range count).map (packetFlit origin a b c d e) := by
  unfold openFlits
  refine List.map_congr_left ?_
  intro l member
  rw [List.mem_range] at member
  have type : flitType (count + 1) l = flitType e l := by
    unfold flitType
    split_ifs <;> first | rfl | omega
  simp [packetFlit, type]

omit [DecidableEq Time] in
theorem arePackets_snoc {packets : List (List (Flit Time))}
    {packet : List (Flit Time)}
    (arePackets : ∀ packet ∈ packets, IsPacket packet)
    (isPacket : IsPacket packet) :
    ∀ other ∈ packets ++ [packet], IsPacket other := by
  intro other member
  rcases List.mem_append.mp member with old | new
  · exact arePackets other old
  · rw [List.mem_singleton] at new
    exact new ▸ isPacket

/-- A framed sequence is a sequence of whole packets and the start of one. -/
theorem exists_packets {flits : List (Flit Time)} :
    ∀ {last : Option (Flit Time)}, framing flits = some last →
      ∃ packets : List (List (Flit Time)),
        (∀ packet ∈ packets, IsPacket packet) ∧
          ((last = none ∧ flits = packets.flatten) ∨
            ∃ rest flit, last = some flit ∧ IsOpen rest flit ∧
              flits = packets.flatten ++ rest) := by
  induction flits using List.reverseRecOn with
  | nil =>
      intro last framed
      cases framed
      exact ⟨[], (fun _ member => by cases member), Or.inl ⟨rfl, rfl⟩⟩
  | append_singleton front flit ih =>
      intro last framed
      obtain ⟨current, before, inPlace, rfl⟩ := framing_snoc_inv framed
      obtain ⟨packets, arePackets, shape⟩ := ih before
      rcases shape with ⟨rfl, rfl⟩ | ⟨rest, previous, rfl, isOpen, rfl⟩
      · -- a packet starts
        simp only [accepts, Bool.and_eq_true, beq_iff_eq] at inPlace
        obtain ⟨header, first⟩ := inPlace
        have same : ∀ e, flit.type = flitType e 0 →
            flit = packetFlit flit.origin flit.flitId flit.sorAddr
              flit.desAddr flit.startTime e 0 := by
          intro e type
          cases flit
          simp_all [packetFlit]
        cases type : flit.type with
        | header =>
            refine ⟨packets, arePackets, Or.inr ⟨[flit], flit, ?_, ?_, rfl⟩⟩
            · simp [closes, type, isTail]
            · refine ⟨flit.origin, flit.flitId, flit.sorAddr, flit.desAddr,
                flit.startTime, 0, ?_, same 2 type⟩
              rw [openFlits, List.range_one, List.map_singleton,
                ← same 2 type]
        | single =>
            refine ⟨packets ++ [[flit]], ?_, Or.inl ⟨?_, by simp⟩⟩
            · refine arePackets_snoc arePackets ⟨flit.origin, flit.flitId,
                flit.sorAddr, flit.desAddr, flit.startTime, 1, Nat.one_pos,
                ?_⟩
              rw [packetFlits, List.range_one, List.map_singleton,
                ← same 1 type]
            · simp [closes, type, isTail]
        | body | tail =>
            rw [type] at header
            cases header
      · -- the packet goes on
        obtain ⟨further, next⟩ : isHeader flit.type = false ∧
            previous.continues flit := by
          simpa [accepts] using inPlace
        obtain ⟨origin, a, b, c, d, count, rfl, rfl⟩ := isOpen
        cases type : flit.type with
        | body =>
            have same : flit = packetFlit origin a b c d (count + 3)
                (count + 1) :=
              eq_packetFlit next (by
                rw [type]
                simp [flitType])
            refine ⟨packets, arePackets,
              Or.inr ⟨openFlits origin a b c d (count + 1) ++ [flit], flit,
                ?_, ⟨origin, a, b, c, d, count + 1, ?_, same⟩, ?_⟩⟩
            · simp [closes, type, isTail]
            · rw [openFlits_eq origin a b c d (count + 1) (count + 3)
                (by omega), openFlits, List.range_succ (n := count + 1),
                List.map_append, List.map_singleton, ← same]
            · rw [List.append_assoc]
        | tail =>
            have same : flit = packetFlit origin a b c d (count + 2)
                (count + 1) :=
              eq_packetFlit next (by
                rw [type]
                simp [flitType])
            refine ⟨packets ++ [openFlits origin a b c d (count + 1) ++
              [flit]], ?_, Or.inl ⟨?_, by simp⟩⟩
            · refine arePackets_snoc arePackets
                ⟨origin, a, b, c, d, count + 2, by omega, ?_⟩
              rw [packetFlits, List.range_succ (n := count + 1),
                List.map_append, List.map_singleton, ← same, openFlits]
            · simp [closes, type, isTail]
        | header | single =>
            rw [type] at further
            cases further

/-- A framed sequence can be continued to a sequence of whole packets. -/
theorem wholeFromStart_of_framing {flits : List (Flit Time)}
    {last : Option (Flit Time)} (framed : framing flits = some last) :
    WholeFromStart flits := by
  obtain ⟨packets, arePackets, shape⟩ := exists_packets framed
  rcases shape with ⟨_, rfl⟩ | ⟨rest, flit, _, isOpen, rfl⟩
  · exact ⟨[], packets, arePackets, List.append_nil _⟩
  · obtain ⟨origin, a, b, c, d, count, rfl, _⟩ := isOpen
    refine ⟨[packetFlit origin a b c d (count + 2) (count + 1)],
      packets ++ [packetFlits origin a b c d (count + 2)], ?_, ?_⟩
    · exact arePackets_snoc arePackets
        ⟨origin, a, b, c, d, count + 2, by omega, rfl⟩
    · simp [packetFlits, openFlits, List.range_succ]

end Packets

/-! ## Channels of the network -/

section Channels

variable [LinearOrder Time] {config : Config} {clock : Clock Time}
variable {sim : Sim Time}

/-- The flits that a router buffers are a part of those that arrived. -/
theorem RouterInv.segment_buffer {router : Router Time}
    (inv : RouterInv config router) (vc : VC) :
    Segment (router.input vc).buffer := by
  have ok := inv.channel vc
  obtain ⟨last, framed⟩ := ok.framed
  rw [ok.history] at framed
  have whole := wholeFromStart_of_framing framed
  rw [← List.append_nil (router.departed vc ++ (router.input vc).buffer)]
    at whole
  exact whole.segment

/-- The flits on the way to an input channel follow those in its buffer. -/
theorem NetInv.segment_link (inv : NetInv config clock sim) (address : Addr)
    (vc : VC) (outer : vc.1 ≠ 0)
    (proper : Proper config.arySize (address, vc.1)) :
    ∃ before,
      WholeFromStart
        (before ++
          (((sim.network address).input vc).buffer ++
            sim.wires address vc ++
            sim.waiting config.arySize address vc)) := by
  have sent := (inv.router
    (linkedRouter config.arySize address vc.1)).sent
      (linkedPort config.arySize address vc.1, vc.2)
  have whole := wholeFromStart_of_framing sent
  have history := inv.links.fifo address vc outer proper
  unfold Sim.passedOver at history
  rw [history, ((inv.router address).channel vc).history] at whole
  simp only [List.append_assoc] at whole ⊢
  exact ⟨_, whole⟩

/-- An output port that does not belong to a link is never used. -/
theorem NetInv.tagged_of_improper (inv : NetInv config clock sim)
    {address : Addr} {p v : Nat}
    (improper : ¬ IsLink config.arySize (address, p)) :
    ((sim.network address).port p).tagged v = [] := by
  obtain ⟨sent, history⟩ := (inv.switch address).tagged (p, v)
  cases tagged : ((sim.network address).port p).tagged v with
  | nil => rfl
  | cons flit rest =>
      have passed : flit ∈ (sim.network address).passedTo (p, v) := by
        rw [history, tagged]
        exact List.mem_append_right _ List.mem_cons_self
      exact absurd (inv.links.passed address (p, v) flit passed).1 improper

omit [LinearOrder Time] in
/-- No flit is on its way to a port that is not the end of a link. -/
theorem LinkInv.wires_of_improper (inv : LinkInv config sim)
    (address : Addr) (vc : VC)
    (improper : ¬ (Proper config.arySize (address, vc.1) ∧ vc.1 ≠ 0)) :
    sim.wires address vc = [] := by
  unfold Sim.wires
  rw [List.filterMap_eq_nil_iff]
  intro event member
  unfold Event.wireTo
  split
  case h_2 => rfl
  case h_1 src des pc v flit isWire =>
    rw [if_neg]
    rintro ⟨rfl, rfl, _⟩
    obtain ⟨proper, outer, _⟩ :=
      inv.flying event member src des vc.1 v flit isWire
    exact improper ⟨proper, outer⟩

/-- Whatever port of a router one looks at, the flits in the buffer behind it,
in flight and in the output buffer are a stretch of whole packets. -/
theorem NetInv.segment (inv : NetInv config clock sim) (address : Addr)
    (p v : Nat) :
    Segment
      (((sim.network (getNextAddress config.arySize address p)).input
          (getWirePc config.arySize address p, v)).buffer ++
        sim.wires (getNextAddress config.arySize address p)
          (getWirePc config.arySize address p, v) ++
        ((sim.network address).port p).tagged v) := by
  change Segment
    (((sim.network (linkedRouter config.arySize address p)).input
        (linkedPort config.arySize address p, v)).buffer ++
      sim.wires (linkedRouter config.arySize address p)
        (linkedPort config.arySize address p, v) ++
      ((sim.network address).port p).tagged v)
  by_cases used : Proper config.arySize (address, p) ∧
      linkedPort config.arySize address p ≠ 0
  · obtain ⟨proper, outer⟩ := used
    obtain ⟨before, whole⟩ :=
      inv.segment_link (linkedRouter config.arySize address p)
        (linkedPort config.arySize address p, v) outer proper.linked
    have back : linkedRouter config.arySize
        (linkedRouter config.arySize address p)
        (linkedPort config.arySize address p) = address :=
      congrArg Prod.fst proper
    have backPort : linkedPort config.arySize
        (linkedRouter config.arySize address p)
        (linkedPort config.arySize address p) = p :=
      congrArg Prod.snd proper
    unfold Sim.waiting at whole
    simp only [back, backPort] at whole
    rw [← List.append_nil (before ++ _)] at whole
    exact whole.segment
  · rw [inv.tagged_of_improper used, List.append_nil]
    by_cases fed : Proper config.arySize
        (linkedRouter config.arySize address p,
          linkedPort config.arySize address p) ∧
        linkedPort config.arySize address p ≠ 0
    · obtain ⟨before, whole⟩ :=
        inv.segment_link (linkedRouter config.arySize address p)
          (linkedPort config.arySize address p, v) fed.2 fed.1
      rw [← List.append_assoc before] at whole
      exact whole.segment
    · rw [inv.links.wires_of_improper (linkedRouter config.arySize address p)
        (linkedPort config.arySize address p, v) fed, List.append_nil]
      exact (inv.router (linkedRouter config.arySize address p)
        ).segment_buffer (linkedPort config.arySize address p, v)

/-- How the handling of an event fails. -/
theorem receive_error {mess : Mess Time} {halt : Halt}
    (failed : sim.receive config clock mess = .error halt) :
    halt = .endOfTrace ∨ halt = .wrongAddress ∨ halt = .outOfRange := by
  have missing : ∀ {des : Addr}, config.router des = .error halt →
      halt = .outOfRange := by
    intro des absent
    unfold Config.router at absent
    dsimp only at absent
    split at absent
    · cases absent
    · cases absent
      rfl
  cases mess with
  | router => cases failed
  | evg =>
      unfold Sim.receive Sim.receiveEVGMessage at failed
      dsimp only at failed
      split at failed
      case h_1 =>
        cases failed
        exact Or.inl rfl
      case h_2 record rest _ =>
      rcases bind_eq_error.mp failed with absent | ⟨address, _, failed⟩
      · exact Or.inr (Or.inr (missing absent))
      · rcases bind_eq_error.mp failed with packets | ⟨router, _, failed⟩
        · exact Or.inr (receiveRecords_error packets)
        · split at failed <;> cases failed
  | wire _ des pc vc flit | credit _ des pc vc =>
      rcases bind_eq_error.mp failed with absent | ⟨address, _, failed⟩
      · exact Or.inr (Or.inr (missing absent))
      · split at failed
        · cases failed
        · cases failed
          exact Or.inr (Or.inr rfl)

/-- No step fails an assertion about flits. -/
theorem NetInv.step_ne (inv : NetInv config clock sim)
    (ready : sim.Ready config) {halt : Halt}
    (assertion : halt.isFlitAssertion = true) (simLength : Time) :
    sim.step config clock simLength ≠ .error halt := by
  intro failed
  unfold Sim.step at failed
  split at failed
  case h_2 address rest agenda =>
    cases ran : sim.stage.run config clock sim.currentTime
        (sim.work address) with
    | ok work =>
        rw [ran] at failed
        cases failed
    | error other =>
        rw [ran] at failed
        cases failed
        refine (inv.router address).stage_ne assertion ?_ ran
        exact fun atSwitch => ready.free atSwitch address (by simp [agenda])
  case h_1 =>
    unfold Sim.handle at failed
    split at failed
    case h_1 =>
      cases failed
      cases assertion
    case h_2 event rest _ =>
    split_ifs at failed
    · cases failed
      cases assertion
    · cases failed
      cases assertion
    · rcases receive_error failed with rfl | rfl | rfl <;> cases assertion

/-- Under star mode, in every state of a run that passes flits only to output
ports that get their credits back: on every channel behind an output port the
flits form a stretch of whole packets, no assertion about flits fails in the
next step, and what a router has accepted from a channel starts a sequence of
whole packets. -/
theorem wormhole_framing (star : StarConfig config)
    {simLength time : Time} {trace : List (Record Time)}
    {files : Addr → List (Record Time)} {rng : Rng}
    (reached : Sim.ReachableWhile config clock (Sim.OnLinks config) simLength
      time trace files rng sim) :
    (∀ (address : Addr) (p v : Nat), 1 ≤ p →
      Segment
        (((sim.network (getNextAddress config.arySize address p)).input
            (getWirePc config.arySize address p, v)).buffer ++
          sim.wires (getNextAddress config.arySize address p)
            (getWirePc config.arySize address p, v) ++
          ((sim.network address).port p).tagged v)) ∧
    (∀ halt : Halt, halt.isFlitAssertion = true →
      sim.step config clock simLength ≠ .error halt) ∧
    (∀ (address : Addr) (vc : VC),
      WholeFromStart ((sim.network address).acceptedAt vc)) := by
  have inv : NetInv config clock sim := netInv_of_reachable star reached
  have ready := (netMoves_of_reachable reached).1
  refine ⟨?_, ?_, ?_⟩
  · intro address p v _
    exact inv.segment address p v
  · intro halt assertion
    exact inv.step_ne ready assertion simLength
  · intro address vc
    exact wholeFromStart_of_framing
      ((inv.router address).channel vc).accepted

end Channels

theorem starConfig_starThree : StarConfig starThree :=
  ⟨rfl, rfl, by decide, by decide, by decide, by decide⟩

/-- The trace with one leaf packet. -/
theorem leafFiles_leafRecord :
    LeafFiles starThree.arySize
      (fun address => [leafRecord].filter (·.sorAddr = address)) := by
  intro address record member
  obtain ⟨listed, source⟩ := List.mem_filter.mp member
  rw [List.mem_singleton] at listed
  subst listed
  exact ⟨by simpa using source, ⟨by decide, by decide⟩,
    ⟨by decide, by decide⟩⟩

/-- What a run of the small star shows, as far as it can be observed. -/
theorem exists_of_starRun {Value : Type} (records : List (Record Nat))
    (active : List Addr) (draws : Nat → Nat) (count : Nat)
    (observe : Sim Nat → Value) {value : Value}
    (listed : starThree.addresses.filter (active.contains ·) = active)
    (observed : (starRun records active draws count).map observe =
      .ok value) :
    ∃ sim,
      Sim.Reachable starThree popnetClock 100000000000 0 records
        (fun address => records.filter (·.sorAddr = address)) ⟨draws, 0⟩
        sim ∧
      sim.agenda = [] ∧ observe sim = value := by
  cases run : starRun records active draws count with
  | error _ =>
      rw [run] at observed
      cases observed
  | ok sim =>
      rw [run] at observed
      cases observed
      obtain ⟨reached, between⟩ := reachable_of_starRun listed run
      exact ⟨sim, reached, between, rfl⟩

/-- The flits behind a port of a router of the small star. -/
def flitsBehind (address : Addr) (p v : Nat) (sim : Sim Nat) :
    List (Flit Nat) :=
  ((sim.network (getNextAddress starThree.arySize address p)).input
      (getWirePc starThree.arySize address p, v)).buffer ++
    sim.wires (getNextAddress starThree.arySize address p)
      (getWirePc starThree.arySize address p, v) ++
    ((sim.network address).port p).tagged v

theorem wormhole_framing_leaf :
    ∃ sim,
      Sim.Reachable starThree popnetClock 100000000000 0 [leafRecord]
        (fun address => [leafRecord].filter (·.sorAddr = address))
        ⟨fun _ => 0, 0⟩ sim ∧
      (flitsBehind [0, 0, 0, 0] 9 0 sim).map Flit.type = [.header, .tail] ∧
      Segment (flitsBehind [0, 0, 0, 0] 9 0 sim) := by
  obtain ⟨sim, reached, _, types⟩ :=
    exists_of_starRun [leafRecord] [[0, 0, 0, 0]] (fun _ => 0) 8
      (fun sim => (flitsBehind [0, 0, 0, 0] 9 0 sim).map Flit.type)
      (by decide +kernel)
      (show _ = Except.ok [FlitType.header, .tail] by decide +kernel)
  exact ⟨sim, reached, types,
    (wormhole_framing starConfig_starThree
      (onLinks_of_leafFiles starConfig_starThree leafFiles_leafRecord
        reached)).1 [0, 0, 0, 0] 9 0 (by decide)⟩

/-! ## Packets of other chiplets -/

/-- Whole packets are framed. -/
theorem framing_flatten {packets : List (List (Flit Time))}
    [DecidableEq Time] (arePackets : ∀ packet ∈ packets, IsPacket packet) :
    framing packets.flatten = some none := by
  induction packets with
  | nil => rfl
  | cons packet rest ih =>
      obtain ⟨origin, a, b, c, d, e, _, rfl⟩ :=
        arePackets packet List.mem_cons_self
      have first : framing (packetFlits origin a b c d e) = some none :=
        framing_packetFlits origin a b c d e
      have later := ih fun other member =>
        arePackets other (List.mem_cons_of_mem _ member)
      unfold framing at first later ⊢
      rw [List.flatten_cons, progress_append, first]
      exact later

/-- No header follows the header of a longer packet. -/
theorem Segment.not_header_header [DecidableEq Time]
    {first second : Flit Time} {rest : List (Flit Time)}
    (segment : Segment (first :: second :: rest))
    (header : first.type = .header) : isHeader second.type = false := by
  obtain ⟨before, after, packets, arePackets, cut⟩ := segment
  have framed := framing_flatten arePackets
  rw [← cut, List.append_assoc] at framed
  obtain ⟨middle, _, remaining⟩ := exists_progress_of_append framed
  obtain ⟨current, start, _⟩ :=
    exists_progress_of_append
      (show progress accepts closes middle
        ([first] ++ (second :: rest ++ after)) = some none from remaining)
  obtain ⟨next, step, _⟩ :=
    advance_of_progress
      (show progress accepts closes middle
        ([first] ++ second :: (rest ++ after)) = some none from remaining)
      start
  rw [progress_singleton] at start
  have opened := (accepts_of_advance start).2
  have open_ : closes first = false := by simp [closes, header, isTail]
  rw [opened, open_] at step
  have inPlace := (accepts_of_advance step).1
  simp only [Bool.false_eq_true, if_false, accepts, Bool.and_eq_true,
    Bool.not_eq_true'] at inPlace
  exact inPlace.1

/-- Two packets from the last chiplet column and the last chiplet row. -/
def edgeRecords : List (Record Nat) :=
  [⟨0, [1, 2, 0, 0], [0, 0, 0, 0], 2⟩, ⟨0, [2, 0, 0, 0], [0, 0, 0, 0], 2⟩]

/-- Packets interleave where an output port does not get its credits back: the
routers `(1, 2, 0, 0)` and `(2, 0, 0, 0)` both send to port `5` of the centre,
on the same virtual channel. -/
theorem packets_interleave :
    StarConfig starThree ∧
      (∀ record ∈ edgeRecords, 1 ≤ record.packSize) ∧
      ∃ sim,
        Sim.Reachable starThree popnetClock 100000000000 0 edgeRecords
          (fun address => edgeRecords.filter (·.sorAddr = address))
          ⟨fun _ => 0, 0⟩ sim ∧
        sim.agenda = [] ∧
        ¬ Segment (flitsBehind [1, 2, 0, 0] 9 0 sim) := by
  refine ⟨⟨rfl, rfl, by decide, by decide, by decide, by decide⟩,
    by decide, ?_⟩
  obtain ⟨sim, reached, between, types⟩ :=
    exists_of_starRun edgeRecords [[1, 2, 0, 0], [2, 0, 0, 0]] (fun _ => 0) 9
      (fun sim => (flitsBehind [1, 2, 0, 0] 9 0 sim).map Flit.type)
      (by decide +kernel)
      (show _ = Except.ok [FlitType.header, .header, .tail, .tail] by
        decide +kernel)
  refine ⟨sim, reached, between, ?_⟩
  intro segment
  obtain ⟨first, others, flits, isHeader, remaining⟩ :=
    List.map_eq_cons_iff.mp types
  obtain ⟨second, rest, rfl, isSecond, _⟩ :=
    List.map_eq_cons_iff.mp remaining
  rw [flits] at segment
  have follows := segment.not_header_header isHeader
  rw [isSecond] at follows
  cases follows

end ChipletSniper.Popnet
