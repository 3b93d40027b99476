import Mathlib.Logic.Relation
import ChipletSniper.Library.Runs
import ChipletSniper.Interchiplet.HubConservation
import ChipletSniper.Interchiplet.System

/-!
# Every connection is a queue

A datum crosses the relay of its sender, the hub, the relay of its receiver
and the lists of the receiving recorder.  All these channels together form one
pipeline from a sender to a receiver, and the messages of one connection never
overtake each other in it.  The recorder then sorts what it fetches into the
buffers of its ports.
-/

namespace ChipletSniper.Interchiplet

open Function

/-! ## The recorder against what it fetched -/

/-- The buffers hold, in order, what was fetched and not yet returned. -/
structure Classified (recorder : Recorder) (fetched : List SMsg)
    (returned : Int → List (Option Int)) : Prop where
  keyed : ∀ port conn, recorder.bufMap port = some conn →
    conn.localAddr = recorder.subnetId ∧ conn.localPort = port
  opened : ∀ port conn, recorder.bufMap port = some conn →
    ∃ taken : List SMsg,
      returned port = taken.map (fun msg => some msg.datum) ∧
        taken ++ conn.msgs = fetched.filter (isCorrectMsg conn)
  unopened : ∀ port, recorder.bufMap port = none → returned port = []
  waiting : ∀ conn : SConnection, conn.localAddr = recorder.subnetId →
    recorder.bufMap conn.localPort = none →
    recorder.notClassifiedMsg.filter (isCorrectMsg conn) =
      fetched.filter (isCorrectMsg conn)

namespace Classified

variable {recorder : Recorder} {fetched : List SMsg}
variable {returned : Int → List (Option Int)}

theorem start (subnetId : Int) :
    Classified (Recorder.start subnetId) [] (fun _ => []) where
  keyed := fun _ _ isOpen => by cases isOpen
  opened := fun _ _ isOpen => by cases isOpen
  unopened := fun _ _ => rfl
  waiting := fun _ _ _ => rfl

/-- One port gets a new buffer; what concerns the other ports stays. -/
theorem replace (classified : Classified recorder fetched returned)
    {port : Int} {conn : SConnection} {unclassified fetched' : List SMsg}
    {returned' : Int → List (Option Int)}
    (keyed : conn.localAddr = recorder.subnetId ∧ conn.localPort = port)
    (opened : ∃ taken : List SMsg,
      returned' port = taken.map (fun msg => some msg.datum) ∧
        taken ++ conn.msgs = fetched'.filter (isCorrectMsg conn))
    (sameReturned : ∀ other, other ≠ port → returned' other = returned other)
    (sameFetched : ∀ other : SConnection, other.localPort ≠ port →
      fetched'.filter (isCorrectMsg other) =
        fetched.filter (isCorrectMsg other))
    (sameWaiting : ∀ other : SConnection, other.localPort ≠ port →
      unclassified.filter (isCorrectMsg other) =
        recorder.notClassifiedMsg.filter (isCorrectMsg other)) :
    Classified
      { recorder with
        bufMap := update recorder.bufMap port (some conn)
        notClassifiedMsg := unclassified }
      fetched' returned' := by
  refine ⟨?_, ?_, ?_, ?_⟩
  · intro other found lookup
    by_cases same : other = port
    · subst same
      simp only [update_self, Option.some.injEq] at lookup
      exact lookup ▸ keyed
    · simp only [update_of_ne same] at lookup
      exact classified.keyed other found lookup
  · intro other found lookup
    by_cases same : other = port
    · subst same
      simp only [update_self, Option.some.injEq] at lookup
      exact lookup ▸ opened
    · simp only [update_of_ne same] at lookup
      have itsPort : found.localPort ≠ port :=
        (classified.keyed other found lookup).2 ▸ same
      rw [sameReturned other same, sameFetched found itsPort]
      exact classified.opened other found lookup
  · intro other lookup
    by_cases same : other = port
    · subst same
      simp at lookup
    · simp only [update_of_ne same] at lookup
      rw [sameReturned other same]
      exact classified.unopened other lookup
  · intro other atHome lookup
    by_cases same : other.localPort = port
    · simp [same] at lookup
    · simp only [update_of_ne same] at lookup
      rw [sameWaiting other same, sameFetched other same]
      exact classified.waiting other atHome lookup

theorem connectInter (classified : Classified recorder fetched returned)
    (localPort remoteAddr remotePort : Int) :
    Classified (recorder.connectInter localPort remoteAddr remotePort).2
      fetched returned := by
  cases isOpen : recorder.bufMap localPort with
  | some conn =>
      simpa only [Recorder.connectInter, isOpen] using classified
  | none =>
      simp only [Recorder.connectInter, isOpen]
      refine classified.replace ⟨rfl, rfl⟩ ?_ (fun _ _ => rfl)
        (fun _ _ => rfl) ?_
      · -- the new buffer takes over what waited for it
        refine ⟨[], classified.unopened localPort isOpen, ?_⟩
        exact classified.waiting
          ⟨recorder.subnetId, localPort, remoteAddr, remotePort, []⟩
          rfl isOpen
      · -- a message of another port stays where it is
        intro other different
        rw [List.filter_filter]
        apply List.filter_congr
        intro msg _
        cases mine : isCorrectMsg other msg with
        | false => rfl
        | true =>
            have port := ((isCorrectMsg_iff _ _).mp mine).2.1
            simp only [Bool.true_and, Bool.not_eq_true', Bool.eq_false_iff]
            intro accepted
            exact different
              (port.trans ((isCorrectMsg_iff _ _).mp accepted).2.1.symm)

/-- The end of `readMsg` on a buffer that is not empty. -/
theorem popFront (classified : Classified recorder fetched returned)
    {localPort : Int} {conn : SConnection}
    (lookup : recorder.bufMap localPort = some conn)
    (nonempty : conn.msgs ≠ []) :
    Classified (recorder.popFront localPort conn).2 fetched
      (update returned localPort
        (returned localPort ++ [(recorder.popFront localPort conn).1])) := by
  obtain ⟨front, rest, shape⟩ := List.exists_cons_of_ne_nil nonempty
  obtain ⟨taken, history, order⟩ := classified.opened localPort conn lookup
  simp only [Recorder.popFront, shape, List.head?_cons, Option.map_some,
    List.tail_cons]
  refine classified.replace (classified.keyed localPort conn lookup) ?_
    (fun other different => update_of_ne different _ _)
    (fun _ _ => rfl) (fun _ _ => rfl)
  refine ⟨taken ++ [front], ?_, ?_⟩
  · simp [history]
  · rw [List.append_assoc, List.singleton_append, ← shape]
    exact order

/-- A message that the buffer of its port does not accept is put aside. -/
theorem putAside (classified : Classified recorder fetched returned)
    {msg : SMsg}
    (refused : ∀ conn, recorder.bufMap msg.desPort = some conn →
      isCorrectMsg conn msg = false) :
    Classified
      { recorder with
        notClassifiedMsg := recorder.notClassifiedMsg ++ [msg] }
      (fetched ++ [msg]) returned := by
  refine ⟨classified.keyed, ?_, classified.unopened, ?_⟩
  · intro port conn lookup
    obtain ⟨taken, history, order⟩ := classified.opened port conn lookup
    refine ⟨taken, history, ?_⟩
    have foreign : isCorrectMsg conn msg = false := by
      rw [Bool.eq_false_iff]
      intro accepted
      have itsPort : msg.desPort = port := by
        rw [← (classified.keyed port conn lookup).2]
        exact ((isCorrectMsg_iff _ _).mp accepted).2.1.symm
      rw [refused conn (itsPort ▸ lookup)] at accepted
      cases accepted
    simp [List.filter_append, foreign, order]
  · intro conn atHome lookup
    rw [List.filter_append, List.filter_append,
      classified.waiting conn atHome lookup]

/-- A fetched message goes to the buffer of its connection, or to the messages
that wait for their connection to be opened. -/
theorem classify (classified : Classified recorder fetched returned)
    (msg : SMsg) :
    Classified (recorder.classify msg) (fetched ++ [msg]) returned := by
  unfold Recorder.classify
  split
  case h_1 conn lookup =>
    split
    case isTrue accepted =>
      obtain ⟨taken, history, order⟩ :=
        classified.opened msg.desPort conn lookup
      refine classified.replace (classified.keyed _ conn lookup) ?_
        (fun _ _ => rfl) ?_ (fun _ _ => rfl)
      · refine ⟨taken, history, ?_⟩
        rw [isCorrectMsg_withMsgs, List.filter_append, ← order]
        simp [accepted]
      · intro other different
        have foreign : isCorrectMsg other msg = false := by
          rw [Bool.eq_false_iff]
          intro mine
          exact different ((isCorrectMsg_iff _ _).mp mine).2.1
        simp [List.filter_append, foreign]
    case isFalse refused =>
      apply classified.putAside
      intro other found
      rw [lookup, Option.some.injEq] at found
      exact found ▸ Bool.eq_false_iff.mpr refused
  case h_2 lookup =>
    apply classified.putAside
    intro other found
    rw [lookup] at found
    cases found

/-- A message for another chiplet belongs to no connection of this one. -/
theorem skip (classified : Classified recorder fetched returned)
    {msg : SMsg} (elsewhere : msg.desAddr ≠ recorder.subnetId) :
    Classified recorder (fetched ++ [msg]) returned := by
  have unchanged : ∀ conn : SConnection,
      conn.localAddr = recorder.subnetId →
      (fetched ++ [msg]).filter (isCorrectMsg conn) =
        fetched.filter (isCorrectMsg conn) := by
    intro conn atHome
    have foreign : isCorrectMsg conn msg = false := by
      rw [Bool.eq_false_iff]
      intro mine
      exact elsewhere (((isCorrectMsg_iff _ _).mp mine).1 ▸ atHome)
    simp [List.filter_append, foreign]
  refine ⟨classified.keyed, ?_, classified.unopened, ?_⟩
  · intro port conn lookup
    rw [unchanged conn (classified.keyed port conn lookup).1]
    exact classified.opened port conn lookup
  · intro conn atHome lookup
    rw [unchanged conn atHome]
    exact classified.waiting conn atHome lookup

end Classified

/-! ## The steps of a chiplet -/

/-- The next turn of `readMsgUntil` does not end the loop with a message that
the port does not accept. -/
def Chiplet.clean (chiplet : Chiplet) : Bool :=
  match chiplet.call, chiplet.toRecorder with
  | .reading port, .message msg :: _ =>
      match chiplet.recorder.bufMap port with
      | some conn => msg.desPort != port || isCorrectMsg conn msg
      | none => true
  | _, _ => true

/-- The buffers agree with the histories, and a call that waits reads an empty
buffer. -/
structure Chiplet.Settled (chiplet : Chiplet) : Prop where
  classified :
    Classified chiplet.recorder chiplet.fetched chiplet.returned
  reading : ∀ port, chiplet.call = .reading port →
    ∃ conn, chiplet.recorder.bufMap port = some conn ∧ conn.msgs = []

namespace Chiplet

variable {chiplet next : Chiplet}

theorem Settled.finishRead (settled : Settled chiplet)
    {localPort : Int} {conn : SConnection}
    (lookup : chiplet.recorder.bufMap localPort = some conn)
    (nonempty : conn.msgs ≠ []) :
    Settled (chiplet.finishRead localPort conn) where
  classified := settled.classified.popFront lookup nonempty
  reading := fun _ busy => by cases busy

theorem Settled.receiveMessage (settled : Settled chiplet)
    {localPort : Int}
    (step : chiplet.receiveMessage localPort = some next) :
    Settled next := by
  unfold Chiplet.receiveMessage at step
  split at step
  case isFalse => cases step
  case isTrue idle =>
    split at step
    case h_1 =>
      cases step
      exact settled
    case h_2 conn lookup =>
      split at step
      case isTrue empty =>
        cases step
        refine ⟨settled.classified, ?_⟩
        intro port busy
        cases busy
        exact ⟨conn, lookup, empty⟩
      case isFalse nonempty =>
        cases step
        exact settled.finishRead lookup nonempty

theorem accepted_of_clean (clean : chiplet.clean = true)
    {port : Int} {msg : SMsg} {rest : List Reply} {conn : SConnection}
    (busy : chiplet.call = .reading port)
    (arrived : chiplet.toRecorder = .message msg :: rest)
    (lookup : chiplet.recorder.bufMap port = some conn)
    (mine : msg.desPort = port) :
    isCorrectMsg conn msg = true := by
  simpa [Chiplet.clean, busy, arrived, lookup, mine] using clean

theorem Settled.fetch (settled : Settled chiplet)
    (clean : chiplet.clean = true)
    (step : chiplet.fetch = some next) :
    Settled next := by
  unfold Chiplet.fetch at step
  split at step
  case h_2 => cases step
  case h_1 localPort msg rest busy arrived =>
  obtain ⟨conn, lookup, empty⟩ := settled.reading localPort busy
  have sorted := settled.classified.classify msg
  split at step
  case isFalse elsewhere =>
    cases step
    refine ⟨settled.classified.skip elsewhere, ?_⟩
    intro port still
    rw [busy] at still
    cases still
    exact ⟨conn, lookup, empty⟩
  case isTrue arrivedHome =>
  split at step
  case isTrue mine =>
    -- the message is accepted, so its buffer is not empty
    have accepted := accepted_of_clean clean busy arrived lookup mine
    have filled :
        (chiplet.recorder.classify msg).bufMap localPort =
          some { conn with msgs := [msg] } := by
      unfold Recorder.classify
      simp [mine, lookup, accepted, empty]
    simp only [filled, Option.map_some, Option.some.injEq] at step
    rw [← step]
    exact ⟨sorted.popFront filled (by simp), fun _ busy => by cases busy⟩
  case isFalse other =>
    cases step
    refine ⟨sorted, ?_⟩
    intro port still
    rw [busy] at still
    cases still
    refine ⟨conn, ?_, empty⟩
    unfold Recorder.classify
    split
    · split
      · simpa only [update_of_ne (Ne.symm other)] using lookup
      · exact lookup
    · exact lookup

/-- A step of a chiplet keeps its buffers in agreement with the histories. -/
theorem Settled.perform (settled : Settled chiplet)
    {written : List SMsg} {action : Action}
    (clean : action = .fetch → chiplet.clean = true)
    (step : chiplet.perform written action = some next) :
    Settled next := by
  cases action with
  | openPort localPort remoteAddr remotePort =>
      simp only [Chiplet.perform, Chiplet.openPort] at step
      split at step
      case isFalse => cases step
      case isTrue idle =>
        cases step
        refine ⟨settled.classified.connectInter _ _ _, ?_⟩
        intro port busy
        rw [idle] at busy
        cases busy
  | sendMessage localPort datum =>
      simp only [Chiplet.perform, Chiplet.sendMessage] at step
      split at step
      case isFalse => cases step
      case isTrue idle =>
        split at step
        · cases step
          exact settled
        · cases step
          exact ⟨settled.classified, fun _ busy => by cases busy⟩
  | receiveMessage localPort => exact settled.receiveMessage step
  | finishWrite =>
      simp only [Chiplet.perform, Chiplet.finishWrite] at step
      split at step
      · cases step
        exact ⟨settled.classified, fun _ busy => by cases busy⟩
      · cases step
  | fetch => exact settled.fetch (clean rfl) step
  | relayLine =>
      simp only [Chiplet.perform, Chiplet.relayLine] at step
      split at step <;> cases step <;>
        exact ⟨settled.classified, settled.reading⟩
  | relayReply =>
      simp only [Chiplet.perform, Chiplet.relayReply] at step
      split at step <;> cases step
      exact ⟨settled.classified, settled.reading⟩
  | poll => cases step

end Chiplet

/-! ## The pipeline between two chiplets -/

/-- The message of a `send` line. -/
def Line.message? : Line → Option SMsg
  | .recv => none
  | .send msg => some msg

/-- The message of an answer. -/
def Reply.message? : Reply → Option SMsg
  | .message msg => some msg
  | .sendRet => none

namespace Chiplet

/-- What has been sent and has not reached the hub. -/
def outgoing (chiplet : Chiplet) : List SMsg :=
  (chiplet.toHub ++ chiplet.toRelay).filterMap Line.message?

/-- What the hub has written, from the messages fetched long ago to those in
the socket. -/
def received (chiplet : Chiplet) (written : List SMsg) : List SMsg :=
  chiplet.fetched ++ chiplet.toRecorder.filterMap Reply.message? ++
    written.drop chiplet.taken

/-- How a step of a chiplet moves messages: what it sends enters at the end,
and nothing else changes its place. -/
structure Moves (chiplet next : Chiplet) (written : List SMsg) : Prop where
  subnetId : next.recorder.subnetId = chiplet.recorder.subnetId
  received : next.received written = chiplet.received written
  outgoing : ∃ new,
    next.sent = chiplet.sent ++ new ∧
      next.outgoing = chiplet.outgoing ++ new ∧
      ∀ msg ∈ new, msg.srcAddr = chiplet.recorder.subnetId
  taken : chiplet.taken ≤ written.length → next.taken ≤ written.length

variable {chiplet next : Chiplet} {written : List SMsg}

/-- A step that sends nothing. -/
theorem Moves.of_silent
    (subnetId : next.recorder.subnetId = chiplet.recorder.subnetId)
    (received : next.received written = chiplet.received written)
    (sent : next.sent = chiplet.sent)
    (outgoing : next.outgoing = chiplet.outgoing)
    (taken : next.taken = chiplet.taken) :
    Moves chiplet next written where
  subnetId := subnetId
  received := received
  outgoing := ⟨[], by simp [sent], by simp [outgoing], by simp⟩
  taken := fun bound => taken ▸ bound

theorem subnetId_connectInter (recorder : Recorder)
    (localPort remoteAddr remotePort : Int) :
    (recorder.connectInter localPort remoteAddr remotePort).2.subnetId =
      recorder.subnetId := by
  unfold Recorder.connectInter
  split <;> rfl

theorem subnetId_classify (recorder : Recorder) (msg : SMsg) :
    (recorder.classify msg).subnetId = recorder.subnetId := by
  unfold Recorder.classify
  split
  · split <;> rfl
  · rfl

theorem moves_fetch (step : chiplet.fetch = some next) :
    Moves chiplet next written := by
  unfold Chiplet.fetch at step
  split at step
  case h_2 => cases step
  case h_1 localPort msg rest _ arrived =>
  have handedOver :
      chiplet.received written =
        chiplet.fetched ++ [msg] ++ rest.filterMap Reply.message? ++
          written.drop chiplet.taken := by
    simp [Chiplet.received, arrived, Reply.message?]
  split at step
  case isFalse =>
    cases step
    exact Moves.of_silent rfl handedOver.symm rfl rfl rfl
  case isTrue =>
  split at step
  case isFalse =>
    cases step
    refine Moves.of_silent (subnetId_classify _ _) handedOver.symm rfl ?_ rfl
    simp [Chiplet.outgoing, List.filterMap_append, Line.message?]
  case isTrue =>
    obtain ⟨conn, _, result⟩ := Option.map_eq_some_iff.mp step
    cases result
    exact Moves.of_silent (subnetId_classify _ _) handedOver.symm rfl rfl rfl

theorem moves_relayLine (step : chiplet.relayLine = some next) :
    Moves chiplet next written := by
  unfold Chiplet.relayLine at step
  split at step
  case h_3 => cases step
  all_goals
    rename_i arrived
    cases step
    refine Moves.of_silent rfl ?_ rfl ?_ rfl
    · simp [Chiplet.received, List.filterMap_append, Reply.message?]
    · simp [Chiplet.outgoing, arrived, List.filterMap_append, Line.message?]

theorem moves_relayReply (step : chiplet.relayReply written = some next) :
    Moves chiplet next written := by
  unfold Chiplet.relayReply at step
  split at step
  case h_2 => cases step
  case h_1 msg rest _ arrived =>
  cases step
  have remaining : written.drop (chiplet.taken + 1) = rest := by
    rw [← List.tail_drop, arrived, List.tail_cons]
  refine ⟨rfl, ?_, ⟨[], by simp, by simp [Chiplet.outgoing], by simp⟩, ?_⟩
  · simp [Chiplet.received, arrived, remaining, List.filterMap_append,
      Reply.message?]
  · intro _
    have left := congrArg List.length arrived
    simp only [List.length_drop, List.length_cons] at left
    show chiplet.taken + 1 ≤ written.length
    omega

/-- Every step of a chiplet moves messages forward only. -/
theorem moves_perform {action : Action}
    (step : chiplet.perform written action = some next) :
    Moves chiplet next written := by
  cases action with
  | openPort localPort remoteAddr remotePort =>
      simp only [Chiplet.perform, Chiplet.openPort] at step
      split at step <;> cases step
      exact Moves.of_silent (subnetId_connectInter _ _ _ _) rfl rfl rfl rfl
  | sendMessage localPort datum =>
      simp only [Chiplet.perform, Chiplet.sendMessage] at step
      split at step
      case isFalse => cases step
      case isTrue =>
        split at step
        case h_1 =>
          cases step
          exact Moves.of_silent rfl rfl rfl rfl rfl
        case h_2 msg found =>
          cases step
          obtain ⟨conn, _, shape⟩ := Option.map_eq_some_iff.mp found
          refine ⟨rfl, rfl, ⟨[msg], rfl, ?_, ?_⟩, id⟩
          · simp [Chiplet.outgoing, List.filterMap_append, Line.message?]
          · simp [← shape]
  | receiveMessage localPort =>
      simp only [Chiplet.perform, Chiplet.receiveMessage] at step
      split at step
      case isFalse => cases step
      case isTrue =>
        split at step
        · cases step
          exact Moves.of_silent rfl rfl rfl rfl rfl
        · split at step <;> cases step
          · refine Moves.of_silent rfl rfl rfl ?_ rfl
            simp [Chiplet.outgoing, List.filterMap_append, Line.message?]
          · exact Moves.of_silent rfl rfl rfl rfl rfl
  | finishWrite =>
      simp only [Chiplet.perform, Chiplet.finishWrite] at step
      split at step
      case h_2 => cases step
      case h_1 rest _ arrived =>
        cases step
        refine Moves.of_silent rfl ?_ rfl rfl rfl
        simp [Chiplet.received, arrived, List.filterMap_cons, Reply.message?]
  | fetch => exact moves_fetch step
  | relayLine => exact moves_relayLine step
  | relayReply => exact moves_relayReply step
  | poll => cases step

end Chiplet

/-! ## The hub in the pipeline -/

/-- What the hub holds for subnet `i`, less the messages already taken. -/
def Hub.stream (hub : Hub SMsg SMsg) (i taken : Nat) : List SMsg :=
  (hub.written i).drop taken ++ hub.routerBuf i

namespace Hub

variable {hub : Hub SMsg SMsg}

theorem written_length_handleLine (subnetCount : UInt16) (i k : Nat)
    (line : Line) :
    (hub.written k).length ≤
      ((hub.handleLine subnetCount i line).written k).length := by
  have forwarded : ∀ (target : Nat) (msg : SMsg),
      (hub.written k).length ≤
        ((hub.forward id target msg).written k).length := by
    intro target msg
    by_cases same : k = target
    · subst same
      simp [Hub.forward]
    · simp [Hub.forward, update_of_ne same]
  cases line with
  | recv =>
      simp only [handleLine, onRecv]
      split
      · exact le_rfl
      · exact forwarded i _
  | send msg =>
      simp only [handleLine, onSend]
      split
      · split
        · exact le_rfl
        · exact forwarded _ msg
      · exact le_rfl

/-- A request moves a message from the buffer to the socket. -/
theorem stream_recv {i k taken : Nat} (subnetCount : UInt16)
    (bound : taken ≤ (hub.written k).length) :
    (hub.handleLine subnetCount i .recv).stream k taken =
      hub.stream k taken := by
  simp only [handleLine, onRecv]
  split
  case h_1 => rfl
  case h_2 front rest waiting =>
    by_cases same : k = i
    · subst same
      simp [stream, Hub.forward, List.drop_append_of_le_length bound, waiting]
    · simp [stream, Hub.forward, update_of_ne same]

/-- A message for subnet `target` enters its stream at the end. -/
theorem stream_send {i k taken target : Nat} {subnetCount : UInt16}
    {msg : SMsg} (addressee : msg.desAddr = target)
    (inside : target < subnetCount.toNat)
    (oneSided : ∀ j, hub.reading j = 0 ∨ hub.routerBuf j = [])
    (bound : taken ≤ (hub.written k).length) :
    (hub.handleLine subnetCount i (.send msg)).stream k taken =
      hub.stream k taken ++ if k = target then [msg] else [] := by
  have range :
      (0 : Int) ≤ target ∧ (target : Int) < subnetCount.toNat := by omega
  simp only [handleLine, onSend, addressee, range, and_self, if_true,
    Int.toNat_natCast]
  split
  case isTrue =>
    by_cases same : k = target
    · subst same
      simp [stream]
    · simp [stream, same]
  case isFalse busy =>
    have nothing := (oneSided target).resolve_left busy
    by_cases same : k = target
    · subst same
      simp [stream, Hub.forward, List.drop_append_of_le_length bound, nothing]
    · simp [stream, Hub.forward, same]

/-- A message for a subnet that does not exist is dropped. -/
theorem stream_wrong {i k taken : Nat} {subnetCount : UInt16} {msg : SMsg}
    (wrong : ¬(0 ≤ msg.desAddr ∧ msg.desAddr < subnetCount.toNat)) :
    (hub.handleLine subnetCount i (.send msg)).stream k taken =
      hub.stream k taken := by
  simp only [handleLine, onSend, wrong, if_false]
  rfl

/-- Some history explains the queues of the hub. -/
def Balanced (hub : Hub SMsg SMsg) (subnetCount : UInt16) : Prop :=
  ∃ addressed recvs delivered wraps,
    Conserved id subnetCount.toNat hub addressed recvs delivered wraps

theorem Balanced.handleLine {subnetCount : UInt16}
    (balanced : hub.Balanced subnetCount) {i : Nat}
    (inside : i < subnetCount.toNat) (line : Line) :
    (hub.handleLine subnetCount i line).Balanced subnetCount := by
  obtain ⟨addressed, recvs, delivered, wraps, conserved⟩ := balanced
  cases line with
  | recv =>
      obtain ⟨delivered', wraps', kept⟩ := conserved.recv inside
      exact ⟨_, _, delivered', wraps', kept⟩
  | send msg =>
      by_cases range :
          0 ≤ msg.desAddr ∧ msg.desAddr < subnetCount.toNat
      · obtain ⟨target, addressee⟩ := Int.eq_ofNat_of_zero_le range.1
        have exists_ : target < subnetCount.toNat := by omega
        obtain ⟨delivered', wraps', kept⟩ := conserved.send rfl exists_ msg
        rw [← addressee] at kept
        exact ⟨_, _, delivered', wraps', kept⟩
      · exact ⟨_, _, _, _, conserved.drop rfl range msg⟩

end Hub

/-! ## The whole system -/

namespace System

/-- All messages between a sender and a receiver, from those fetched first to
those sent last. -/
def pipeline (system : System) (source target : Nat) : List SMsg :=
  (system.chiplet target).received (system.hub.written target) ++
    system.hub.routerBuf target ++ (system.chiplet source).outgoing

/-- The invariant of the system. -/
structure Ordered (subnetCount : UInt16) (system : System) : Prop where
  settled : ∀ i, (system.chiplet i).Settled
  subnetId : ∀ i, (system.chiplet i).recorder.subnetId = i
  taken : ∀ i, (system.chiplet i).taken ≤ (system.hub.written i).length
  origin : ∀ i, ∀ msg ∈ (system.chiplet i).outgoing, msg.srcAddr = i
  author : ∀ i, ∀ msg ∈ (system.chiplet i).sent, msg.srcAddr = i
  balanced : system.hub.Balanced subnetCount
  order : ∀ (source target : Nat) (conn : SConnection),
    target < subnetCount.toNat → conn.remoteAddr = source →
    conn.localAddr = target →
    (system.chiplet source).sent.filter (isCorrectMsg conn) =
      (system.pipeline source target).filter (isCorrectMsg conn)

variable {subnetCount : UInt16} {system next : System}

theorem Ordered.start : Ordered subnetCount System.start where
  settled := fun i => ⟨Classified.start i, fun _ busy => by cases busy⟩
  subnetId := fun _ => rfl
  taken := fun _ => le_rfl
  origin := fun _ _ member => by cases member
  author := fun _ _ member => by cases member
  balanced := ⟨_, _, _, _, Conserved.start⟩
  order := fun _ _ _ _ _ _ => rfl

/-- A step of one chiplet. -/
theorem Ordered.put (ordered : Ordered subnetCount system) {i : Nat}
    {chiplet : Chiplet} (settled : chiplet.Settled)
    (moves : (system.chiplet i).Moves chiplet (system.hub.written i)) :
    Ordered subnetCount (system.put i chiplet) := by
  obtain ⟨new, sent, outgoing, fromHere⟩ := moves.outgoing
  have elsewhere : ∀ k, k ≠ i →
      (system.put i chiplet).chiplet k = system.chiplet k :=
    fun k different => update_of_ne different _ _
  have here : (system.put i chiplet).chiplet i = chiplet :=
    update_self _ _ _
  refine ⟨?_, ?_, ?_, ?_, ?_, ordered.balanced, ?_⟩
  · intro k
    by_cases same : k = i
    · subst same
      rwa [here]
    · rw [elsewhere k same]
      exact ordered.settled k
  · intro k
    by_cases same : k = i
    · subst same
      rw [here, moves.subnetId]
      exact ordered.subnetId k
    · rw [elsewhere k same]
      exact ordered.subnetId k
  · intro k
    by_cases same : k = i
    · subst same
      rw [here]
      exact moves.taken (ordered.taken k)
    · rw [elsewhere k same]
      exact ordered.taken k
  · intro k msg member
    by_cases same : k = i
    · subst same
      rw [here, outgoing, List.mem_append] at member
      rcases member with old | fresh
      · exact ordered.origin k msg old
      · exact (fromHere msg fresh).trans (ordered.subnetId k)
    · rw [elsewhere k same] at member
      exact ordered.origin k msg member
  · intro k msg member
    by_cases same : k = i
    · subst same
      rw [here, sent, List.mem_append] at member
      rcases member with old | fresh
      · exact ordered.author k msg old
      · exact (fromHere msg fresh).trans (ordered.subnetId k)
    · rw [elsewhere k same] at member
      exact ordered.author k msg member
  · intro source target conn inside remote atHome
    have received :
        ((system.put i chiplet).chiplet target).received
            (system.hub.written target) =
          (system.chiplet target).received (system.hub.written target) := by
      by_cases same : target = i
      · subst same
        rw [here, moves.received]
      · rw [elsewhere target same]
    have before := ordered.order source target conn inside remote atHome
    unfold pipeline at before ⊢
    rw [show (system.put i chiplet).hub = system.hub from rfl, received]
    by_cases same : source = i
    · subst same
      rw [here, sent, outgoing, ← List.append_assoc, List.filter_append,
        before, ← List.filter_append]
    · rw [elsewhere source same]
      exact before

theorem pipeline_eq (system : System) (source target : Nat) :
    system.pipeline source target =
      ((system.chiplet target).fetched ++
          (system.chiplet target).toRecorder.filterMap Reply.message?) ++
        system.hub.stream target (system.chiplet target).taken ++
        (system.chiplet source).outgoing := by
  simp only [pipeline, Chiplet.received, Hub.stream, List.append_assoc]

/-- The line that the hub takes enters the stream of its addressee and leaves
the lines of its sender; no other connection notices. -/
theorem handleLine_filter (ordered : Ordered subnetCount system) {i : Nat}
    {line : Line} {rest : List Line}
    (waiting : (system.chiplet i).toHub = line :: rest)
    {source target : Nat} {conn : SConnection}
    (inside : target < subnetCount.toNat)
    (remote : conn.remoteAddr = source) (atHome : conn.localAddr = target) :
    ((system.hub.handleLine subnetCount i line).stream target
          (system.chiplet target).taken ++
        Chiplet.outgoing
          (update system.chiplet i
            { system.chiplet i with toHub := rest } source)).filter
        (isCorrectMsg conn) =
      (system.hub.stream target (system.chiplet target).taken ++
        (system.chiplet source).outgoing).filter (isCorrectMsg conn) := by
  have bound := ordered.taken target
  have others : ∀ k, k ≠ i →
      update system.chiplet i
        { system.chiplet i with toHub := rest } k = system.chiplet k :=
    fun k different => update_of_ne different _ _
  cases line with
  | recv =>
      rw [Hub.stream_recv subnetCount bound]
      by_cases same : source = i
      · subst same
        simp [Chiplet.outgoing, waiting, List.filterMap_cons, Line.message?]
      · rw [others source same]
  | send msg =>
      have leaves : (system.chiplet i).outgoing =
          msg :: Chiplet.outgoing
            { system.chiplet i with toHub := rest } := by
        simp [Chiplet.outgoing, waiting, Line.message?]
      have sender : msg.srcAddr = i :=
        ordered.origin i msg (by rw [leaves]; exact List.mem_cons_self)
      obtain ⟨addressed, recvs, delivered, wraps, conserved⟩ :=
        ordered.balanced
      have entered :
          (system.hub.handleLine subnetCount i (.send msg)).stream target
              (system.chiplet target).taken =
            system.hub.stream target (system.chiplet target).taken ++
              if msg.desAddr = target then [msg] else [] := by
        by_cases range :
            0 ≤ msg.desAddr ∧ msg.desAddr < subnetCount.toNat
        · obtain ⟨aim, addressee⟩ := Int.eq_ofNat_of_zero_le range.1
          have exists_ : aim < subnetCount.toNat := by omega
          rw [Hub.stream_send addressee exists_ conserved.oneSided bound]
          by_cases same : target = aim
          · simp [addressee, same]
          · have different : ¬ (msg.desAddr = target) := by omega
            simp [same, different]
        · have different : ¬ (msg.desAddr = target) := by omega
          rw [Hub.stream_wrong range]
          simp [different]
      rw [entered, List.append_assoc, List.filter_append,
        List.filter_append (system.hub.stream _ _)]
      congr 1
      by_cases same : source = i
      · -- the sender's own line: it is accepted only by its addressee
        subst same
        rw [update_self, leaves]
        by_cases aim : msg.desAddr = target
        · simp [aim]
        · have foreign : isCorrectMsg conn msg = false := by
            rw [Bool.eq_false_iff]
            intro accepted
            exact aim (((isCorrectMsg_iff _ _).mp accepted).1 ▸ atHome)
          simp [aim, foreign]
      · have foreign : isCorrectMsg conn msg = false := by
          rw [Bool.eq_false_iff]
          intro accepted
          have itsSource := ((isCorrectMsg_iff _ _).mp accepted).2.2.1
          rw [remote, sender] at itsSource
          exact same (by exact_mod_cast itsSource)
        rw [others source same, List.filter_append]
        split <;> simp [foreign]

/-- The hub handles a line. -/
theorem Ordered.poll (ordered : Ordered subnetCount system) {i : Nat}
    (inside : i < subnetCount.toNat)
    (step : system.poll subnetCount i = some next) :
    Ordered subnetCount next := by
  unfold System.poll at step
  split at step
  case h_1 => cases step
  case h_2 line rest waiting =>
  cases step
  have same : ∀ {Value : Type} (field : Chiplet → Value),
      field { system.chiplet i with toHub := rest } =
        field (system.chiplet i) →
      ∀ k, field (update system.chiplet i
        { system.chiplet i with toHub := rest } k) =
          field (system.chiplet k) := by
    intro Value field unchanged k
    by_cases here : k = i
    · subst here
      rw [update_self, unchanged]
    · rw [update_of_ne here]
  refine ⟨?_, ?_, ?_, ?_, ?_, ordered.balanced.handleLine inside line, ?_⟩
  · intro k
    rw [same Chiplet.Settled]
    · exact ordered.settled k
    · exact propext ⟨fun settled => ⟨settled.classified, settled.reading⟩,
        fun settled => ⟨settled.classified, settled.reading⟩⟩
  · intro k
    rw [same (fun chiplet => chiplet.recorder.subnetId) rfl]
    exact ordered.subnetId k
  · intro k
    rw [same Chiplet.taken rfl]
    exact (ordered.taken k).trans
      (Hub.written_length_handleLine subnetCount i k line)
  · intro k msg member
    by_cases here : k = i
    · subst here
      apply ordered.origin k msg
      simp only [update_self] at member
      simp only [Chiplet.outgoing, waiting, List.mem_filterMap] at member ⊢
      obtain ⟨held, inRest, shape⟩ := member
      exact ⟨held, List.mem_cons_of_mem _ inRest, shape⟩
    · simp only [update_of_ne here] at member
      exact ordered.origin k msg member
  · intro k
    rw [same Chiplet.sent rfl]
    exact ordered.author k
  · intro source target conn targetInside remote atHome
    rw [same Chiplet.sent rfl, pipeline_eq,
      same Chiplet.fetched rfl, same Chiplet.toRecorder rfl,
      same Chiplet.taken rfl, List.append_assoc, List.filter_append,
      handleLine_filter ordered waiting targetInside remote atHome,
      ← List.filter_append, ← List.append_assoc, ← pipeline_eq]
    exact ordered.order source target conn targetInside remote atHome

/-- Every clean step keeps the invariant. -/
theorem Ordered.perform (ordered : Ordered subnetCount system) {i : Nat}
    (inside : i < subnetCount.toNat) {action : Action}
    (clean : action = .fetch → (system.chiplet i).clean = true)
    (step : system.perform subnetCount i action = some next) :
    Ordered subnetCount next := by
  unfold System.perform at step
  split at step
  case h_1 => exact ordered.poll inside step
  case h_2 =>
    obtain ⟨chiplet, moved, result⟩ := Option.map_eq_some_iff.mp step
    rw [← result]
    exact ordered.put ((ordered.settled i).perform clean moved)
      (Chiplet.moves_perform moved)

/-- A step in which no `readMsgUntil` ends with a message that its port does
not accept. -/
def CleanNext (subnetCount : UInt16) (system next : System) : Prop :=
  ∃ i action, i < subnetCount.toNat ∧
    (action = .fetch → (system.chiplet i).clean = true) ∧
    system.perform subnetCount i action = some next

/-- The run of a list of actions, as far as its steps are clean. -/
def cleanRun (subnetCount : UInt16) (actions : List (Nat × Action)) :
    Option System :=
  actions.foldlM
    (fun system entry =>
      if entry.1 < subnetCount.toNat ∧
          (entry.2 = .fetch → (system.chiplet entry.1).clean = true) then
        system.perform subnetCount entry.1 entry.2
      else none)
    System.start

theorem cleanRun_path {actions : List (Nat × Action)}
    (run : cleanRun subnetCount actions = some system) :
    Relation.ReflTransGen (CleanNext subnetCount) System.start system := by
  refine Library.reflTransGen_of_foldlM ?_ run
  rintro state ⟨i, action⟩ next step
  rw [Option.ite_none_right_eq_some] at step
  exact ⟨i, action, step.1.1, step.1.2, step.2⟩

theorem ordered_of_run
    (path : Relation.ReflTransGen (CleanNext subnetCount) System.start
      system) :
    Ordered subnetCount system := by
  refine Library.invariant_of_reflTransGen _ ?_ Ordered.start path
  rintro state next ordered ⟨i, action, inside, clean, step⟩
  exact ordered.perform inside clean step

/-- The messages a connection accepts are those its peer sent to it. -/
theorem filter_isCorrectMsg {conn : SConnection} {source target : Nat}
    (remote : conn.remoteAddr = source) (atHome : conn.localAddr = target)
    {messages : List SMsg}
    (origin : ∀ msg ∈ messages, msg.srcAddr = source) :
    messages.filter (isCorrectMsg conn) =
      messages.filter fun msg =>
        msg.srcPort == conn.remotePort && msg.desAddr == (target : Int) &&
          msg.desPort == conn.localPort := by
  apply List.filter_congr
  intro msg member
  rw [Bool.eq_iff_iff]
  simp only [isCorrectMsg_iff, Bool.and_eq_true, beq_iff_eq, remote, atHome,
    origin msg member]
  constructor
  · rintro ⟨des, port, _, src⟩
    exact ⟨⟨src.symm, des.symm⟩, port.symm⟩
  · rintro ⟨⟨src, des⟩, port⟩
    exact ⟨des.symm, port.symm, trivial, src.symm⟩

end System

/-- In every run in which each call of `readMsg` ends with a message of its
own connection, the data returned on a port are the first data that its peer
sent to it, in order. -/
theorem connection_is_fifo (subnetCount : UInt16) (system : System)
    (path : Relation.ReflTransGen (System.CleanNext subnetCount)
      System.start system)
    (source target : Nat) (inside : target < subnetCount.toNat)
    (port : Int) (conn : SConnection)
    (lookup : (system.chiplet target).recorder.bufMap port = some conn)
    (remote : conn.remoteAddr = source) :
    (system.chiplet target).returned port <+:
      (system.sentData source conn.remotePort target port).map some := by
  have ordered := System.ordered_of_run path
  have settled := (ordered.settled target).classified
  obtain ⟨home, itsPort⟩ := settled.keyed port conn lookup
  obtain ⟨taken, history, buffered⟩ := settled.opened port conn lookup
  have atHome : conn.localAddr = target :=
    home.trans (ordered.subnetId target)
  have order := ordered.order source target conn inside remote atHome
  rw [System.pipeline_eq, List.filter_append, List.filter_append,
    List.filter_append, ← buffered, System.filter_isCorrectMsg remote atHome
      (ordered.author source), itsPort] at order
  unfold System.sentData
  rw [order, history]
  simp only [List.map_append, List.map_map, List.append_assoc]
  exact List.prefix_append _ _

/-- Chiplet `1` sends to an open port of chiplet `0`, which reads it. -/
def sendAndRead : List (Nat × Action) :=
  [(0, .openPort 1 1 5), (1, .openPort 5 0 1), (1, .sendMessage 5 42),
    (0, .receiveMessage 1), (1, .relayLine), (1, .finishWrite),
    (0, .relayLine), (1, .poll), (0, .poll), (0, .relayReply), (0, .fetch)]

/-- Chiplet `2` sends to a port of chiplet `0` that is connected to chiplet
`1`, and chiplet `0` reads the port. -/
def sendFromStranger : List (Nat × Action) :=
  [(0, .openPort 1 1 5), (2, .openPort 7 0 1), (2, .sendMessage 7 42),
    (0, .receiveMessage 1), (2, .relayLine), (2, .finishWrite),
    (0, .relayLine), (2, .poll), (0, .poll), (0, .relayReply), (0, .fetch)]

theorem connection_is_fifo_sendAndRead :
    ∃ system conn,
      System.cleanRun 2 sendAndRead = some system ∧
      (system.chiplet 0).recorder.bufMap 1 = some conn ∧
      (system.chiplet 0).returned 1 = [some 42] ∧
      (system.chiplet 0).returned 1 <+:
        (system.sentData 1 conn.remotePort 0 1).map some := by
  obtain ⟨system, run⟩ :=
    Option.isSome_iff_exists.mp
      (by decide : (System.cleanRun 2 sendAndRead).isSome)
  have lookup :
      (System.cleanRun 2 sendAndRead).map
          (fun system => (system.chiplet 0).recorder.bufMap 1) =
        some (some ⟨0, 1, 1, 5, []⟩) := by decide
  have returned :
      (System.cleanRun 2 sendAndRead).map
          (fun system => (system.chiplet 0).returned 1) =
        some [some 42] := by decide
  rw [run, Option.map_some, Option.some.injEq] at lookup returned
  exact ⟨system, _, run, lookup, returned,
    connection_is_fifo 2 system (System.cleanRun_path run) 1 0 (by decide)
      1 _ lookup rfl⟩

theorem stranger_ends_read :
    ∃ system conn,
      Relation.ReflTransGen (System.Next 3) System.start system ∧
      (system.chiplet 0).recorder.bufMap 1 = some conn ∧
      conn.remoteAddr = 1 ∧
      ¬ (system.chiplet 0).returned 1 <+:
        (system.sentData 1 conn.remotePort 0 1).map some := by
  obtain ⟨system, run⟩ :=
    Option.isSome_iff_exists.mp
      (by decide : (System.run 3 sendFromStranger).isSome)
  have lookup :
      (System.run 3 sendFromStranger).map
          (fun system => (system.chiplet 0).recorder.bufMap 1) =
        some (some ⟨0, 1, 1, 5, []⟩) := by decide
  have broken :
      (System.run 3 sendFromStranger).map
          (fun system => ((system.chiplet 0).returned 1,
            system.sentData 1 5 0 1)) =
        some ([none], []) := by decide
  rw [run, Option.map_some, Option.some.injEq] at lookup broken
  refine ⟨system, _, System.run_path run, lookup, rfl, ?_⟩
  rw [(Prod.mk.inj broken).1, (Prod.mk.inj broken).2]
  decide

end ChipletSniper.Interchiplet
