import ChipletSniper.Coherence.Safety

/-!
# The requests of the caches are served one after the other

The directory is a queue of requests: each of them gets one reply, in the order
in which the requests arrived, and leaves the queue with it.  While a request
waits at the head of the queue, a message is in flight for which it waits.
-/

namespace ChipletSniper.Coherence

open Library

variable {n : Nat} {Line : Type} {config : Config n} {initial : Line}
variable {system next : System n Line} {req : ShmemReq n Line}
variable {rest : List (ShmemReq n Line)}

/-! ## A server of requests -/

/-- The replies that answer a request. -/
def ReqType.Answers : ReqType → RepType → Prop
  | .exReq, .exRep => True
  | .shReq, .shRep | .shReq, .exRep => True
  | .upgradeReq, .upgradeRep | .upgradeReq, .exRep => True
  | _, _ => False

/-- What a server does that takes requests in the order of their arrival and
sends one reply when a request leaves its queue. -/
inductive Serialised : List (Event n) → List (Fin n × ReqType) → Prop
  | start : Serialised [] []
  | received {log : List (Event n)} {waiting : List (Fin n × ReqType)}
      (requester : Fin n) (msgType : ReqType) :
      Serialised log waiting →
      Serialised (log ++ [.received requester msgType])
        (waiting ++ [(requester, msgType)])
  | completed {log : List (Event n)} {waiting : List (Fin n × ReqType)}
      {requester : Fin n} {msgType : ReqType} {repType : RepType} :
      Serialised log ((requester, msgType) :: waiting) →
      msgType.Answers repType →
      Serialised
        (log ++ [.replied requester repType, .dequeued requester msgType])
        waiting

/-- The requests of the caches in the queue. -/
def waitingOf (queue : List (ShmemReq n Line)) : List (Fin n × ReqType) :=
  (queue.filter fun req => decide (req.msgType ≠ .nullifyReq)).map
    fun req => (req.requester, req.msgType)

theorem waitingOf_cons (isRequest : req.msgType ≠ .nullifyReq) :
    waitingOf (req :: rest) = (req.requester, req.msgType) ::
      waitingOf rest := by
  simp [waitingOf, isRequest]

theorem waitingOf_nullify (isNullify : req.msgType = .nullifyReq) :
    waitingOf (req :: rest) = waitingOf rest := by
  simp [waitingOf, isNullify]

theorem waitingOf_modifyHead (queue : List (ShmemReq n Line))
    (change : ShmemReq n Line → ShmemReq n Line)
    (kind : ∀ req, (change req).msgType = req.msgType)
    (requester : ∀ req, (change req).requester = req.requester) :
    waitingOf (queue.modifyHead change) = waitingOf queue := by
  cases queue with
  | nil => rfl
  | cons req rest =>
      rw [List.modifyHead_cons]
      by_cases isNullify : req.msgType = .nullifyReq
      · rw [waitingOf_nullify isNullify, waitingOf_nullify (by
          rw [kind, isNullify])]
      · rw [waitingOf_cons isNullify, waitingOf_cons (by
          rwa [kind]), kind, requester]

/-! ## What has happened -/

namespace Event

/-- The requests that have been received. -/
def request : Event n → Option (Fin n × ReqType)
  | .received requester msgType => some (requester, msgType)
  | .replied _ _ | .dequeued _ _ => none

/-- The replies that have been sent. -/
def reply : Event n → Option (Fin n × RepType)
  | .replied receiver repType => some (receiver, repType)
  | .received _ _ | .dequeued _ _ => none

/-- The requests that have left the queue. -/
def departure : Event n → Option (Fin n × ReqType)
  | .dequeued requester msgType => some (requester, msgType)
  | .received _ _ | .replied _ _ => none

end Event

/-- The requests leave in the order in which they have arrived. -/
theorem Serialised.order {log : List (Event n)}
    {waiting : List (Fin n × ReqType)} (serialised : Serialised log waiting) :
    log.filterMap Event.request =
      log.filterMap Event.departure ++ waiting := by
  induction serialised with
  | start => rfl
  | received requester msgType _ ih =>
      simp [ih, List.filterMap_cons, Event.request,
        Event.departure]
  | completed _ _ ih =>
      simp [ih, List.filterMap_cons, Event.request,
        Event.departure]

/-- Each of them with one reply that answers it. -/
theorem Serialised.replies {log : List (Event n)}
    {waiting : List (Fin n × ReqType)} (serialised : Serialised log waiting) :
    List.Forall₂ (fun request reply => reply.1 = request.1 ∧
        request.2.Answers reply.2)
      (log.filterMap Event.departure) (log.filterMap Event.reply) := by
  induction serialised with
  | start => exact .nil
  | received requester msgType _ ih =>
      simpa [List.filterMap_cons, Event.reply, Event.departure] using
        ih
  | completed _ answers ih =>
      rw [List.filterMap_append, List.filterMap_append]
      refine List.rel_append ih ?_
      exact .cons ⟨rfl, answers⟩ .nil

/-! ## The directory is such a server -/

/-- A reply that is sent when the request leaves the queue. -/
theorem Serialised.reply {log : List (Event n)}
    (serialised : Serialised log (waitingOf (req :: rest)))
    (isRequest : req.msgType ≠ .nullifyReq) (reply : ToCache Line)
    {repType : RepType} (kind : reply.repType = some repType)
    (answers : req.msgType.Answers repType) :
    Serialised
      ((log ++ (reply.repType.map (Event.replied req.requester)).toList) ++
        if req.msgType = .nullifyReq then []
        else [.dequeued req.requester req.msgType])
      (waitingOf rest) := by
  rw [waitingOf_cons isRequest] at serialised
  rw [kind, if_neg isRequest, List.append_assoc]
  exact .completed serialised answers

/-- The kind of a reply with data. -/
theorem reply_answers (isRequest : req.msgType ≠ .nullifyReq)
    {dstate : DirectoryState} (data : Data Line)
    (kind : req.msgType = .shReq ↔ dstate ≠ .modified) :
    ∃ repType, (if dstate = .shared then ToCache.shRep data
        else .exRep data).repType = some repType ∧
      req.msgType.Answers repType := by
  by_cases shared : dstate = .shared
  · have isSh := kind.mpr (by simp [shared])
    exact ⟨.shRep, by rw [if_pos shared]; rfl, by rw [isSh]; trivial⟩
  · refine ⟨.exRep, by rw [if_neg shared]; rfl, ?_⟩
    cases same : req.msgType with
    | exReq | shReq | upgradeReq => trivial
    | nullifyReq => exact absurd same isRequest

theorem Outcome.log_waits {cached : Option (Data Line)}
    (outcome : Outcome config system req cached (next, false)) :
    next.log = system.log ∧ waitingOf next.queue = waitingOf system.queue := by
  cases outcome with
  | asks nodup told allows =>
      rw [sendEach_request nodup fun core mem => (allows core mem).repType]
      exact ⟨rfl, rfl⟩
  | surplus =>
      rw [sendMsg_request _ _ rfl]
      exact ⟨rfl, rfl⟩
  | fetch => exact ⟨rfl, waitingOf_modifyHead _ _ (fun _ => rfl) fun _ => rfl⟩
  | forward =>
      rw [sendMsg_request _ _ rfl]
      exact ⟨rfl, waitingOf_modifyHead _ _ (fun _ => rfl) fun _ => rfl⟩

theorem Outcome.log_completes {cached : Option (Data Line)}
    (outcome : Outcome config system req cached (next, true))
    (ready : Ready config system req rest cached)
    (serialised : Serialised system.log (waitingOf system.queue)) :
    Serialised (next.dequeue req rest).log
      (waitingOf (next.dequeue req rest).queue) := by
  rw [ready.queue] at serialised
  cases outcome with
  | @reply entry' data joins =>
      have kind : req.msgType = .shReq ↔ entry'.dstate ≠ .modified := by
        rcases joins.states with ⟨-, -, -, kind, -⟩ | ⟨-, shared, isSh, -⟩
        · exact kind
        · simp [isSh, shared]
      obtain ⟨repType, same, answers⟩ :=
        reply_answers joins.request data kind
      exact serialised.reply joins.request _ same answers
  | upgrade isUpgrade =>
      exact serialised.reply (by simp [isUpgrade]) .upgradeRep rfl
        (by rw [isUpgrade]; trivial)
  | nullified isNullify =>
      rw [waitingOf_nullify isNullify] at serialised
      change Serialised (system.log ++ if req.msgType = .nullifyReq then []
        else _) (waitingOf rest)
      rw [if_pos isNullify, List.append_nil]
      exact serialised

theorem Serves.serialised {cached : Option (Data Line)}
    (serves : Serves config system cached next) :
    Serialised system.log (waitingOf system.queue) →
      Serialised next.log (waitingOf next.queue) := by
  induction serves with
  | idle => exact id
  | waits ready outcome =>
      intro serialised
      obtain ⟨log, waiting⟩ := outcome.log_waits
      rw [log, waiting]
      exact serialised
  | completes ready _ outcome _ ih =>
      exact fun serialised => ih
        (outcome.log_completes ready serialised)

theorem Prepares.serialised {action : System.Action n Line}
    {cached : Option (Data Line)}
    (prepares : Prepares config system action next cached)
    (inv : Inv config system)
    (serialised : Serialised system.log (waitingOf system.queue)) :
    Serialised next.log (waitingOf next.queue) := by
  cases prepares with
  | @request core msg msgType up _ found request =>
      have isRequest := reqType_ne_nullify request
      have waiting : waitingOf (system.queue ++
          [ShmemReq.new msgType core]) =
          waitingOf system.queue ++ [(core, msgType)] := by
        simp [waitingOf, ShmemReq.new, isRequest]
      change Serialised _ (waitingOf (system.queue ++ _))
      rw [waiting]
      exact .received core msgType serialised
  | replace empty =>
      rw [empty] at serialised
      exact serialised
  | invRep => exact serialised
  | flushToDram => exact serialised
  | flushTaken => exact serialised
  | flushKept =>
      have same := waitingOf_modifyHead system.queue
        (fun req => { req with dataBuf := some none })
        (fun _ => rfl) fun _ => rfl
      rw [← same] at serialised
      exact serialised
  | wbRep => exact serialised
  | @dramReply data later req rest _ found isHead waits =>
      obtain ⟨-, isRequest, kind⟩ := (inv.head req rest isHead).fetching waits
      rw [isHead] at serialised
      obtain ⟨repType, same, answers⟩ := reply_answers isRequest data kind
      exact serialised.reply isRequest _ same answers

theorem Move.serialised {action : System.Action n Line}
    (move : Move config system action next)
    (inv : Inv config system)
    (serialised : Serialised system.log (waitingOf system.queue)) :
    Serialised next.log (waitingOf next.queue) := by
  cases move with
  | cache => exact serialised
  | @dram msg later found =>
      cases msg with
      | readReq => exact serialised
      | writeReq => exact serialised
  | directory handled =>
      obtain ⟨mid, cached, prepares, ⟨rfl, -⟩ | serves⟩ := handled
      · exact prepares.serialised inv serialised
      · exact serves.serialised (prepares.serialised inv serialised)

/-! ## What the log has of a step -/

/-- The requests of a log. -/
abbrev requestsOf (log : List (Event n)) : List (Fin n × ReqType) :=
  log.filterMap Event.request

theorem requestsOf_sendMsg (system : System n Line) (msg : ToCache Line)
    (receiver : Fin n) :
    requestsOf (system.sendMsg msg receiver).log = requestsOf system.log := by
  cases kind : msg.repType <;>
    simp [System.sendMsg, kind, List.filterMap_cons, Event.request]

theorem requestsOf_dequeue (system : System n Line) :
    requestsOf (system.dequeue req rest).log = requestsOf system.log := by
  by_cases isNullify : req.msgType = .nullifyReq
  · simp [System.dequeue, isNullify]
  · simp [System.dequeue, isNullify, List.filterMap_cons, Event.request]

theorem Outcome.requests_completes {cached : Option (Data Line)}
    (outcome : Outcome config system req cached (next, true)) :
    requestsOf next.log = requestsOf system.log := by
  cases outcome with
  | reply => exact requestsOf_sendMsg ..
  | upgrade => exact requestsOf_sendMsg ..
  | nullified => rfl

/-- Serving requests receives none. -/
theorem Serves.requests {cached : Option (Data Line)}
    (serves : Serves config system cached next) :
    requestsOf next.log = requestsOf system.log := by
  induction serves with
  | idle => rfl
  | waits ready outcome => rw [outcome.log_waits.1]
  | completes ready _ outcome _ ih =>
      rw [ih, requestsOf_dequeue, outcome.requests_completes]

theorem Prepares.requests {action : System.Action n Line}
    {cached : Option (Data Line)}
    (prepares : Prepares config system action next cached) :
    requestsOf next.log =
      requestsOf system.log ++ system.delivered action := by
  cases prepares with
  | request found isReq =>
      simp [System.requested, System.delivered, found, isReq, Event.request]
  | replace => exact (List.append_nil _).symm
  | invRep found | flushToDram found | flushTaken found | flushKept found
  | wbRep found =>
      simp [System.delivered, found, ToDirectory.reqType]
      rfl
  | dramReply =>
      refine Eq.trans ?_ (List.append_nil _).symm
      exact (requestsOf_dequeue _).trans (requestsOf_sendMsg ..)

/-- A step logs the request that it delivers to the directory. -/
theorem Move.requests {action : System.Action n Line}
    (move : Move config system action next) :
    requestsOf next.log =
      requestsOf system.log ++ system.delivered action := by
  cases move with
  | cache _ _ _ none =>
      rw [none, List.append_nil]
      rfl
  | @dram msg later found none =>
      rw [none, List.append_nil]
      cases msg <;> rfl
  | directory handled =>
      obtain ⟨mid, cached, prepares, ⟨rfl, -⟩ | serves⟩ := handled
      · exact prepares.requests
      · exact serves.requests.trans prepares.requests

/-! ## What a request waits for -/

/-- The sharers whose answer the request at the head of the queue needs. -/
def Awaited (entry : DirectoryEntry n) (req : ShmemReq n Line)
    (core : Fin n) : Prop :=
  entry.sharers core = true ∧
    match req.msgType with
    | .exReq | .nullifyReq => True
    | .upgradeReq => core ≠ req.requester
    | .shReq => entry.dstate = .shared → req.forwardingFrom = some core

/-- A cache has been told to answer and it has the line, or its answer is on
the way. -/
def Outstanding (system : System n Line) (core : Fin n) : Prop :=
  (∃ before msg after, system.toCache core = before ++ msg :: after ∧
    msg.repType = none ∧
    ((system.caches core).cstate ≠ .invalid ∨
      ∃ grant ∈ before, grant.repType ≠ none)) ∨
  ∃ msg ∈ system.toDirectory core, msg.reqType = none

section Link

variable {limited : Prop} {view : View} {cache : Llc Line}
variable {down : List (ToCache Line)} {up : List (ToDirectory Line)}

/-- What a sharer has been asked and not answered. -/
theorem Live.asked (live : Live limited view false down)
    (asked : view.asked ≠ .nothing) :
    ∃ before msg, down = before ++ [msg] ∧ msg.repType = none := by
  obtain ⟨extra, rest, rfl, -, ⟨-, impossible | nothing⟩ |
    ⟨-, msg, rfl, allows⟩⟩ := live
  · cases impossible
  · exact absurd nothing asked
  · exact ⟨_, msg, rfl, allows.repType⟩

theorem Link.outstanding (link : Link limited view cache down up)
    (sharer : view.sharer = true) (asked : view.asked ≠ .nothing) :
    (∃ before msg after, down = before ++ msg :: after ∧
      msg.repType = none ∧ (cache.cstate ≠ .invalid ∨
        ∃ grant ∈ before, grant.repType ≠ none)) ∨
    ∃ msg ∈ up, msg.reqType = none := by
  cases link with
  | absent other => simp [sharer] at other
  | pending _ _ _ _ _ nothing => exact absurd nothing asked
  | @granted stale live grant _ _ _ _ _ granted kept =>
      obtain ⟨before, msg, rfl, request⟩ := kept.asked asked
      refine Or.inl ⟨stale ++ grant :: before, msg, [], by simp, request,
        Or.inr ⟨grant, by simp, ?_⟩⟩
      cases grant with
      | exRep | shRep | upgradeRep => simp [ToCache.repType]
      | invReq | flushReq | wbReq => exact granted.elim
  | @held _ _ answered upgrade _ _ _ copy live sent =>
      cases answered with
      | false =>
          obtain ⟨before, msg, rfl, request⟩ := live.asked asked
          exact Or.inl ⟨before, msg, [], rfl, request, Or.inl copy.valid⟩
      | true =>
          refine Or.inr ?_
          cases sent with
          | answer data => exact ⟨.wbRep data, by simp, rfl⟩
          | answerUpgrade data => exact ⟨.wbRep data, by simp, rfl⟩
          | upgradeAnswer data => exact ⟨.wbRep data, by simp, rfl⟩
  | @left _ before after answered upgrade removal _ _ _ _ _ _ removes =>
      refine Or.inr ⟨removal, by simp, ?_⟩
      cases removal with
      | invRep | flushRep => rfl
      | exReq | shReq | upgradeReq | wbRep => exact removes.elim

end Link

/-- Every sharer that the request at the head of the queue needs has been
asked. -/
theorem asksOf_awaited {entry : DirectoryEntry n} {core : Fin n}
    (cached : entry.dstate ≠ .uncached) (unwaiting : req.waitForData = false)
    (awaited : Awaited entry req core) :
    asksOf entry req core ≠ .nothing := by
  obtain ⟨-, needed⟩ := awaited
  unfold asksOf
  rw [unwaiting]
  cases state : entry.dstate with
  | uncached => exact absurd state cached
  | exclusive | modified =>
      by_cases isSh : req.msgType = .shReq
      · simp [isSh]
      · simp [isSh]
  | shared =>
      cases kind : req.msgType with
      | exReq | nullifyReq => simp
      | upgradeReq =>
          rw [kind] at needed
          simp [show core ≠ req.requester from needed]
      | shReq =>
          rw [kind] at needed
          simp [needed state]

/-- A request at the head of the queue waits for some sharer. -/
theorem HeadOk.exists_awaited {entry : DirectoryEntry n}
    (head : HeadOk config entry req) (ok : EntryOk entry)
    (full : ¬ config.maxHwSharers < n)
    (unwaiting : req.waitForData = false) :
    ∃ core, Awaited entry req core := by
  obtain ⟨sharer, shares⟩ : ∃ core, entry.sharers core = true := by
    by_contra none
    push Not at none
    exact head.cached (ok.uncached.mpr fun core => by simpa using none core)
  have asking := head.asking unwaiting
  cases kind : req.msgType with
  | exReq | nullifyReq => exact ⟨sharer, shares, by rw [kind]; trivial⟩
  | upgradeReq =>
      rw [kind] at asking
      by_cases shared : entry.dstate = .shared
      · obtain ⟨other, foreign, isSharer⟩ := asking.1 shared
        exact ⟨other, isSharer, by rw [kind]; exact foreign⟩
      · refine ⟨sharer, shares, ?_⟩
        rw [kind]
        rintro rfl
        rw [asking.2 shared] at shares
        cases shares
  | shReq =>
      rw [kind] at asking
      by_cases shared : entry.dstate = .shared
      · have asked := asking.2 shared
        cases source : req.forwardingFrom with
        | none =>
            rw [source] at asked
            exact absurd asked.1 full
        | some forwarder =>
            rw [source] at asked
            refine ⟨forwarder, asked.1, ?_⟩
            rw [kind]
            exact fun _ => source
      · refine ⟨sharer, shares, ?_⟩
        rw [kind]
        exact fun impossible => absurd impossible shared

/-! ## The result -/

/-- The directory serves the requests one after the other: each of them leaves
the queue when its reply is sent, in the order of arrival.  A step has received
the request that it takes from a cache, and no other.  Only the request at
the head of the queue is being served, and while it waits, a read of the DRAM
is outstanding, or some sharer has still to answer and a message to it or from
it is in flight for each such sharer. -/
theorem requests_serialised (full : config.FullMap) (positive : 1 ≤ n)
    (reached : System.Reachable config initial system) :
    Serialised system.log (waitingOf system.queue) ∧
    system.log.filterMap Event.request =
      system.log.filterMap Event.departure ++ waitingOf system.queue ∧
    List.Forall₂ (fun request reply => reply.1 = request.1 ∧
        request.2.Answers reply.2)
      (system.log.filterMap Event.departure)
      (system.log.filterMap Event.reply) ∧
    (∀ action next, system.step config action = some (.ok next) →
      next.log.filterMap Event.request =
        system.log.filterMap Event.request ++ system.delivered action) ∧
    (∀ req ∈ system.queue.tail, req.Fresh) ∧
    ∀ req rest, system.queue = req :: rest →
      (req.waitForData = true ∧ readsOf system = 1) ∨
      (req.waitForData = false ∧ ∃ entry, system.entry = some entry ∧
        (∃ core, Awaited entry req core) ∧
        ∀ core, Awaited entry req core → Outstanding system core) := by
  have ok := full.ok positive
  have both : Inv config system ∧
      Serialised system.log (waitingOf system.queue) := by
    refine invariant_of_reflTransGen (fun system => Inv config system ∧
      Serialised system.log (waitingOf system.queue)) ?_
      ⟨inv_start initial, .start⟩ reached
    rintro state next ⟨inv, serialised⟩ ⟨action, -, step⟩
    obtain ⟨other, same, moves⟩ :=
      step_moves inv ok (inv.steady full.not_limited action) step
    cases same
    exact ⟨moves.inv inv ok, moves.serialised inv serialised⟩
  obtain ⟨inv, serialised⟩ := both
  refine ⟨serialised, serialised.order, serialised.replies, ?_,
    inv.base.queue.fresh, fun req rest isHead => ?_⟩
  · intro action next step
    obtain ⟨other, same, moves⟩ :=
      step_moves inv ok (inv.steady full.not_limited action) step
    cases same
    exact moves.requests
  have head := inv.head req rest isHead
  cases waits : req.waitForData with
  | true =>
      have reads := inv.base.reads
      rw [isHead, waitsOf, waits, if_pos rfl] at reads
      exact Or.inl ⟨rfl, reads⟩
  | false =>
      obtain ⟨first, awaited⟩ :=
        head.exists_awaited inv.base.entry full.not_limited waits
      refine Or.inr ⟨rfl, system.allocate config, entry_of_sharer awaited.1,
        ⟨first, awaited⟩, fun core needed => ?_⟩
      refine (inv.base.links core).outstanding needed.1 ?_
      change asks (system.allocate config) system.queue core ≠ _
      rw [isHead]
      exact asksOf_awaited head.cached waits needed

/-- Two caches; the write of the second one waits for the first one. -/
theorem requests_serialised_two :
    ∃ system : System 2 Nat,
      System.Reachable ⟨.mesi, 2, none⟩ 0 system ∧
      system.log = [.received 0 .shReq, .replied 0 .exRep,
        .dequeued 0 .shReq, .received 1 .exReq] ∧
      Serialised system.log [(1, .exReq)] := by
  have ran : ∃ system : System 2 Nat,
      (System.start 0).run ⟨.mesi, 2, none⟩
        [.access 0 .read, .toDirectory 0 0, .toDram, .fromDram 0, .toCache 0,
          .access 1 (.write 7), .toDirectory 1 0] = some system ∧
      system.log = [.received 0 .shReq, .replied 0 .exRep,
        .dequeued 0 .shReq, .received 1 .exReq] ∧
      waitingOf system.queue = [(1, .exReq)] :=
    ⟨_, rfl, rfl, rfl⟩
  obtain ⟨system, ran, log, waiting⟩ := ran
  have reached := System.reachable_of_run ran
  have full : Config.FullMap (⟨.mesi, 2, none⟩ : Config 2) := rfl
  refine ⟨system, reached, log, ?_⟩
  rw [← waiting]
  exact (requests_serialised full (by decide) reached).1

end ChipletSniper.Coherence
