import ChipletSniper.Coherence.Serving

/-!
# Transactions

Serving a request ends with a request at the head of the queue that waits, or
with an empty queue.  The invariant holds there.
-/

namespace ChipletSniper.Coherence

open Function

variable {n : Nat} {Line : Type} {config : Config n}
variable {system next : System n Line} {req : ShmemReq n Line}
variable {rest : List (ShmemReq n Line)} {cached : Option (Data Line)}

/-! ## Messages of the directory -/

theorem sendMsg_request (system : System n Line) {msg : ToCache Line}
    (receiver : Fin n) (request : msg.repType = none) :
    system.sendMsg msg receiver =
      { system with
        toCache := update system.toCache receiver
          (system.toCache receiver ++ [msg]) } := by
  simp [System.sendMsg, request]

theorem sendEach_request {msg : Fin n → ToCache Line}
    {receivers : List (Fin n)} (nodup : receivers.Nodup)
    (requests : ∀ core ∈ receivers, (msg core).repType = none) :
    system.sendEach msg receivers =
      { system with
        toCache := fun core =>
          if core ∈ receivers then system.toCache core ++ [msg core]
          else system.toCache core } := by
  induction receivers generalizing system with
  | nil => simp [System.sendEach]
  | cons first receivers ih =>
      have others := @ih
        (system.sendMsg (msg first) first) (List.nodup_cons.mp nodup).2
        fun core mem => requests core (List.mem_cons_of_mem first mem)
      have unfolded : system.sendEach msg (first :: receivers) =
          (system.sendMsg (msg first) first).sendEach msg receivers := rfl
      rw [unfolded, others,
        sendMsg_request system first (requests first (List.mem_cons_self ..))]
      congr 1
      funext core
      by_cases same : core = first
      · subst same
        simp [(List.nodup_cons.mp nodup).1]
      · simp [same]

/-! ## The queue -/

theorem pendingOf_fresh {queue : List (ShmemReq n Line)}
    (fresh : ∀ req ∈ queue, req.Fresh) (core : Fin n) :
    pendingOf queue core = false := by
  cases queue with
  | nil => rfl
  | cons req rest =>
      rw [pendingOf, Fresh.retrieving (fresh req (List.mem_cons_self ..)),
        Bool.and_false]

theorem waitsOf_fresh {queue : List (ShmemReq n Line)}
    (fresh : ∀ req ∈ queue, req.Fresh) :
    waitsOf queue = false := by
  cases queue with
  | nil => rfl
  | cons req rest =>
      rw [waitsOf, (fresh req (List.mem_cons_self ..)).2]
      rfl

namespace QueueOk

theorem tail (queue : QueueOk (req :: rest)) : QueueOk rest :=
  ⟨fun other mem => queue.fresh other (List.mem_of_mem_tail mem),
    (List.pairwise_cons.mp queue.distinct).2⟩

/-- The request at the head of the queue may change, but not its type and its
requester. -/
theorem congr_head {req' : ShmemReq n Line} (queue : QueueOk (req :: rest))
    (kind : req'.msgType = req.msgType)
    (requester : req'.requester = req.requester) :
    QueueOk (req' :: rest) := by
  obtain ⟨distinct, others⟩ := List.pairwise_cons.mp queue.distinct
  refine ⟨queue.fresh, List.pairwise_cons.mpr ⟨?_, others⟩⟩
  rw [kind, requester]
  exact distinct

end QueueOk

/-! ## Adding the requester -/

/-- The links when the requester has become a sharer and its reply is to be
sent. -/
theorem Joins.pend {entry' : DirectoryEntry n}
    (joins : Joins config (system.allocate config) req entry')
    (ready : Ready config system req rest cached) (core : Fin n) :
    Link (config.maxHwSharers < n)
      ⟨entry'.sharers core, entry'.dstate, decide (core = req.requester),
        queuedOf system.queue core, .nothing⟩
      (system.caches core) (system.toCache core)
      (system.toDirectory core) := by
  have link := ready.base.links core
  by_cases own : core = req.requester
  · subst own
    have isSharer : entry'.sharers req.requester = true := by
      simp [joins.sharers]
    rw [isSharer, decide_eq_true rfl]
    by_cases direct : req.forwardingFrom = none
    · have notSharer : (system.allocate config).sharers req.requester =
          false := by
        rcases joins.states with ⟨uncached, -⟩ | ⟨-, -, isSh, -⟩
        · exact ready.base.entry.uncached.mp uncached req.requester
        · exact ready.not_sharer (by simp [isSh]) (by simp [isSh]) direct
      refine link.pend notSharer (ready.queued joins.request) ?_ ?_
      · rcases joins.states with ⟨-, -, other, -⟩ | ⟨-, shared, -⟩
        · exact other
        · simp [shared]
      · rcases joins.states with ⟨-, -, -, kind, -⟩ | ⟨-, shared, -⟩
        · exact fun modified isSh => kind.mp isSh modified
        · simp [shared]
    · obtain ⟨isSh, shared, sharer, -⟩ := ready.forwarding direct
      have same : entry'.dstate = (system.allocate config).dstate := by
        rcases joins.states with ⟨-, impossible, -⟩ | ⟨old, new, -⟩
        · exact absurd impossible direct
        · rw [old, new]
      have pending : pendingOf system.queue req.requester = true := by
        rw [ready.queue, pendingOf]
        simp [isSh, ShmemReq.retrieving, Option.isSome_iff_ne_none, direct]
      rw [viewOf, sharer, pending, ← same] at link
      exact link
  · have sharers : entry'.sharers core =
        (system.allocate config).sharers core := by
      simp [joins.sharers, own]
    have pending : pendingOf system.queue core = false := by
      rw [ready.queue, pendingOf]
      simp [Ne.symm own]
    rw [sharers, decide_eq_false own]
    rcases joins.states with ⟨uncached, -⟩ | ⟨old, new, -⟩
    · have notSharer := ready.base.entry.uncached.mp uncached core
      exact link.congr_absent notSharer notSharer rfl rfl
    · rw [viewOf, pending, old, ← new] at link
      exact link

theorem Joins.forwarderOk {entry' : DirectoryEntry n}
    (joins : Joins config (system.allocate config) req entry')
    (forwarder : ForwarderOk config (system.allocate config)) :
    ForwarderOk config entry' := by
  intro mesif shared core found
  rcases joins.states with ⟨-, -, -, -, impossible⟩ | ⟨old, -, -, same⟩
  · exact absurd shared (impossible mesif)
  · have sharer := forwarder mesif old core (same ▸ found)
    rw [joins.sharers]
    by_cases own : core = req.requester
    · simp [own]
    · simp [own, sharer]

/-! ## The request at the head of the queue waits -/

/-- What a sharer can have been told. -/
theorem asksOf_cases (entry : DirectoryEntry n) (req : ShmemReq n Line)
    (core : Fin n) :
    asksOf entry req core = .nothing ∨
    ((entry.dstate = .exclusive ∨ entry.dstate = .modified) ∧
      asksOf entry req core =
        if req.msgType = .shReq then .writeBack else .flush) ∨
    (entry.dstate = .shared ∧ req.msgType ≠ .shReq ∧
      ∃ orFlush, asksOf entry req core = .invalidate orFlush) ∨
    (entry.dstate = .shared ∧ req.msgType = .shReq ∧
      req.forwardingFrom = some core ∧
      asksOf entry req core = .writeBack) := by
  by_cases waits : req.waitForData = true
  · simp [asksOf, waits]
  · cases state : entry.dstate with
    | uncached => simp [asksOf, state]
    | exclusive | modified => simp [asksOf, waits, state]
    | shared =>
        cases kind : req.msgType with
        | exReq | nullifyReq => simp [asksOf, waits, state, kind]
        | upgradeReq =>
            by_cases own : core = req.requester
            · simp [asksOf, waits, state, kind, own]
            · simp [asksOf, waits, state, kind, own]
        | shReq =>
            by_cases forwards : req.forwardingFrom = some core
            · simp [asksOf, waits, state, kind, forwards]
            · simp [asksOf, waits, state, kind, forwards]

theorem HeadOk.consistent {entry : DirectoryEntry n}
    (head : HeadOk config entry req) (ok : config.Ok) (sharer pending : Bool)
    (queued : Option ReqType) (core : Fin n) :
    View.Consistent (config.maxHwSharers < n)
      ⟨sharer, entry.dstate, pending, queued, asksOf entry req core⟩ := by
  rcases asksOf_cases entry req core with same | ⟨owned, same⟩ |
    ⟨shared, -, orFlush, same⟩ | ⟨shared, -, forwards, same⟩
  · rw [same]
    exact ⟨head.cached, by simp, by simp, by simp⟩
  · have notShared : entry.dstate ≠ .shared := by
      rcases owned with state | state <;> simp [state]
    rw [same]
    refine ⟨head.cached, fun _ => notShared, fun orFlush told => ?_,
      fun _ _ => notShared⟩
    dsimp only at told
    split_ifs at told
  · rw [same]
    exact ⟨head.cached, by simp, fun _ _ => shared, by simp⟩
  · have mesif := (head.forwarding (by simp [forwards])).2.2.2
    rw [same]
    exact ⟨head.cached, by simp, by simp,
      fun limited _ => absurd limited (ok.mesif mesif)⟩

theorem asksOf_waiting (entry : DirectoryEntry n)
    (waits : req.waitForData = true) (core : Fin n) :
    asksOf entry req core = .nothing := by
  simp [asksOf, waits]

theorem asksOf_share {entry : DirectoryEntry n}
    (shared : entry.dstate = .shared) (isSh : req.msgType = .shReq)
    {core : Fin n} (other : req.forwardingFrom ≠ some core) :
    asksOf entry req core = .nothing := by
  simp [asksOf, shared, isSh, other]

/-- The invariant when a request waits at the head of the queue. -/
theorem Inv.of_head (entry : DirectoryEntry n)
    (allocated : next.allocate config = entry)
    (isHead : next.queue = req :: rest)
    (links : ∀ core, Link (config.maxHwSharers < n)
      ⟨entry.sharers core, entry.dstate, pendingOf (req :: rest) core,
        queuedOf (req :: rest) core, asksOf entry req core⟩
      (next.caches core) (next.toCache core) (next.toDirectory core))
    (ok : EntryOk entry) (queue : QueueOk (req :: rest))
    (reads : readsOf next = if req.waitForData then 1 else 0)
    (forwarder : ForwarderOk config entry) (head : HeadOk config entry req) :
    Inv config next := by
  refine ⟨⟨?_, allocated ▸ ok, isHead ▸ queue, isHead ▸ reads⟩,
    allocated ▸ forwarder, ?_⟩
  · rw [allocated, isHead]
    exact links
  · intro other tail found
    obtain ⟨rfl, -⟩ := List.cons.inj (isHead.symm.trans found)
    rw [allocated]
    exact head

theorem Ready.queueOk (ready : Ready config system req rest cached) :
    QueueOk (req :: rest) := by
  have queue := ready.base.queue
  rwa [ready.queue] at queue

theorem Ready.reads (ready : Ready config system req rest cached) :
    readsOf system = 0 := by
  have reads := ready.base.reads
  rw [ready.queue, waitsOf, ready.unwaiting] at reads
  simpa using reads

/-- The request has told sharers what to do. -/
theorem Ready.inv_asks (ready : Ready config system req rest cached)
    (ok : config.Ok) {msg : Fin n → ToCache Line} {receivers : List (Fin n)}
    (nodup : receivers.Nodup)
    (told : ∀ core, core ∈ receivers ↔
      (system.allocate config).sharers core = true ∧
        asksOf (system.allocate config) req core ≠ .nothing)
    (allows : ∀ core ∈ receivers,
      (asksOf (system.allocate config) req core).Allows (msg core))
    (direct : req.forwardingFrom = none)
    (head : HeadOk config (system.allocate config) req)
    (forwarder : ForwarderOk config (system.allocate config)) :
    Inv config ((system.setEntry (system.allocate config)).sendEach msg
      receivers) := by
  rw [sendEach_request nodup fun core mem => (allows core mem).repType]
  refine .of_head (system.allocate config) rfl ready.queue (fun core => ?_)
    ready.base.entry ready.queueOk ?_ forwarder head
  · have link := ready.base.links core
    have pending := ready.pending core direct
    rw [ready.queue] at link pending
    dsimp only
    by_cases mem : core ∈ receivers
    · rw [if_pos mem]
      exact link.ask ((told core).mp mem).1 pending rfl (allows core mem)
        (head.consistent ok ..)
    · rw [if_neg mem]
      by_cases sharer : (system.allocate config).sharers core = true
      · have nothing : asksOf (system.allocate config) req core =
            .nothing := by
          by_contra other
          exact mem ((told core).mpr ⟨sharer, other⟩)
        rw [nothing]
        exact link
      · have notSharer : (system.allocate config).sharers core = false := by
          simpa using sharer
        exact link.congr_absent notSharer notSharer pending rfl
  · rw [ready.unwaiting]
    exact ready.reads

/-- The sharer list is full, and a sharer is invalidated. -/
theorem Ready.inv_surplus (ready : Ready config system req rest cached)
    (ok : config.Ok) {sharer : Fin n} (limited : config.maxHwSharers < n)
    (shared : (system.allocate config).dstate = .shared)
    (isSharer : (system.allocate config).sharers sharer = true)
    (isSh : req.msgType = .shReq) (direct : req.forwardingFrom = none)
    (notSharer : (system.allocate config).sharers req.requester = false) :
    Inv config ((system.setEntry (system.allocate config)).sendMsg .invReq
      sharer) := by
  rw [sendMsg_request _ _ rfl]
  refine .of_head (system.allocate config) rfl ready.queue (fun core => ?_)
    ready.base.entry ready.queueOk ?_ (fun mesif => absurd limited (ok.mesif mesif)) ?_
  · have link := ready.base.links core
    have pending := ready.pending core direct
    rw [ready.queue] at link pending
    rw [asksOf_share shared isSh (by simp [direct])]
    dsimp only [System.setEntry]
    by_cases same : core = sharer
    · subst same
      rw [update_self]
      exact link.surplus isSharer pending limited shared rfl
    · rw [update_of_ne same]
      exact link
  · rw [ready.unwaiting]
    exact ready.reads
  · refine ⟨by simp [shared], fun forwards => absurd direct forwards,
      fun waits => ?_, fun _ => ?_⟩
    · rw [ready.unwaiting] at waits
      cases waits
    · rw [isSh, direct]
      exact ⟨fun _ => notSharer, fun _ => ⟨limited, notSharer⟩⟩

/-- The data is read from the DRAM. -/
theorem Ready.inv_fetch (ready : Ready config system req rest cached)
    {entry' : DirectoryEntry n}
    (joins : Joins config (system.allocate config) req entry')
    (noData : cached = none) :
    Inv config { (system.setEntry entry').updateHead fun req =>
      { req with waitForData := true } with
        toDram := system.toDram ++ [.readReq] } := by
  have isSharer : entry'.sharers req.requester = true := by
    simp [joins.sharers]
  have isHead : (system.queue.modifyHead fun req =>
      { req with waitForData := true }) =
      { req with waitForData := true } :: rest := by
    rw [ready.queue]
    rfl
  refine .of_head entry' rfl isHead (fun core => ?_) joins.ok
    (ready.queueOk.congr_head rfl rfl) ?_
    (joins.forwarderOk (ready.forwarder noData)) ?_
  · have link := joins.pend ready core
    have pending : pendingOf ({ req with waitForData := true } :: rest) core =
        decide (core = req.requester) := by
      simp [pendingOf, ShmemReq.retrieving, joins.request, eq_comm]
    have queued : queuedOf ({ req with waitForData := true } :: rest) core =
        queuedOf (req :: rest) core := by
      rw [queuedOf_cons, queuedOf_cons]
    rw [ready.queue] at link
    rw [asksOf_waiting entry' rfl, pending, queued]
    exact link
  · have reads := ready.reads
    simp only [readsOf, System.updateHead, System.setEntry,
      List.countP_append, List.countP_singleton] at reads ⊢
    simp
    omega
  · refine ⟨?_, ?_, fun _ => ⟨isSharer, joins.request, ?_⟩,
      fun impossible => by cases impossible⟩
    · rcases joins.states with ⟨-, -, cached, -⟩ | ⟨-, shared, -⟩
      · exact cached
      · simp [shared]
    · intro forwards
      obtain ⟨isSh, -, -, mesif⟩ := ready.forwarding forwards
      refine ⟨isSh, ?_, isSharer, mesif⟩
      rcases joins.states with ⟨-, direct, -⟩ | ⟨-, shared, -⟩
      · exact absurd direct forwards
      · exact shared
    · rcases joins.states with ⟨-, -, -, kind, -⟩ | ⟨-, shared, isSh, -⟩
      · exact kind
      · simp [isSh, shared]

/-- The data is asked from the forwarder. -/
theorem Ready.inv_forward (ready : Ready config system req rest cached)
    (ok : config.Ok) {entry' : DirectoryEntry n} {forwarder : Fin n}
    (joins : Joins config (system.allocate config) req entry')
    (noData : cached = none) (mesif : config.protocol = .mesif)
    (direct : req.forwardingFrom = none) (shared : entry'.dstate = .shared)
    (found : entry'.forwarder = some forwarder) :
    Inv config (((system.setEntry entry').updateHead fun req =>
      { req with forwardingFrom := some forwarder }).sendMsg .wbReq
        forwarder) := by
  have forwarderOk := joins.forwarderOk (ready.forwarder noData)
  have isHead : (system.queue.modifyHead fun req =>
      { req with forwardingFrom := some forwarder }) =
      { req with forwardingFrom := some forwarder } :: rest := by
    rw [ready.queue]
    rfl
  obtain ⟨old, isSh, same⟩ : (system.allocate config).dstate = .shared ∧
      req.msgType = .shReq ∧
      entry'.forwarder = (system.allocate config).forwarder := by
    rcases joins.states with ⟨-, -, -, -, impossible⟩ | ⟨old, -, isSh, same⟩
    · exact absurd shared (impossible mesif)
    · exact ⟨old, isSh, same⟩
  have isSharer : entry'.sharers req.requester = true := by
    simp [joins.sharers]
  have other : forwarder ≠ req.requester := by
    rintro rfl
    have notSharer := ready.not_sharer (by simp [isSh]) (by simp [isSh]) direct
    rw [ready.forwarder noData mesif old _ (same ▸ found)] at notSharer
    cases notSharer
  rw [sendMsg_request _ _ rfl]
  refine .of_head entry' rfl isHead (fun core => ?_) joins.ok
    (ready.queueOk.congr_head rfl rfl) ?_ forwarderOk ?_
  · have link := joins.pend ready core
    have pending : pendingOf ({ req with
        forwardingFrom := some forwarder } :: rest) core =
        decide (core = req.requester) := by
      simp [pendingOf, ShmemReq.retrieving, joins.request, eq_comm]
    have queued : queuedOf ({ req with
        forwardingFrom := some forwarder } :: rest) core =
        queuedOf (req :: rest) core := by
      rw [queuedOf_cons, queuedOf_cons]
    rw [ready.queue] at link
    rw [pending, queued]
    dsimp only [System.setEntry, System.updateHead]
    by_cases own : core = forwarder
    · subst own
      have asked : asksOf entry' { req with forwardingFrom := some core }
          core = .writeBack := by
        simp [asksOf, ready.unwaiting, shared, isSh]
      rw [asked, update_self]
      refine link.ask (forwarderOk mesif shared core found)
        (decide_eq_false other) rfl trivial ⟨?_, by simp, by simp, ?_⟩
      · simp [shared]
      · exact fun limited => absurd limited (ok.mesif mesif)
    · have asked : asksOf entry' { req with forwardingFrom := some forwarder }
          core = .nothing := by
        simp [asksOf, shared, isSh, Ne.symm own]
      rw [asked, update_of_ne own]
      exact link
  · rw [ready.unwaiting]
    exact ready.reads
  · refine ⟨by simp [shared], fun _ => ⟨isSh, shared, isSharer, mesif⟩, ?_,
      fun _ => ?_⟩
    · intro waits
      rw [ready.unwaiting] at waits
      cases waits
    · dsimp only
      rw [isSh]
      exact ⟨fun notShared => absurd shared notShared, fun _ =>
        ⟨forwarderOk mesif shared forwarder found, other⟩⟩

theorem Outcome.waits (outcome : Outcome config system req cached (next, false))
    (ready : Ready config system req rest cached) (ok : config.Ok) :
    Inv config next := by
  cases outcome with
  | asks nodup told allows direct noData head =>
      exact ready.inv_asks ok nodup told allows direct head
        (ready.forwarder noData)
  | surplus limited shared isSharer isSh direct notSharer =>
      exact ready.inv_surplus ok limited shared isSharer isSh direct notSharer
  | fetch joins noData => exact ready.inv_fetch joins noData
  | forward joins noData mesif direct shared found =>
      exact ready.inv_forward ok joins noData mesif direct shared found

/-! ## The request at the head of the queue is completed -/

/-- The directory between two requests. -/
theorem Idle.of_queue (entry : DirectoryEntry n)
    (rest : List (ShmemReq n Line))
    (allocated : next.allocate config = entry) (isQueue : next.queue = rest)
    (links : ∀ core, Link (config.maxHwSharers < n)
      ⟨entry.sharers core, entry.dstate, false, queuedOf rest core, .nothing⟩
      (next.caches core) (next.toCache core) (next.toDirectory core))
    (ok : EntryOk entry) (queue : QueueOk rest)
    (fresh : ∀ req ∈ rest, req.Fresh) (reads : readsOf next = 0)
    (forwarder : ForwarderOk config entry)
    (shared : entry.dstate = .shared →
      ∃ core, entry.sharers core = true ∧ queuedOf rest core = none) :
    Idle config next := by
  refine ⟨⟨?_, allocated ▸ ok, isQueue ▸ queue, ?_⟩, allocated ▸ forwarder,
    isQueue ▸ fresh, ?_⟩
  · rw [allocated, isQueue]
    intro core
    rw [viewOf, pendingOf_fresh fresh]
    exact links core
  · rw [isQueue, waitsOf_fresh fresh, reads]
    rfl
  · rw [allocated, isQueue]
    exact shared

/-- The reply with data. -/
theorem Ready.idle_reply (ready : Ready config system req rest cached)
    {entry' : DirectoryEntry n} {data : Data Line}
    (joins : Joins config (system.allocate config) req entry') :
    Idle config (((system.setEntry
        { entry' with forwarder := some req.requester }).sendMsg
      (if entry'.dstate = .shared then .shRep data else .exRep data)
      req.requester).dequeue req rest) := by
  have isSharer : entry'.sharers req.requester = true := by
    simp [joins.sharers]
  have none : queuedOf rest req.requester = none :=
    ready.queueOk.queuedOf_tail joins.request
  refine .of_queue { entry' with forwarder := some req.requester } rest rfl
    rfl (fun core => ?_) ⟨joins.ok.uncached, ?_⟩ ready.queueOk.tail
    ready.queueOk.fresh ready.reads ?_ fun _ => ⟨_, isSharer, none⟩
  · have link := joins.pend ready core
    dsimp only [System.dequeue, System.sendMsg, System.setEntry]
    by_cases own : core = req.requester
    · subst own
      rw [update_self, none]
      refine link.grant (decide_eq_true rfl) ?_
      by_cases shared : entry'.dstate = .shared
      · exact Or.inl ⟨data, if_pos shared, shared⟩
      · exact Or.inr ⟨data, if_neg shared, shared⟩
    · rw [update_of_ne own]
      rw [ready.queue, queuedOf_cons, if_neg (fun same => own same.2.symm),
        decide_eq_false own] at link
      exact link
  · exact joins.ok.owned
  · intro _ _ core found
    obtain rfl := Option.some.inj found
    exact isSharer

/-- The upgrade of the only sharer. -/
theorem Ready.idle_upgrade (ready : Ready config system req rest cached)
    (isUpgrade : req.msgType = .upgradeReq)
    (shared : (system.allocate config).dstate = .shared)
    (only : (system.allocate config).getSharersList = [req.requester])
    (quiet : Undisturbed (system.toCache req.requester)
      (system.toDirectory req.requester)) :
    Idle config (((system.setEntry { system.allocate config with
        owner := some req.requester, dstate := .modified }).sendMsg
      .upgradeRep req.requester).dequeue req rest) := by
  have isRequest : req.msgType ≠ .nullifyReq := by simp [isUpgrade]
  have sharers : ∀ core, (system.allocate config).sharers core = true ↔
      core = req.requester := by
    intro core
    rw [← DirectoryEntry.mem_getSharersList, only, List.mem_singleton]
  have pending := fun core => ready.pending core
    (ready.direct (by simp [isUpgrade]))
  refine .of_queue { system.allocate config with
      owner := some req.requester, dstate := .modified } rest rfl rfl
    (fun core => ?_) ⟨⟨nofun, fun empty => ?_⟩,
      fun _ => ⟨req.requester, rfl, sharers⟩⟩ ready.queueOk.tail
    ready.queueOk.fresh ready.reads (fun _ => nofun) nofun
  · have link := ready.base.links core
    rw [viewOf, pending] at link
    dsimp only [System.dequeue, System.sendMsg, System.setEntry]
    by_cases own : core = req.requester
    · subst own
      rw [update_self, ready.queueOk.queuedOf_tail isRequest]
      refine link.grantUpgrade ((sharers _).mpr rfl) rfl ?_ rfl shared quiet
      exact (ready.queued isRequest).trans (congrArg some isUpgrade)
    · have notSharer : (system.allocate config).sharers core = false := by
        simpa using mt (sharers core).mp own
      rw [update_of_ne own]
      refine link.congr_absent notSharer notSharer rfl ?_
      change _ = queuedOf system.queue core
      rw [ready.queue, queuedOf_cons, if_neg fun same => own same.2.symm]
  · have impossible := empty req.requester
    rw [(sharers _).mpr rfl] at impossible
    cases impossible

/-- The entry has been nullified. -/
theorem Ready.idle_nullified (ready : Ready config system req rest cached)
    (isNullify : req.msgType = .nullifyReq)
    (uncached : (system.allocate config).dstate = .uncached) :
    Idle config ({ system with entry := none }.dequeue req rest) := by
  have notSharer := ready.base.entry.uncached.mp uncached
  refine .of_queue (DirectoryEntry.fresh config) rest rfl rfl
    (fun core => ?_) ⟨⟨fun _ _ => rfl, fun _ => rfl⟩, ?_⟩
    ready.queueOk.tail ready.queueOk.fresh ready.reads (fun _ => nofun) nofun
  · refine (ready.base.links core).congr_absent (notSharer core) rfl rfl ?_
    change _ = queuedOf system.queue core
    rw [ready.queue, queuedOf_cons, if_neg fun same => same.1 isNullify]
  · intro impossible
    rcases impossible with same | same <;> cases same

/-- Nothing disturbs the upgrade of a requester that is the only sharer. -/
def Calm (config : Config n) (system : System n Line)
    (req : ShmemReq n Line) : Prop :=
  req.msgType = .upgradeReq → (system.allocate config).dstate = .shared →
    (system.allocate config).getSharersList = [req.requester] →
    Undisturbed (system.toCache req.requester)
      (system.toDirectory req.requester)

theorem Outcome.completes
    (outcome : Outcome config system req cached (next, true))
    (ready : Ready config system req rest cached)
    (calm : Calm config system req) :
    Idle config (next.dequeue req rest) := by
  cases outcome with
  | reply joins => exact ready.idle_reply joins
  | upgrade isUpgrade shared only =>
      exact ready.idle_upgrade isUpgrade shared only
        (calm isUpgrade shared only)
  | nullified isNullify uncached =>
      exact ready.idle_nullified isNullify uncached

/-! ## One request after the other -/

/-- The requests of the queue are served until one of them waits. -/
inductive Serves (config : Config n) :
    System n Line → Option (Data Line) → System n Line → Prop
  | idle {system : System n Line} :
      Idle config system → system.queue = [] →
      Serves config system none system
  | waits {system next : System n Line} {req : ShmemReq n Line}
      {rest : List (ShmemReq n Line)} {cached : Option (Data Line)} :
      Ready config system req rest cached →
      Outcome config system req cached (next, false) →
      Serves config system cached next
  | completes {system next final : System n Line} {req : ShmemReq n Line}
      {rest : List (ShmemReq n Line)} {cached : Option (Data Line)} :
      Ready config system req rest cached → Calm config system req →
      Outcome config system req cached (next, true) →
      Serves config (next.dequeue req rest) none final →
      Serves config system cached final

theorem Idle.ready (idle : Idle config system)
    (queue : system.queue = req :: rest) :
    Ready config system req rest none := by
  have fresh := (idle.fresh req (by simp [queue])).2
  refine ⟨idle.base, fun _ => idle.forwarder, queue, ?_, ?_⟩
  · rw [fresh]
    rfl
  · intro forwards
    rw [fresh] at forwards
    exact absurd rfl forwards

/-- A request that comes to the head of the queue is not the only sharer. -/
theorem Idle.calm (idle : Idle config system)
    (queue : system.queue = req :: rest) :
    Calm config system req := by
  intro isUpgrade shared only
  obtain ⟨core, sharer, none⟩ := idle.shared shared
  have own : core = req.requester := by
    rw [← List.mem_singleton, ← only]
    exact DirectoryEntry.mem_getSharersList.mpr sharer
  have found := (idle.ready queue).queued (by simp [isUpgrade])
  rw [own, found] at none
  cases none

theorem Idle.inv (idle : Idle config system) (empty : system.queue = []) :
    Inv config system := by
  refine ⟨⟨?_, idle.base.entry, idle.base.queue, idle.base.reads⟩,
    idle.forwarder, ?_⟩
  · intro core
    have link := idle.base.links core
    rw [empty] at link ⊢
    exact link
  · intro req rest impossible
    rw [empty] at impossible
    cases impossible

theorem serveAll_serves (ok : config.Ok) (random : Nat)
    (queue : List (ShmemReq n Line)) :
    ∀ system : System n Line, Idle config system → system.queue = queue →
      ∃ final, System.serveAll config random queue system = .ok final ∧
        Serves config system none final := by
  induction queue with
  | nil =>
      intro system idle empty
      exact ⟨system, rfl, .idle idle empty⟩
  | cons req rest ih =>
      intro system idle found
      have ready := idle.ready found
      have isRequest := (idle.fresh req (by simp [found])).1
      obtain ⟨⟨next, completed⟩, served, outcome⟩ :=
        serve_outcome ready ok random isRequest
      unfold System.serveAll
      rw [served]
      cases completed with
      | false => exact ⟨next, rfl, .waits ready outcome⟩
      | true =>
          have calm := idle.calm found
          obtain ⟨final, run, serves⟩ := ih
            (next.dequeue req rest) (outcome.completes ready calm) rfl
          exact ⟨final, run, .completes ready calm outcome serves⟩

theorem Outcome.queue (outcome : Outcome config system req cached (next, true)) :
    next.queue = system.queue := by
  cases outcome <;> rfl

/-- What follows when the request at the head of the queue has been served. -/
theorem proceed_serves (ok : config.Ok) (random : Nat)
    {result : System n Line × Bool}
    (ready : Ready config system req rest cached)
    (calm : Calm config system req)
    (outcome : Outcome config system req cached result) :
    ∃ final, System.proceed config random result = .ok final ∧
      Serves config system cached final := by
  obtain ⟨next, completed⟩ := result
  cases completed with
  | false => exact ⟨next, rfl, .waits ready outcome⟩
  | true =>
      have queue : next.queue = req :: rest :=
        outcome.queue.trans ready.queue
      obtain ⟨final, run, serves⟩ := serveAll_serves ok random rest
        (next.dequeue req rest) (outcome.completes ready calm) rfl
      refine ⟨final, ?_, .completes ready calm outcome serves⟩
      rw [System.proceed, if_pos rfl,
        System.processNextReqFromL2Cache_of_queue random queue]
      exact run

/-- The request at the head of the queue is served, and what follows. -/
theorem Ready.proceeds (ready : Ready config system req rest cached)
    (ok : config.Ok) (random : Nat) (calm : Calm config system req)
    {served : Except Failure (System n Line × Bool)}
    (outcome : ∃ result, served = .ok result ∧
      Outcome config system req cached result) :
    ∃ final, (served >>= System.proceed config random) = .ok final ∧
      Serves config system cached final := by
  obtain ⟨result, rfl, outcome⟩ := outcome
  exact proceed_serves ok random ready calm outcome

theorem Serves.inv (serves : Serves config system cached next)
    (ok : config.Ok) :
    Inv config next := by
  induction serves with
  | idle idle empty => exact idle.inv empty
  | waits ready outcome => exact outcome.waits ready ok
  | completes _ _ _ _ ih => exact ih

end ChipletSniper.Coherence
