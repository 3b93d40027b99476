import ChipletSniper.Coherence.Safety
import ChipletSniper.Library.Sums

/-!
# The work that is left

A number for each state that every step lowers, unless a core starts a new
operation: each message, each request, each copy and each sharer counts for
the steps to which it can still lead.
-/

namespace ChipletSniper.Coherence

open Library

variable {n : Nat} {Line : Type} {config : Config n}
variable {system next : System n Line} {req : ShmemReq n Line}
variable {rest : List (ShmemReq n Line)} {msgType : ReqType}

/-! ## Weights -/

/-- A shared copy can be followed by a request for an upgrade. -/
def RepType.work (n : Nat) : RepType → Nat
  | .exRep | .upgradeRep => 4
  | .shRep => 24 * n + 17

def ToCache.work (n : Nat) (msg : ToCache Line) : Nat :=
  match msg.repType with
  | some repType => repType.work n
  | none => 3

/-- The most that the reply to a request counts for. -/
def ReqType.replyWork (n : Nat) : ReqType → Nat
  | .shReq => RepType.work n .shRep
  | .exReq | .upgradeReq => 4
  | .nullifyReq => 0

/-- A request that has not come to the head of the queue. -/
def ReqType.work (n : Nat) (msgType : ReqType) : Nat :=
  if msgType = .nullifyReq then 0 else msgType.replyWork n + 21 * n + 8

/-- The request at the head of the queue: the reply and the new sharer, and
the data that may have to be fetched or asked for. -/
def ShmemReq.work (req : ShmemReq n Line) : Nat :=
  if req.msgType = .nullifyReq then 0
  else
    req.msgType.replyWork n + (6 * n + 1) +
      (if req.waitForData then 0 else 6 * n + 3) +
      if req.forwardingFrom.isSome then 0 else 6 * n + 4

def queueWork : List (ShmemReq n Line) → Nat
  | [] => 0
  | req :: rest => req.work + (rest.map fun req => req.msgType.work n).sum

def ToDirectory.work (n : Nat) (msg : ToDirectory Line) : Nat :=
  match msg.reqType with
  | some msgType => msgType.work n + 3 * n + 1
  | none => 2

def ToDram.work : ToDram Line → Nat
  | .readReq => 2
  | .writeReq _ => 1

/-- One cache, the messages to it and from it, and what the directory can
tell it. -/
def linkWork (n : Nat) (sharer : Bool) (cache : Llc Line)
    (down : List (ToCache Line)) (up : List (ToDirectory Line)) : Nat :=
  (if sharer then 3 * n else 0) +
    (if cache.cstate = .invalid then 0 else 3) +
    (down.map (ToCache.work n)).sum + (up.map (ToDirectory.work n)).sum

/-- An entry can be replaced, unless it is being replaced. -/
def entryWork (n : Nat) (present : Bool) (queue : List (ShmemReq n Line)) :
    Nat :=
  match present, queue with
  | false, _ => 0
  | true, [] => 3 * n + 1
  | true, req :: _ => if req.msgType = .nullifyReq then 0 else 3 * n + 1

namespace System

def linksWork (config : Config n) (system : System n Line) : Nat :=
  ∑ core, linkWork n ((system.allocate config).sharers core)
    (system.caches core) (system.toCache core) (system.toDirectory core)

def work (config : Config n) (system : System n Line) : Nat :=
  system.linksWork config + queueWork system.queue +
    entryWork n system.entry.isSome system.queue +
    (system.toDram.map ToDram.work).sum + system.fromDram.length

end System

/-! ## One link -/

theorem ToCache.work_request {msg : ToCache Line}
    (request : msg.repType = none) :
    msg.work n = 3 := by
  rw [ToCache.work, request]

theorem ToDirectory.work_request {msg : ToDirectory Line} {msgType : ReqType}
    (request : msg.reqType = some msgType) :
    msg.work n = msgType.work n + 3 * n + 1 := by
  rw [ToDirectory.work, request]

/-- The messages of a cache that do not ask for the line. -/
theorem ToDirectory.work_answer {msg : ToDirectory Line}
    (answer : msg.reqType = none) :
    msg.work n = 2 := by
  rw [ToDirectory.work, answer]

section Link

variable {limited : Prop} {view : View} {cache cache' : Llc Line}
variable {down : List (ToCache Line)} {up up' : List (ToDirectory Line)}

theorem linkWork_send (n : Nat) (sharer : Bool) (cache : Llc Line)
    (down : List (ToCache Line)) (up : List (ToDirectory Line))
    (msg : ToDirectory Line) :
    linkWork n sharer cache down (up ++ [msg]) =
      linkWork n sharer cache down up + msg.work n := by
  simp [linkWork]
  omega

theorem linkWork_receive (n : Nat) (sharer : Bool) (cache : Llc Line)
    (down : List (ToCache Line)) (up : List (ToDirectory Line))
    (msg : ToCache Line) :
    linkWork n sharer cache (msg :: down) up =
      linkWork n sharer cache down up + msg.work n := by
  simp [linkWork]
  omega

theorem linkWork_tell (n : Nat) (sharer : Bool) (cache : Llc Line)
    (down : List (ToCache Line)) (up : List (ToDirectory Line))
    (msg : ToCache Line) :
    linkWork n sharer cache (down ++ [msg]) up =
      linkWork n sharer cache down up + msg.work n := by
  simp [linkWork]
  omega

/-- A cache that gives up its copy. -/
theorem linkWork_drop (sharer : Bool) (down : List (ToCache Line))
    (up : List (ToDirectory Line)) (valid : cache.cstate ≠ .invalid) :
    linkWork n sharer cache.drop down up + 3 =
      linkWork n sharer cache down up := by
  simp [linkWork, Llc.drop, valid]
  omega

/-- Whatever a cache becomes. -/
theorem linkWork_le (sharer : Bool) (cache cache' : Llc Line)
    (down : List (ToCache Line)) (up : List (ToDirectory Line)) :
    linkWork n sharer cache' down up ≤
      linkWork n sharer cache down up + 3 := by
  unfold linkWork
  split_ifs <;> omega

/-- A copy whose state changes. -/
theorem linkWork_of_valid {sharer : Bool} (valid : cache.cstate ≠ .invalid)
    (valid' : cache'.cstate ≠ .invalid) :
    linkWork n sharer cache' down up = linkWork n sharer cache down up := by
  rw [linkWork, linkWork, if_neg valid, if_neg valid']

/-- A copy that is being upgraded is shared. -/
theorem Link.shared_of_upgrading
    (link : Link limited view cache down [.upgradeReq])
    (valid : cache.cstate ≠ .invalid) :
    view.dstate = .shared := by
  generalize same : [ToDirectory.upgradeReq] = sent at link
  cases link with
  | absent _ _ cstate => exact absurd cstate valid
  | pending => cases same
  | granted => cases same
  | left _ _ _ cstate => exact absurd cstate valid
  | @held _ _ answered upgrade _ _ _ copy _ sent _ tokens =>
      subst same
      cases sent with
      | upgrade =>
          rcases tokens with ⟨upgrading, -⟩ | ⟨-, impossible, -⟩
          · rw [upgrading] at copy
            exact copy.upgrading.resolve_left Bool.false_ne_true
          · cases impossible

/-- What a reply counts for is enough for the copy, and for an upgrade of a
shared copy. -/
theorem Grant.work_lt {grant : ToCache Line}
    (granted : Grant view cache [] grant) :
    3 < grant.work n ∧
      (view.dstate = .shared → 3 + ReqType.work n .upgradeReq + 3 * n + 1 <
        grant.work n) := by
  cases grant with
  | exRep data =>
      obtain ⟨-, notShared, -⟩ := granted
      refine ⟨?_, fun shared => absurd shared notShared⟩
      simp [ToCache.work, ToCache.repType, RepType.work]
  | shRep data =>
      simp [ToCache.work, ToCache.repType, RepType.work, ReqType.work,
        ReqType.replyWork]
      omega
  | upgradeRep =>
      obtain ⟨-, modified, -⟩ := granted
      refine ⟨?_, fun shared => ?_⟩
      · simp [ToCache.work, ToCache.repType, RepType.work]
      · rw [modified] at shared
        cases shared
  | invReq | flushReq | wbReq => exact granted.elim

/-- A cache that receives a message. -/
theorem CacheMove.work_lt {msg : ToCache Line} {last last' : Line}
    (moves : CacheMove cache (msg :: down) up last cache' down up' last')
    (link : Link limited view cache (msg :: down) up)
    (linked : Link limited view cache' down up') (sharer : Bool) :
    linkWork n sharer cache' down up' <
      linkWork n sharer cache (msg :: down) up := by
  rw [linkWork_receive]
  generalize same : msg :: down = received at moves
  cases moves with
  | load | store | wait | request | upgrade | evict =>
      exact absurd same (List.cons_ne_self msg down)
  | ignore request =>
      obtain ⟨rfl, -⟩ := List.cons.inj same
      rw [ToCache.work_request request]
      omega
  | invalidate valid =>
      obtain ⟨rfl, -⟩ := List.cons.inj same
      have lost := linkWork_drop (n := n) sharer down up valid
      rw [linkWork_send, ToCache.work_request rfl,
        ToDirectory.work_answer rfl]
      omega
  | flush valid =>
      obtain ⟨rfl, -⟩ := List.cons.inj same
      have lost := linkWork_drop (n := n) sharer down up valid
      rw [linkWork_send, ToCache.work_request rfl,
        ToDirectory.work_answer rfl]
      omega
  | writeBack valid =>
      obtain ⟨rfl, -⟩ := List.cons.inj same
      rw [linkWork_send, ToCache.work_request rfl,
        ToDirectory.work_answer rfl, linkWork_of_valid valid]
      · omega
      · dsimp only
        split_ifs <;> simp
  | fill reply valid _ _ sent =>
      obtain ⟨rfl, -⟩ := List.cons.inj same
      obtain ⟨rfl, granted, -⟩ := link.of_reply reply
      obtain ⟨enough, upgrades⟩ := granted.work_lt (n := n)
      have kept := linkWork_le (n := n) sharer cache cache' down []
      rcases sent with rfl | rfl
      · omega
      · have more := upgrades (linked.shared_of_upgrading valid)
        rw [linkWork_send, ToDirectory.work_request rfl]
        omega

end Link

/-! ## The queue -/

/-- What the request that comes to the head of the queue can ask. -/
def askWork (n : Nat) : List (ShmemReq n Line) → Nat
  | [] => 0
  | _ :: _ => 3 * n

theorem ShmemReq.work_of_fresh (fresh : req.Fresh) :
    req.work + 3 * n = req.msgType.work n := by
  obtain ⟨isRequest, new⟩ := fresh
  have waits : req.waitForData = false := by
    rw [new]
    rfl
  have direct : req.forwardingFrom = none := by
    rw [new]
    rfl
  rw [ShmemReq.work, ReqType.work, if_neg isRequest, if_neg isRequest, waits,
    direct]
  simp
  omega

/-- A request at the head of the queue counts for its reply. -/
theorem ShmemReq.replyWork_le (isRequest : req.msgType ≠ .nullifyReq) :
    req.msgType.replyWork n + (6 * n + 1) ≤ req.work := by
  rw [ShmemReq.work, if_neg isRequest]
  omega

theorem queueWork_cons (req : ShmemReq n Line)
    (rest : List (ShmemReq n Line)) :
    queueWork (req :: rest) =
      req.work + (rest.map fun req => req.msgType.work n).sum :=
  rfl

/-- The requests behind the head come to the head. -/
theorem queueWork_tail (fresh : ∀ req ∈ rest, req.Fresh) :
    queueWork rest + askWork n rest ≤
      (rest.map fun req => req.msgType.work n).sum := by
  cases rest with
  | nil => exact le_refl 0
  | cons first rest =>
      have same := ShmemReq.work_of_fresh (fresh first List.mem_cons_self)
      simp only [queueWork, askWork, List.map_cons, List.sum_cons]
      omega

theorem queueWork_append (isRequest : msgType ≠ .nullifyReq)
    (queue : List (ShmemReq n Line)) (core : Fin n) :
    queueWork (queue ++ [ShmemReq.new msgType core]) +
        askWork n (queue ++ [ShmemReq.new msgType core]) ≤
      queueWork queue + msgType.work n + 3 * n := by
  cases queue with
  | nil =>
      have fresh : (ShmemReq.new msgType core : ShmemReq n Line).Fresh :=
        ⟨isRequest, rfl⟩
      have same := ShmemReq.work_of_fresh fresh
      simp only [List.nil_append, queueWork, askWork, List.map_nil,
        List.sum_nil]
      change _ = msgType.work n at same
      omega
  | cons first rest =>
      simp [queueWork, askWork, ShmemReq.new]
      omega

theorem entryWork_le (present : Bool) (queue : List (ShmemReq n Line)) :
    entryWork n present queue ≤ 3 * n + 1 := by
  unfold entryWork
  split
  · omega
  · omega
  · split_ifs <;> omega

/-- The request at the head of the queue leaves it. -/
theorem entryWork_tail {present : Bool}
    (isRequest : req.msgType = .nullifyReq → present = false) :
    entryWork n present rest ≤ entryWork n present (req :: rest) := by
  cases present with
  | false => exact le_refl 0
  | true =>
      have other : req.msgType ≠ .nullifyReq :=
        fun same => absurd (isRequest same) Bool.true_eq_false_eq_False
      rw [entryWork, if_neg other]
      exact entryWork_le true rest

/-! ## What the directory does -/

namespace System

/-- A change of one link. -/
theorem linksWork_le {gained lost : Nat} (core : Fin n)
    (others : ∀ other, other ≠ core →
      (next.allocate config).sharers other =
          (system.allocate config).sharers other ∧
        next.caches other = system.caches other ∧
        next.toCache other = system.toCache other ∧
        next.toDirectory other = system.toDirectory other)
    (own : linkWork n ((next.allocate config).sharers core)
          (next.caches core) (next.toCache core) (next.toDirectory core) +
        lost ≤
      linkWork n ((system.allocate config).sharers core)
          (system.caches core) (system.toCache core)
          (system.toDirectory core) + gained) :
    next.linksWork config + lost ≤ system.linksWork config + gained := by
  refine sum_le_of_others core (fun other different => ?_) own
  obtain ⟨sharers, caches, down, up⟩ := others other different
  rw [sharers, caches, down, up]

theorem work_sendMsg (config : Config n) (system : System n Line)
    (msg : ToCache Line) (receiver : Fin n) :
    (system.sendMsg msg receiver).work config ≤
      system.work config + msg.work n := by
  have links : (system.sendMsg msg receiver).linksWork config + 0 ≤
      system.linksWork config + msg.work n := by
    refine linksWork_le receiver (fun other different => ?_) ?_
    · exact ⟨rfl, rfl, Function.update_of_ne different .., rfl⟩
    · change linkWork n _ (system.caches receiver)
        (Function.update system.toCache receiver
          (system.toCache receiver ++ [msg]) receiver) _ + 0 ≤ _
      rw [Function.update_self, linkWork_tell]
      exact le_refl _
  change (system.sendMsg msg receiver).linksWork config +
    queueWork system.queue + entryWork n system.entry.isSome system.queue +
    (system.toDram.map ToDram.work).sum + system.fromDram.length ≤ _
  unfold work
  omega

theorem work_sendEach (config : Config n) (system : System n Line)
    {msg : Fin n → ToCache Line} (receivers : List (Fin n))
    (requests : ∀ core ∈ receivers, (msg core).repType = none) :
    (system.sendEach msg receivers).work config ≤
      system.work config + 3 * receivers.length := by
  induction receivers generalizing system with
  | nil => exact le_refl _
  | cons first rest ih =>
      have later := ih (system.sendMsg (msg first) first)
        fun core mem => requests core (List.mem_cons_of_mem first mem)
      have here := work_sendMsg config system (msg first) first
      rw [ToCache.work_request (requests first List.mem_cons_self)] at here
      change ((system.sendMsg (msg first) first).sendEach msg rest).work
        config ≤ _
      rw [List.length_cons]
      omega

theorem work_sendDataToDram (config : Config n) (system : System n Line)
    (data : Data Line) :
    (system.sendDataToDram data).work config = system.work config + 1 := by
  change system.linksWork config + queueWork system.queue +
    entryWork n system.entry.isSome system.queue +
    ((system.toDram ++ [ToDram.writeReq data]).map ToDram.work).sum +
    system.fromDram.length = _
  rw [List.map_append, List.sum_append]
  simp only [List.map_cons, List.map_nil, List.sum_cons, List.sum_nil,
    ToDram.work, work]
  omega

theorem work_readReq (config : Config n) (system : System n Line) :
    work config { system with toDram := system.toDram ++ [.readReq] } =
      system.work config + 2 := by
  change system.linksWork config + queueWork system.queue +
    entryWork n system.entry.isSome system.queue +
    ((system.toDram ++ [ToDram.readReq]).map ToDram.work).sum +
    system.fromDram.length = _
  rw [List.map_append, List.sum_append]
  simp only [List.map_cons, List.map_nil, List.sum_cons, List.sum_nil,
    ToDram.work, work]
  omega

/-- The request at the head of the queue is changed. -/
theorem work_updateHead (config : Config n)
    (queue : system.queue = req :: rest)
    (change' : ShmemReq n Line → ShmemReq n Line)
    (kind : (change' req).msgType = req.msgType) :
    (system.updateHead change').work config + req.work =
      system.work config + (change' req).work := by
  have head : (system.updateHead change').queue = change' req :: rest := by
    rw [updateHead, queue]
    rfl
  have entry : entryWork n system.entry.isSome (change' req :: rest) =
      entryWork n system.entry.isSome (req :: rest) := by
    cases system.entry.isSome with
    | false => rfl
    | true => rw [entryWork, entryWork, kind]
  unfold work
  rw [head, queue]
  change system.linksWork config + _ +
    entryWork n system.entry.isSome (change' req :: rest) + _ + _ + _ = _
  rw [entry, queueWork_cons, queueWork_cons]
  dsimp only [updateHead]
  omega

/-- The entry is changed, but not its sharers, apart from one. -/
theorem work_setEntry (config : Config n) (system : System n Line)
    (entry' : DirectoryEntry n) (core : Fin n) (gained lost : Nat)
    (others : ∀ other, other ≠ core →
      entry'.sharers other = (system.allocate config).sharers other)
    (own : (if entry'.sharers core then 3 * n else 0) + lost ≤
      (if (system.allocate config).sharers core then 3 * n else 0) +
        gained) :
    (system.setEntry entry').work config + lost ≤
      system.work config + gained + if system.entry.isSome then 0
        else 3 * n + 1 := by
  have links : (system.setEntry entry').linksWork config + lost ≤
      system.linksWork config + gained := by
    refine linksWork_le core (fun other different => ?_) ?_
    · exact ⟨others other different, rfl, rfl, rfl⟩
    · change linkWork n (entry'.sharers core) (system.caches core)
        (system.toCache core) (system.toDirectory core) + lost ≤ _
      unfold linkWork
      omega
  have entry := entryWork_le true system.queue
  change (system.setEntry entry').linksWork config +
    queueWork system.queue + entryWork n true system.queue +
    (system.toDram.map ToDram.work).sum + system.fromDram.length + lost ≤ _
  unfold work
  cases found : system.entry with
  | none =>
      simp
      omega
  | some old =>
      simp
      omega

/-- The entry of a line without sharers is removed. -/
theorem work_clear (config : Config n) (system : System n Line)
    (alone : ∀ core, (system.allocate config).sharers core = false) :
    work config { system with entry := none } ≤ system.work config := by
  have links : linksWork config { system with entry := none } =
      system.linksWork config := by
    refine Finset.sum_congr rfl fun core _ => ?_
    rw [alone core]
    rfl
  change linksWork config { system with entry := none } +
    queueWork system.queue + 0 + (system.toDram.map ToDram.work).sum +
    system.fromDram.length ≤ _
  unfold work
  omega

theorem work_dequeue (config : Config n) (system : System n Line)
    (queue : system.queue = req :: rest)
    (fresh : ∀ req ∈ rest, req.Fresh)
    (nullified : req.msgType = .nullifyReq → system.entry = none) :
    (system.dequeue req rest).work config + askWork n rest + req.work ≤
      system.work config := by
  have tail := queueWork_tail fresh
  have entry : entryWork n system.entry.isSome rest ≤
      entryWork n system.entry.isSome (req :: rest) := by
    refine entryWork_tail fun isNullify => ?_
    rw [nullified isNullify]
    rfl
  change system.linksWork config + queueWork rest +
    entryWork n system.entry.isSome rest +
    (system.toDram.map ToDram.work).sum + system.fromDram.length +
    askWork n rest + req.work ≤ _
  unfold work
  rw [queue, queueWork_cons]
  omega

end System

/-! ## Serving requests -/

/-- The requester becomes a sharer. -/
theorem Joins.work {entry' : DirectoryEntry n}
    (joins : Joins config (system.allocate config) req entry')
    (forwarder : Option (Fin n)) :
    (system.setEntry { entry' with forwarder := forwarder }).work config ≤
      system.work config + (6 * n + 1) := by
  have changed := System.work_setEntry config system
    { entry' with forwarder := forwarder } req.requester (3 * n) 0
    (fun other different => ?_) ?_
  · split_ifs at changed <;> omega
  · change entry'.sharers other = _
    rw [joins.sharers, Function.update_of_ne different]
  · split_ifs <;> omega

/-- The entry of a line that is cached is there. -/
theorem isSome_of_cached
    (cached : (system.allocate config).dstate ≠ .uncached) :
    system.entry.isSome = true := by
  cases found : system.entry with
  | none =>
      rw [System.allocate, found] at cached
      exact absurd rfl cached
  | some entry => rfl

theorem setEntry_allocate
    (cached : (system.allocate config).dstate ≠ .uncached) :
    system.setEntry (system.allocate config) = system := by
  obtain ⟨entry, found⟩ := Option.isSome_iff_exists.mp
    (isSome_of_cached cached)
  rw [System.allocate, found, System.setEntry, Option.getD_some, ← found]

theorem Outcome.work_waits {cached : Option (Data Line)}
    (outcome : Outcome config system req cached (next, false))
    (ready : Ready config system req rest cached)
    (full : ¬ config.maxHwSharers < n) :
    next.work config ≤ system.work config +
      if cached = none then 3 * n else 0 := by
  cases outcome with
  | @asks msg receivers nodup told allows direct noData head =>
      rw [setEntry_allocate head.cached, if_pos noData]
      have sent := System.work_sendEach config system receivers
        fun core mem => (allows core mem).repType
      have few := nodup.length_le_card
      rw [Fintype.card_fin] at few
      omega
  | surplus limited => exact absurd limited full
  | @fetch entry' joins noData =>
      have joined := joins.work entry'.forwarder
      have queue : (system.setEntry entry').queue = req :: rest := ready.queue
      have changed := System.work_updateHead config queue
        (fun req => { req with waitForData := true }) rfl
      have fetched := System.work_readReq config
        ((system.setEntry entry').updateHead fun req =>
          { req with waitForData := true })
      have spent : ShmemReq.work { req with waitForData := true } +
          (6 * n + 3) = req.work := by
        simp [ShmemReq.work, joins.request, ready.unwaiting]
        omega
      change (system.setEntry entry').work config ≤ _ at joined
      refine fetched.le.trans ?_
      omega
  | @forward entry' forwarder joins noData mesif direct shared found =>
      have joined := joins.work entry'.forwarder
      have queue : (system.setEntry entry').queue = req :: rest := ready.queue
      have changed := System.work_updateHead config queue
        (fun req => { req with forwardingFrom := some forwarder }) rfl
      have sent := System.work_sendMsg config
        ((system.setEntry entry').updateHead fun req =>
          { req with forwardingFrom := some forwarder }) .wbReq forwarder
      have spent : ShmemReq.work
            { req with forwardingFrom := some forwarder } + (6 * n + 4) =
          req.work := by
        simp [ShmemReq.work, joins.request, direct]
      rw [ToCache.work_request rfl] at sent
      change (system.setEntry entry').work config ≤ _ at joined
      omega

/-- What a reply with data counts for. -/
theorem ReqType.data_work_le (isRequest : msgType ≠ .nullifyReq)
    (dstate : DirectoryState) (shares : dstate = .shared → msgType = .shReq)
    (data : Data Line) :
    ToCache.work n (if dstate = .shared then .shRep data else .exRep data) ≤
      msgType.replyWork n := by
  split_ifs with shared
  · rw [shares shared]
    exact le_refl _
  · cases msgType with
    | exReq | upgradeReq => exact le_refl 4
    | shReq =>
        simp [ToCache.work, ToCache.repType, ReqType.replyWork, RepType.work]
    | nullifyReq => exact absurd rfl isRequest

theorem Outcome.work_completes {cached : Option (Data Line)}
    (outcome : Outcome config system req cached (next, true))
    (ready : Ready config system req rest cached) :
    (next.dequeue req rest).work config + askWork n rest ≤
      system.work config := by
  have fresh := ready.queueOk.fresh
  cases outcome with
  | @reply entry' data joins known =>
      have joined := joins.work (some req.requester)
      have sent := System.work_sendMsg config
        (system.setEntry { entry' with forwarder := some req.requester })
        (if entry'.dstate = .shared then .shRep data else .exRep data)
        req.requester
      have reply := ReqType.data_work_le (n := n) joins.request
        entry'.dstate (fun shared => by
          rcases joins.states with ⟨-, -, -, kind, -⟩ | ⟨-, -, isSh, -⟩
          · exact kind.mpr (by simp [shared])
          · exact isSh) data
      have enough := ShmemReq.replyWork_le joins.request
      have left := System.work_dequeue config
        ((system.setEntry
          { entry' with forwarder := some req.requester }).sendMsg
            (if entry'.dstate = .shared then .shRep data else .exRep data)
            req.requester)
        ready.queue fresh
        fun isNullify => absurd isNullify joins.request
      omega
  | upgrade isUpgrade shared only =>
      have present : (system.allocate config).dstate ≠ .uncached := by
        simp [shared]
      have changed := System.work_setEntry config system
        { system.allocate config with
          owner := some req.requester, dstate := .modified }
        req.requester 0 0 (fun _ _ => rfl) (le_refl _)
      rw [if_pos (isSome_of_cached present)] at changed
      have sent := System.work_sendMsg config
        (system.setEntry { system.allocate config with
          owner := some req.requester, dstate := .modified })
        .upgradeRep req.requester
      have isRequest : req.msgType ≠ .nullifyReq := by simp [isUpgrade]
      have enough := ShmemReq.replyWork_le isRequest
      have reply : ToCache.work n (.upgradeRep : ToCache Line) ≤
          req.msgType.replyWork n := by
        rw [isUpgrade]
        exact le_refl 4
      have left := System.work_dequeue config
        ((system.setEntry { system.allocate config with
          owner := some req.requester, dstate := .modified }).sendMsg
            .upgradeRep req.requester)
        ready.queue fresh
        fun isNullify => absurd isNullify isRequest
      omega
  | nullified isNullify uncached =>
      have left := System.work_dequeue config
        { system with entry := none } ready.queue fresh fun _ => rfl
      have cleared := System.work_clear config system
        (ready.base.entry.uncached.mp uncached)
      omega

/-- What is served, as long as requests are completed, lowers the work; the
request that waits in the end has asked the sharers. -/
theorem Serves.work_le {cached : Option (Data Line)}
    (serves : Serves config system cached next)
    (full : ¬ config.maxHwSharers < n) :
    next.work config ≤ system.work config +
      if cached = none then askWork n system.queue else 0 := by
  induction serves with
  | idle _ empty =>
      rw [empty]
      simp [askWork]
  | waits ready outcome =>
      rw [ready.queue]
      exact outcome.work_waits ready full
  | @completes _ mid final _ rest _ ready _ outcome _ ih =>
      have completed := outcome.work_completes ready
      have later : final.work config ≤ _ := ih
      rw [if_pos rfl] at later
      change _ ≤ _ + askWork n rest at later
      omega

end ChipletSniper.Coherence
