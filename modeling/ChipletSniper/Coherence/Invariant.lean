import ChipletSniper.Coherence.CacheMoves
import ChipletSniper.Coherence.DirectoryMoves

/-!
# The invariant of the protocol

The links of all caches, the entry and the queue of the directory and the
reads of the DRAM.
-/

namespace ChipletSniper.Coherence

variable {n : Nat} {Line : Type}

/-! ## What the directory believes -/

/-- The type of the request that a cache has in the queue. -/
def queuedOf (queue : List (ShmemReq n Line)) (core : Fin n) :
    Option ReqType :=
  (queue.find? fun req =>
    decide (req.msgType ≠ .nullifyReq ∧ req.requester = core)).map
      ShmemReq.msgType

/-- The request at the head of the queue waits for data or for a forwarder. -/
def ShmemReq.retrieving (req : ShmemReq n Line) : Bool :=
  req.waitForData || req.forwardingFrom.isSome

/-- The reply to a cache waits for data. -/
def pendingOf (queue : List (ShmemReq n Line)) (core : Fin n) : Bool :=
  match queue with
  | [] => false
  | req :: _ =>
      decide (req.msgType ≠ .nullifyReq ∧ req.requester = core) &&
        req.retrieving

def viewOf (entry : DirectoryEntry n) (queue : List (ShmemReq n Line))
    (ask : Fin n → Asked) (core : Fin n) : View :=
  ⟨entry.sharers core, entry.dstate, pendingOf queue core,
    queuedOf queue core, ask core⟩

/-- What the request at the head of the queue has told the sharers. -/
def asksOf (entry : DirectoryEntry n) (req : ShmemReq n Line)
    (core : Fin n) : Asked :=
  if req.waitForData then .nothing
  else
    match entry.dstate with
    | .uncached => .nothing
    | .exclusive | .modified =>
        if req.msgType = .shReq then .writeBack else .flush
    | .shared =>
        match req.msgType with
        | .exReq | .nullifyReq => .invalidate false
        | .upgradeReq =>
            if core = req.requester then .nothing
            else .invalidate !entry.sharers req.requester
        | .shReq =>
            if req.forwardingFrom = some core then .writeBack else .nothing

/-- What the sharers have been told. -/
def asks (entry : DirectoryEntry n) :
    List (ShmemReq n Line) → Fin n → Asked
  | [], _ => .nothing
  | req :: _, core => asksOf entry req core

/-! ## Parts of the invariant -/

structure EntryOk (entry : DirectoryEntry n) : Prop where
  uncached : entry.dstate = .uncached ↔ ∀ core, entry.sharers core = false
  owned : entry.dstate = .exclusive ∨ entry.dstate = .modified →
    ∃ owner, entry.owner = some owner ∧
      ∀ core, entry.sharers core = true ↔ core = owner

/-- The forwarder of a shared line is a sharer. -/
def ForwarderOk (config : Config n) (entry : DirectoryEntry n) : Prop :=
  config.protocol = .mesif → entry.dstate = .shared →
    ∀ core, entry.forwarder = some core → entry.sharers core = true

/-- A request that has not been at the head of the queue. -/
def ShmemReq.Fresh (req : ShmemReq n Line) : Prop :=
  req.msgType ≠ .nullifyReq ∧
    req = ShmemReq.new req.msgType req.requester

structure QueueOk (queue : List (ShmemReq n Line)) : Prop where
  fresh : ∀ req ∈ queue.tail, req.Fresh
  distinct : queue.Pairwise fun first second =>
    first.msgType ≠ .nullifyReq → first.requester ≠ second.requester

/-- The request at the head of the queue has been served and waits. -/
structure HeadOk (config : Config n) (entry : DirectoryEntry n)
    (req : ShmemReq n Line) : Prop where
  cached : entry.dstate ≠ .uncached
  forwarding : req.forwardingFrom ≠ none → req.msgType = .shReq ∧
    entry.dstate = .shared ∧ entry.sharers req.requester = true ∧
    config.protocol = .mesif
  fetching : req.waitForData = true →
    entry.sharers req.requester = true ∧ req.msgType ≠ .nullifyReq ∧
    (req.msgType = .shReq ↔ entry.dstate ≠ .modified)
  asking : req.waitForData = false →
    match req.msgType with
    | .nullifyReq => True
    | .exReq => entry.sharers req.requester = false
    | .upgradeReq =>
        (entry.dstate = .shared →
          ∃ core, core ≠ req.requester ∧ entry.sharers core = true) ∧
        (entry.dstate ≠ .shared → entry.sharers req.requester = false)
    | .shReq =>
        (entry.dstate ≠ .shared → entry.sharers req.requester = false) ∧
        (entry.dstate = .shared →
          match req.forwardingFrom with
          | some forwarder =>
              entry.sharers forwarder = true ∧ forwarder ≠ req.requester
          | none => config.maxHwSharers < n ∧
              entry.sharers req.requester = false)

/-- The reads of the DRAM that have not been answered. -/
def readsOf (system : System n Line) : Nat :=
  system.toDram.countP
    (fun msg => match msg with | .readReq => true | .writeReq _ => false) +
  system.fromDram.length

/-- The request at the head of the queue waits for the DRAM. -/
def waitsOf (queue : List (ShmemReq n Line)) : Bool :=
  match queue with
  | [] => false
  | req :: _ => req.waitForData

/-- The links of all caches. -/
def Links (config : Config n) (entry : DirectoryEntry n)
    (queue : List (ShmemReq n Line)) (ask : Fin n → Asked)
    (system : System n Line) : Prop :=
  ∀ core, Link (config.maxHwSharers < n) (viewOf entry queue ask core)
    (system.caches core) (system.toCache core) (system.toDirectory core)

/-- The part of the invariant that also holds while a message is handled. -/
structure Base (config : Config n) (system : System n Line)
    (ask : Fin n → Asked) : Prop where
  links : Links config (system.allocate config) system.queue ask system
  entry : EntryOk (system.allocate config)
  queue : QueueOk system.queue
  reads : readsOf system = if waitsOf system.queue then 1 else 0

/-- The invariant. -/
structure Inv (config : Config n) (system : System n Line) : Prop where
  base : Base config system (asks (system.allocate config) system.queue)
  forwarder : ForwarderOk config (system.allocate config)
  head : ∀ req rest, system.queue = req :: rest →
    HeadOk config (system.allocate config) req

/-- The directory is between two requests. -/
structure Idle (config : Config n) (system : System n Line) : Prop where
  base : Base config system fun _ => .nothing
  forwarder : ForwarderOk config (system.allocate config)
  fresh : ∀ req ∈ system.queue, req.Fresh
  /-- An upgrade at the head of the queue is not alone. -/
  shared : (system.allocate config).dstate = .shared →
    ∃ core, (system.allocate config).sharers core = true ∧
      queuedOf system.queue core = none

/-- What a configuration must satisfy. -/
structure Config.Ok (config : Config n) : Prop where
  room : 1 ≤ config.maxHwSharers
  mesif : config.protocol = .mesif → ¬ config.maxHwSharers < n

/-! ## Small facts -/

section Facts

theorem queuedOf_nil (core : Fin n) :
    queuedOf ([] : List (ShmemReq n Line)) core = none :=
  rfl

theorem queuedOf_cons (req : ShmemReq n Line)
    (rest : List (ShmemReq n Line)) (core : Fin n) :
    queuedOf (req :: rest) core =
      if req.msgType ≠ .nullifyReq ∧ req.requester = core then
        some req.msgType
      else queuedOf rest core := by
  unfold queuedOf
  rw [List.find?_cons]
  by_cases own : req.msgType ≠ .nullifyReq ∧ req.requester = core
  · simp [own]
  · rw [if_neg own]
    simp [own]

theorem queuedOf_append (queue : List (ShmemReq n Line))
    (req : ShmemReq n Line) (core : Fin n) :
    queuedOf (queue ++ [req]) core =
      (queuedOf queue core).or
        (if req.msgType ≠ .nullifyReq ∧ req.requester = core then
          some req.msgType else none) := by
  induction queue with
  | nil =>
      rw [List.nil_append, queuedOf_cons, queuedOf_nil]
      rfl
  | cons first rest ih =>
      rw [List.cons_append, queuedOf_cons, queuedOf_cons]
      by_cases own : first.msgType ≠ .nullifyReq ∧ first.requester = core
      · rw [if_pos own, if_pos own]
        rfl
      · rw [if_neg own, if_neg own, ih]

theorem queuedOf_eq_none {queue : List (ShmemReq n Line)} {core : Fin n}
    (other : ∀ req ∈ queue, req.msgType ≠ .nullifyReq →
      req.requester ≠ core) :
    queuedOf queue core = none := by
  induction queue with
  | nil => rfl
  | cons first rest ih =>
      rw [queuedOf_cons, if_neg]
      · exact ih fun req mem =>
          other req (List.mem_cons_of_mem first mem)
      · rintro ⟨isRequest, own⟩
        exact other first (List.mem_cons_self ..) isRequest own

theorem ne_of_queuedOf_eq_none {queue : List (ShmemReq n Line)}
    {core : Fin n} (none : queuedOf queue core = none)
    {req : ShmemReq n Line} (mem : req ∈ queue)
    (isRequest : req.msgType ≠ .nullifyReq) :
    req.requester ≠ core := by
  induction queue with
  | nil => cases mem
  | cons first rest ih =>
      rw [queuedOf_cons] at none
      split_ifs at none with own
      rcases List.mem_cons.mp mem with rfl | later
      · exact fun same => own ⟨isRequest, same⟩
      · exact ih none later

theorem Fresh.retrieving {req : ShmemReq n Line} (fresh : req.Fresh) :
    req.retrieving = false := by
  rw [fresh.2]
  rfl

theorem QueueOk.queuedOf_tail {req : ShmemReq n Line}
    {rest : List (ShmemReq n Line)} (queue : QueueOk (req :: rest))
    (isRequest : req.msgType ≠ .nullifyReq) :
    queuedOf rest req.requester = none := by
  refine queuedOf_eq_none fun other mem _ same => ?_
  exact (List.pairwise_cons.mp queue.distinct).1 other mem isRequest same.symm

end Facts

end ChipletSniper.Coherence
