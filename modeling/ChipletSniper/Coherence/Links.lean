import ChipletSniper.Coherence.LastLevelCache

/-!
# One cache and the directory

The invariant of the protocol looks at one cache at a time: what the directory
believes about the cache, the state of the cache and the two channels between
them.  A link is in one of five phases.
-/

namespace ChipletSniper.Coherence

variable {Line : Type}

/-! ## What the directory believes -/

/-- What the request at the head of the queue has told a sharer to do. -/
inductive Asked where
  | nothing
  | invalidate (orFlush : Bool)
  | flush
  | writeBack
deriving DecidableEq

/-- The messages that tell it. -/
def Asked.Allows : Asked → ToCache Line → Prop
  | .invalidate _, .invReq => True
  | .invalidate orFlush, .flushReq => orFlush = true
  | .flush, .flushReq => True
  | .writeBack, .wbReq => True
  | _, _ => False

/-- What the directory believes about a cache.  A pending cache is a sharer
already, but the reply to its request waits for data. -/
structure View where
  sharer : Bool
  dstate : DirectoryState
  pending : Bool
  queued : Option ReqType
  asked : Asked

/-- The state of the entry of a sharer, and what it may be asked there. -/
structure View.Consistent (limited : Prop) (view : View) : Prop where
  cached : view.dstate ≠ .uncached
  flush : view.asked = .flush → view.dstate ≠ .shared
  invalidate : ∀ orFlush, view.asked = .invalidate orFlush →
    view.dstate = .shared
  writeBack : limited → view.asked = .writeBack → view.dstate ≠ .shared

def ToDirectory.reqType : ToDirectory Line → Option ReqType
  | .exReq => some .exReq
  | .shReq => some .shReq
  | .upgradeReq => some .upgradeReq
  | .invRep | .flushRep _ | .wbRep _ => none

/-! ## Parts of a link -/

/-- Only messages that a cache without the line ignores. -/
def Ignored (down : List (ToCache Line)) : Prop :=
  ∀ msg ∈ down, msg.repType = none

/-- The first waiter has made a request. -/
def Waits (msgType : ReqType) (waiters : List (MemOp Line)) : Prop :=
  ∃ op rest, waiters = op :: rest ∧
    (msgType ≠ .shReq → op.exclusive = true)

/-- The messages to a cache with the line: invalidations that are no longer
needed, and what it has been asked and not answered. -/
def Live (limited : Prop) (view : View) (answered : Bool)
    (down : List (ToCache Line)) : Prop :=
  ∃ extra rest, down = List.replicate extra .invReq ++ rest ∧
    (extra ≠ 0 → limited ∧ view.dstate = .shared) ∧
    ((rest = [] ∧ (answered = true ∨ view.asked = .nothing)) ∨
      (answered = false ∧ ∃ msg, rest = [msg] ∧ view.asked.Allows msg))

/-- The messages of a cache while it has the line: the answer to a `WB_REQ`
and an `UPGRADE_REQ`. -/
inductive Sent : Bool → Bool → List (ToDirectory Line) → Prop
  | none : Sent false false []
  | answer (data : Data Line) : Sent true false [.wbRep data]
  | upgrade : Sent false true [.upgradeReq]
  | answerUpgrade (data : Data Line) :
      Sent true true [.wbRep data, .upgradeReq]
  | upgradeAnswer (data : Data Line) :
      Sent true true [.upgradeReq, .wbRep data]

/-- At most one request, which is in the queue or on its way. -/
inductive Requesting (queued : Option ReqType)
    (waiters : List (MemOp Line)) : List (ToDirectory Line) → Prop
  | idle : queued = none → waiters = [] → Requesting queued waiters []
  | queued {msgType : ReqType} : queued = some msgType →
      Waits msgType waiters → Requesting queued waiters []
  | sent {msg : ToDirectory Line} {msgType : ReqType} : queued = none →
      msg.reqType = some msgType → Waits msgType waiters →
      Requesting queued waiters [msg]

/-- An `UPGRADE_REQ`, on its way or in the queue. -/
def Upgrading (upgrade : Bool) (view : View)
    (waiters : List (MemOp Line)) : Prop :=
  ((upgrade = true ∧ view.queued = none) ∨
    (upgrade = false ∧ view.queued = some .upgradeReq)) ∧
  Waits .upgradeReq waiters

/-- The reply on its way to a cache, after messages that will be ignored. -/
def Grant (view : View) (cache : Llc Line) (ignored : List (ToCache Line)) :
    ToCache Line → Prop
  | .shRep _ => cache.cstate = .invalid ∧ view.dstate = .shared ∧
      cache.waiters ≠ []
  | .exRep _ => cache.cstate = .invalid ∧ view.dstate ≠ .shared ∧
      Waits (if view.dstate = .modified then .exReq else .shReq) cache.waiters
  | .upgradeRep => cache.cstate = .sharedUpgrading ∧
      view.dstate = .modified ∧ ignored = [] ∧
      Waits .upgradeReq cache.waiters
  | .invReq | .flushReq | .wbReq => False

/-- The state of a copy. -/
def Copy (view : View) (answered : Bool) (cstate : CacheState) : Prop :=
  if answered = true ∨ view.dstate = .shared then
    cstate = .shared ∨ cstate = .sharedUpgrading
  else if view.dstate = .modified then cstate = .modified
  else cstate = .exclusive ∨ cstate = .modified

/-- The message with which a cache gives up its copy. -/
def Removal (view : View) (answered : Bool) : ToDirectory Line → Prop
  | .invRep => answered = true ∨ view.dstate ≠ .modified
  | .flushRep _ => answered = false ∧
      (view.dstate = .shared → view.asked = .invalidate true)
  | .exReq | .shReq | .upgradeReq | .wbRep _ => False

/-- The requests around the message with which a cache gives up its copy. -/
def Leaving (limited : Prop) (view : View) (upgrade answered : Bool)
    (waiters : List (MemOp Line)) (after : List (ToDirectory Line)) : Prop :=
  (Upgrading upgrade view waiters ∧ after = [] ∧ answered = false ∧
    view.dstate = .shared ∧
    (limited ∨ ∃ orFlush, view.asked = .invalidate orFlush)) ∨
  (upgrade = false ∧ view.queued = none ∧
    Requesting view.queued waiters after ∧ .upgradeReq ∉ after)

/-! ## Links -/

/-- The five phases of a link. -/
inductive Link (limited : Prop) (view : View) (cache : Llc Line) :
    List (ToCache Line) → List (ToDirectory Line) → Prop
  /-- The cache does not have the line. -/
  | absent {down : List (ToCache Line)} {up : List (ToDirectory Line)} :
      view.sharer = false → view.pending = false →
      cache.cstate = .invalid → Ignored down →
      Requesting view.queued cache.waiters up →
      Link limited view cache down up
  /-- The directory waits for the data. -/
  | pending {down : List (ToCache Line)} {msgType : ReqType} :
      view.sharer = true → view.pending = true →
      view.Consistent limited → cache.cstate = .invalid →
      Ignored down → view.asked = .nothing →
      view.queued = some msgType → Waits msgType cache.waiters →
      (view.dstate = .modified → msgType ≠ .shReq) →
      Link limited view cache down []
  /-- The reply is on its way. -/
  | granted {ignored live : List (ToCache Line)} {grant : ToCache Line} :
      view.sharer = true → view.pending = false →
      view.Consistent limited → view.queued = none →
      Ignored ignored → Grant view cache ignored grant →
      Live limited view false live →
      Link limited view cache (ignored ++ grant :: live) []
  /-- The cache has the line. -/
  | held {down : List (ToCache Line)} {up : List (ToDirectory Line)}
      {answered upgrade : Bool} :
      view.sharer = true → view.pending = false →
      view.Consistent limited →
      Copy view answered cache.cstate → Live limited view answered down →
      Sent answered upgrade up →
      (answered = true → view.asked = .writeBack) →
      ((cache.cstate = .sharedUpgrading ∧
          Upgrading upgrade view cache.waiters) ∨
        (cache.cstate ≠ .sharedUpgrading ∧ upgrade = false ∧
          view.queued = none ∧ cache.waiters = [])) →
      Link limited view cache down up
  /-- The cache has given up its copy, and the directory does not know. -/
  | left {down : List (ToCache Line)}
      {before after : List (ToDirectory Line)} {answered upgrade : Bool}
      {removal : ToDirectory Line} :
      view.sharer = true → view.pending = false →
      view.Consistent limited → cache.cstate = .invalid → Ignored down →
      Sent answered upgrade before → Removal view answered removal →
      (answered = true → view.asked = .writeBack) →
      Leaving limited view upgrade answered cache.waiters after →
      Link limited view cache down (before ++ removal :: after)

/-! ## Small facts -/

section Facts

variable {limited : Prop} {view : View} {cache : Llc Line}

theorem Asked.Allows.repType {asked : Asked} {msg : ToCache Line}
    (allows : asked.Allows msg) :
    msg.repType = none := by
  cases msg with
  | exRep | shRep | upgradeRep => cases asked <;> exact allows.elim
  | invReq | flushReq | wbReq => rfl

theorem Live.ignored {answered : Bool} {down : List (ToCache Line)}
    (live : Live limited view answered down) :
    Ignored down := by
  obtain ⟨extra, rest, rfl, -, kept⟩ := live
  intro msg mem
  rcases List.mem_append.mp mem with old | new
  · rw [List.eq_of_mem_replicate old]
    rfl
  · rcases kept with ⟨rfl, -⟩ | ⟨-, asked, rfl, allows⟩
    · cases new
    · rw [List.mem_singleton.mp new]
      exact allows.repType

theorem Ignored.tail {msg : ToCache Line} {down : List (ToCache Line)}
    (ignored : Ignored (msg :: down)) :
    Ignored down :=
  fun other mem => ignored other (List.mem_cons_of_mem msg mem)

theorem Ignored.concat {msg : ToCache Line} {down : List (ToCache Line)}
    (ignored : Ignored down) (request : msg.repType = none) :
    Ignored (down ++ [msg]) := by
  intro other mem
  rcases List.mem_append.mp mem with old | new
  · exact ignored other old
  · rw [List.mem_singleton.mp new]
    exact request

/-- The first message to a cache with the line. -/
theorem Live.cons {answered : Bool} {msg : ToCache Line}
    {down : List (ToCache Line)}
    (live : Live limited view answered (msg :: down)) :
    (msg = .invReq ∧ limited ∧ view.dstate = .shared ∧
      Live limited view answered down) ∨
    (answered = false ∧ view.asked.Allows msg ∧ down = []) := by
  obtain ⟨extra, rest, same, surplus, kept⟩ := live
  cases extra with
  | zero =>
      rcases kept with ⟨rfl, -⟩ | ⟨unanswered, asked, rfl, allows⟩
      · cases same
      · obtain ⟨rfl, rfl⟩ := List.cons.inj same
        exact Or.inr ⟨unanswered, allows, rfl⟩
  | succ extra =>
      obtain ⟨rfl, rfl⟩ := List.cons.inj same
      obtain ⟨allowed, shared⟩ := surplus (Nat.succ_ne_zero extra)
      exact Or.inl ⟨rfl, allowed, shared, extra, rest, rfl,
        fun _ => ⟨allowed, shared⟩, kept⟩

theorem Waits.ne_nil {msgType : ReqType} {waiters : List (MemOp Line)}
    (waits : Waits msgType waiters) :
    waiters ≠ [] := by
  obtain ⟨op, rest, rfl, -⟩ := waits
  exact List.cons_ne_nil op rest

theorem Waits.append {msgType : ReqType} {waiters : List (MemOp Line)}
    (waits : Waits msgType waiters) (last : MemOp Line) :
    Waits msgType (waiters ++ [last]) := by
  obtain ⟨op, rest, rfl, exclusive⟩ := waits
  exact ⟨op, rest ++ [last], rfl, exclusive⟩

end Facts

/-! ## Steps of the cache -/

section CacheSteps

variable {limited : Prop} {view : View} {cache : Llc Line}
variable {down : List (ToCache Line)} {up : List (ToDirectory Line)}

/-- The cache without its copy. -/
def Llc.drop (cache : Llc Line) : Llc Line :=
  { cache with cstate := .invalid, data := none }

/-- A cache without the line ignores what it is asked. -/
theorem Link.ignore {msg : ToCache Line}
    (link : Link limited view cache (msg :: down) up)
    (request : msg.repType = none) (invalid : cache.cstate = .invalid) :
    Link limited view cache down up := by
  generalize same : msg :: down = received at link
  cases link with
  | absent sharer pending cstate ignored requesting =>
      subst same
      exact .absent sharer pending cstate ignored.tail requesting
  | pending sharer pending consistent cstate ignored asked queued waits
      modified =>
      subst same
      exact .pending sharer pending consistent cstate ignored.tail asked
        queued waits modified
  | @granted stale live grant sharer pending consistent queued ignored granted
      kept =>
      cases stale with
      | nil =>
          obtain ⟨rfl, rfl⟩ := List.cons.inj same
          cases msg with
          | exRep | shRep | upgradeRep => cases request
          | invReq | flushReq | wbReq => exact granted.elim
      | cons first stale =>
          obtain ⟨rfl, rfl⟩ := List.cons.inj same
          refine .granted sharer pending consistent queued ignored.tail ?_ kept
          cases grant with
          | exRep | shRep => exact granted
          | upgradeRep =>
              obtain ⟨-, -, empty, -⟩ := granted
              cases empty
          | invReq | flushReq | wbReq => exact granted
  | @held _ _ answered upgrade sharer pending consistent copy kept sent
      answers tokens =>
      rw [invalid] at copy
      unfold Copy at copy
      split_ifs at copy <;> simp at copy
  | left sharer pending consistent cstate ignored sent removal answers
      leaving =>
      subst same
      exact .left sharer pending consistent cstate ignored.tail sent removal
        answers leaving

/-- A reply that comes first is the only one on its way, and the cache has
sent nothing. -/
theorem Link.of_reply {grant : ToCache Line}
    (link : Link limited view cache (grant :: down) up)
    (reply : grant.repType ≠ none) :
    up = [] ∧ Grant view cache [] grant ∧ Live limited view false down ∧
      view.sharer = true ∧ view.pending = false ∧ view.Consistent limited ∧
      view.queued = none := by
  generalize same : grant :: down = received at link
  have head : grant ∈ received := by simp [← same]
  cases link with
  | absent _ _ _ ignored => exact absurd (ignored grant head) reply
  | pending _ _ _ _ ignored => exact absurd (ignored grant head) reply
  | held _ _ _ _ live => exact absurd (live.ignored grant head) reply
  | left _ _ _ _ ignored => exact absurd (ignored grant head) reply
  | @granted stale live other sharer pending consistent queued ignored granted
      kept =>
      cases stale with
      | nil =>
          obtain ⟨rfl, rfl⟩ := List.cons.inj same
          exact ⟨rfl, granted, kept, sharer, pending, consistent, queued⟩
      | cons first stale =>
          obtain ⟨rfl, -⟩ := List.cons.inj same
          exact absurd (ignored _ (List.mem_cons_self ..)) reply

/-- A cache with a copy that receives a message other than a reply. -/
theorem Link.held_of_request {msg : ToCache Line}
    (link : Link limited view cache (msg :: down) up)
    (request : msg.repType = none) (valid : cache.cstate ≠ .invalid) :
    ∃ answered upgrade,
      view.sharer = true ∧ view.pending = false ∧
      view.Consistent limited ∧ Copy view answered cache.cstate ∧
      Live limited view answered (msg :: down) ∧ Sent answered upgrade up ∧
      (answered = true → view.asked = .writeBack) ∧
      ((cache.cstate = .sharedUpgrading ∧
          Upgrading upgrade view cache.waiters) ∨
        (cache.cstate ≠ .sharedUpgrading ∧ upgrade = false ∧
          view.queued = none ∧ cache.waiters = [])) := by
  generalize same : msg :: down = received at link
  cases link with
  | absent _ _ cstate => exact absurd cstate valid
  | pending _ _ _ cstate => exact absurd cstate valid
  | @granted stale live grant sharer pending consistent queued ignored granted
      kept =>
      exfalso
      cases grant with
      | exRep | shRep => exact valid granted.1
      | upgradeRep =>
          obtain ⟨-, -, rfl, -⟩ := granted
          obtain ⟨rfl, -⟩ := List.cons.inj same
          cases request
      | invReq | flushReq | wbReq => exact granted
  | @held _ _ answered upgrade sharer pending consistent copy kept sent
      answers tokens =>
      exact ⟨answered, upgrade, sharer, pending, consistent, copy, kept, sent,
        answers, tokens⟩
  | left _ _ _ cstate => exact absurd cstate valid

theorem Copy.valid {answered : Bool} {cstate : CacheState}
    (copy : Copy view answered cstate) :
    cstate ≠ .invalid := by
  rintro rfl
  unfold Copy at copy
  split_ifs at copy <;> simp at copy

/-- A copy that is being upgraded. -/
theorem Copy.upgrading {answered : Bool}
    (copy : Copy view answered .sharedUpgrading) :
    answered = true ∨ view.dstate = .shared := by
  by_contra high
  rw [Copy, if_neg high] at copy
  split at copy <;> simp at copy

/-- Giving up a copy. -/
theorem Link.leave {answered upgrade : Bool} {removal : ToDirectory Line}
    (sharer : view.sharer = true) (pending : view.pending = false)
    (consistent : view.Consistent limited)
    (ignored : Ignored down) (sent : Sent answered upgrade up)
    (answers : answered = true → view.asked = .writeBack)
    (tokens : (cache.cstate = .sharedUpgrading ∧
        Upgrading upgrade view cache.waiters) ∨
      (cache.cstate ≠ .sharedUpgrading ∧ upgrade = false ∧
        view.queued = none ∧ cache.waiters = []))
    (removes : Removal view answered removal)
    (lost : cache.cstate = .sharedUpgrading → answered = false ∧
      view.dstate = .shared ∧
      (limited ∨ ∃ orFlush, view.asked = .invalidate orFlush)) :
    Link limited view cache.drop down (up ++ [removal]) := by
  refine .left sharer pending consistent rfl ignored sent removes answers ?_
  rcases tokens with ⟨upgrading, token⟩ | ⟨-, none, queued, idle⟩
  · obtain ⟨unanswered, shared, told⟩ := lost upgrading
    exact Or.inl ⟨token, rfl, unanswered, shared, told⟩
  · exact Or.inr ⟨none, queued, .idle queued idle, List.not_mem_nil⟩

/-- `INV_REQ` at a cache with a copy. -/
theorem Link.invReq (link : Link limited view cache (.invReq :: down) up)
    (valid : cache.cstate ≠ .invalid) :
    cache.cstate ≠ .modified ∧
      Link limited view cache.drop down (up ++ [.invRep]) := by
  obtain ⟨answered, upgrade, sharer, pending, consistent, copy, live, sent,
    answers, tokens⟩ := link.held_of_request rfl valid
  have told : view.dstate = .shared ∧ (answered = true → limited) ∧
      (limited ∨ ∃ orFlush, view.asked = .invalidate orFlush) := by
    rcases live.cons with ⟨-, allowed, shared, -⟩ | ⟨unanswered, allows, -⟩
    · exact ⟨shared, fun _ => allowed, Or.inl allowed⟩
    · cases asked : view.asked with
      | invalidate orFlush =>
          exact ⟨consistent.invalidate orFlush asked,
            by simp [unanswered], Or.inr ⟨orFlush, rfl⟩⟩
      | nothing | flush | writeBack =>
          rw [asked] at allows
          exact allows.elim
  obtain ⟨shared, surplus, told⟩ := told
  have unanswered : answered = false := by
    cases answered with
    | false => rfl
    | true =>
        exact absurd shared (consistent.writeBack (surplus rfl) (answers rfl))
  constructor
  · intro modified
    rw [Copy, if_pos (Or.inr shared), modified] at copy
    simp at copy
  · refine .leave sharer pending consistent live.ignored.tail sent answers
      tokens ?_ fun _ => ⟨unanswered, shared, told⟩
    exact Or.inr (by simp [shared])

/-- `FLUSH_REQ` at a cache with a copy. -/
theorem Link.flushReq (link : Link limited view cache (.flushReq :: down) up)
    (valid : cache.cstate ≠ .invalid) :
    Link limited view cache.drop down (up ++ [.flushRep cache.data]) := by
  obtain ⟨answered, upgrade, sharer, pending, consistent, copy, live, sent,
    answers, tokens⟩ := link.held_of_request rfl valid
  rcases live.cons with ⟨impossible, -⟩ | ⟨unanswered, allows, -⟩
  · cases impossible
  · subst unanswered
    have told : (view.dstate = .shared → view.asked = .invalidate true) := by
      intro shared
      cases asked : view.asked with
      | invalidate orFlush =>
          rw [asked] at allows
          rw [show orFlush = true from allows]
      | flush => exact absurd shared (consistent.flush asked)
      | nothing | writeBack =>
          rw [asked] at allows
          exact allows.elim
    refine .leave sharer pending consistent live.ignored.tail sent answers
      tokens ⟨rfl, told⟩ fun upgrading => ?_
    rw [upgrading] at copy
    have shared := copy.upgrading.resolve_left Bool.false_ne_true
    exact ⟨rfl, shared, Or.inr ⟨true, told shared⟩⟩

/-- `WB_REQ` at a cache with a copy. -/
theorem Link.wbReq (link : Link limited view cache (.wbReq :: down) up)
    (valid : cache.cstate ≠ .invalid) (data : Data Line) :
    Link limited view
      { cache with cstate :=
          if cache.cstate = .sharedUpgrading then .sharedUpgrading
          else .shared }
      down (up ++ [.wbRep data]) := by
  obtain ⟨answered, upgrade, sharer, pending, consistent, copy, live, sent,
    answers, tokens⟩ := link.held_of_request rfl valid
  rcases live.cons with ⟨impossible, -⟩ | ⟨rfl, allows, rfl⟩
  · cases impossible
  · have asked : view.asked = .writeBack := by
      cases asked : view.asked with
      | writeBack => rfl
      | nothing | invalidate | flush =>
          rw [asked] at allows
          exact allows.elim
    have sent' : Sent true upgrade (up ++ [.wbRep data]) := by
      cases sent with
      | none => exact .answer data
      | upgrade => exact .upgradeAnswer data
    refine .held sharer pending consistent ?_ ?_ sent' (fun _ => asked) ?_
    · rw [Copy, if_pos (Or.inl rfl)]
      split_ifs <;> simp
    · exact ⟨0, [], rfl, fun nonzero => absurd rfl nonzero,
        Or.inl ⟨rfl, Or.inl rfl⟩⟩
    · rcases tokens with ⟨upgrading, token⟩ | ⟨other, none⟩
      · exact Or.inl ⟨by simp [upgrading], token⟩
      · exact Or.inr ⟨by simp [other], none⟩

/-- Evicting a copy. -/
theorem Link.evict (link : Link limited view cache down up)
    (valid : cache.cstate = .shared ∨ cache.cstate = .exclusive ∨
      cache.cstate = .modified) :
    Link limited view cache.drop down
      (up ++ [if cache.cstate = .modified then .flushRep cache.data
        else .invRep]) := by
  have settled : cache.cstate ≠ .invalid ∧
      cache.cstate ≠ .sharedUpgrading := by
    rcases valid with same | same | same <;> simp [same]
  cases link with
  | absent _ _ cstate => exact absurd cstate settled.1
  | pending _ _ _ cstate => exact absurd cstate settled.1
  | @granted stale live grant sharer pending consistent queued ignored granted
      kept =>
      exfalso
      cases grant with
      | exRep | shRep => exact settled.1 granted.1
      | upgradeRep => exact settled.2 granted.1
      | invReq | flushReq | wbReq => exact granted
  | @held _ _ answered upgrade sharer pending consistent copy live sent
      answers tokens =>
      refine .leave sharer pending consistent live.ignored sent answers
        tokens ?_ fun upgrading => absurd upgrading settled.2
      unfold Copy at copy
      split_ifs at copy with low modified
      · rw [if_neg (by rcases copy with same | same <;> simp [same])]
        rcases low with answered | shared
        · exact Or.inl answered
        · exact Or.inr (by simp [shared])
      · rw [if_pos copy]
        push Not at low
        exact ⟨by simpa using low.1, fun shared => absurd shared low.2⟩
      · push Not at low
        split_ifs
        · exact ⟨by simpa using low.1, fun shared => absurd shared low.2⟩
        · exact Or.inr modified
  | left _ _ _ cstate => exact absurd cstate settled.1

/-- A store in a cache that may write. -/
theorem Link.store (link : Link limited view cache down up)
    (writes : cache.cstate = .exclusive ∨ cache.cstate = .modified)
    (data : Data Line) :
    Link limited view { cache with cstate := .modified, data := data } down
      up := by
  cases link with
  | absent _ _ cstate => simp [cstate] at writes
  | pending _ _ _ cstate => simp [cstate] at writes
  | @granted stale live grant sharer pending consistent queued ignored granted
      kept =>
      exfalso
      cases grant with
      | exRep | shRep | upgradeRep => simp [granted.1] at writes
      | invReq | flushReq | wbReq => exact granted
  | @held _ _ answered upgrade sharer pending consistent copy live sent
      answers tokens =>
      refine .held sharer pending consistent ?_ live sent answers ?_
      · unfold Copy at copy ⊢
        split_ifs at copy ⊢
        · exfalso
          rcases copy with same | same <;> simp [same] at writes
        · rfl
        · exact Or.inr rfl
      · rcases tokens with ⟨upgrading, -⟩ | ⟨-, none⟩
        · simp [upgrading] at writes
        · exact Or.inr ⟨by simp, none⟩
  | left _ _ _ cstate => simp [cstate] at writes

/-- A cache without waiters is not being upgraded. -/
theorem Link.invalid_of_idle (link : Link limited view cache down up)
    (idle : cache.waiters = []) (shared : cache.cstate ≠ .shared)
    (other : cache.cstate.writable = false ∧ cache.cstate ≠ .exclusive) :
    cache.cstate = .invalid := by
  cases link with
  | absent _ _ cstate => exact cstate
  | pending _ _ _ cstate => exact cstate
  | @granted stale live grant sharer pending consistent queued ignored granted
      kept =>
      cases grant with
      | exRep | shRep => exact granted.1
      | upgradeRep => exact absurd idle granted.2.2.2.ne_nil
      | invReq | flushReq | wbReq => exact granted.elim
  | held _ _ _ _ _ _ _ tokens =>
      rcases tokens with ⟨-, -, waits⟩ | ⟨upgrading, -⟩
      · exact absurd idle waits.ne_nil
      · cases same : cache.cstate with
        | invalid => rfl
        | shared => exact absurd same shared
        | sharedUpgrading => exact absurd same upgrading
        | exclusive => exact absurd same other.2
        | modified => simp [same, CacheState.writable] at other
  | left _ _ _ cstate => exact cstate

/-- One more waiter. -/
theorem Link.wait (link : Link limited view cache down up)
    (waiting : cache.waiters ≠ []) (op : MemOp Line) :
    Link limited view { cache with waiters := cache.waiters ++ [op] } down
      up := by
  cases link with
  | absent sharer pending cstate ignored requesting =>
      refine .absent sharer pending cstate ignored ?_
      cases requesting with
      | idle _ idle => exact absurd idle waiting
      | queued queued waits => exact .queued queued (waits.append op)
      | sent queued request waits =>
          exact .sent queued request (waits.append op)
  | pending sharer pending consistent cstate ignored asked queued waits
      modified =>
      exact .pending sharer pending consistent cstate ignored asked queued
        (waits.append op) modified
  | @granted stale live grant sharer pending consistent queued ignored granted
      kept =>
      refine .granted sharer pending consistent queued ignored ?_ kept
      cases grant with
      | shRep => exact ⟨granted.1, granted.2.1, by simp⟩
      | exRep => exact ⟨granted.1, granted.2.1, granted.2.2.append op⟩
      | upgradeRep =>
          exact ⟨granted.1, granted.2.1, granted.2.2.1,
            granted.2.2.2.append op⟩
      | invReq | flushReq | wbReq => exact granted.elim
  | held sharer pending consistent copy live sent answers tokens =>
      refine .held sharer pending consistent copy live sent answers ?_
      rcases tokens with ⟨upgrading, token, waits⟩ | ⟨-, -, -, idle⟩
      · exact Or.inl ⟨upgrading, token, waits.append op⟩
      · exact absurd idle waiting
  | left sharer pending consistent cstate ignored sent removal answers
      leaving =>
      refine .left sharer pending consistent cstate ignored sent removal
        answers ?_
      rcases leaving with ⟨⟨token, waits⟩, rest⟩ | ⟨none, queued, requesting,
        other⟩
      · exact Or.inl ⟨⟨token, waits.append op⟩, rest⟩
      · refine Or.inr ⟨none, queued, ?_, other⟩
        cases requesting with
        | idle _ idle => exact absurd idle waiting
        | queued queued waits => exact .queued queued (waits.append op)
        | sent queued request waits =>
            exact .sent queued request (waits.append op)

/-- The first waiter of a cache without the line makes a request. -/
theorem Link.request (link : Link limited view cache down up)
    (invalid : cache.cstate = .invalid) (idle : cache.waiters = [])
    {op : MemOp Line} {msg : ToDirectory Line} {msgType : ReqType}
    (request : msg.reqType = some msgType) (other : msgType ≠ .upgradeReq)
    (exclusive : msgType ≠ .shReq → op.exclusive = true) :
    Link limited view { cache with waiters := [op] } down (up ++ [msg]) := by
  have waits : Waits msgType [op] := ⟨op, [], rfl, exclusive⟩
  cases link with
  | absent sharer pending cstate ignored requesting =>
      refine .absent sharer pending cstate ignored ?_
      cases requesting with
      | idle queued _ => exact .sent queued request waits
      | queued _ waits => exact absurd idle waits.ne_nil
      | sent _ _ waits => exact absurd idle waits.ne_nil
  | pending _ _ _ _ _ _ _ waits => exact absurd idle waits.ne_nil
  | @granted stale live grant sharer pending consistent queued ignored granted
      kept =>
      exfalso
      cases grant with
      | shRep => exact granted.2.2 idle
      | exRep => exact granted.2.2.ne_nil idle
      | upgradeRep => exact granted.2.2.2.ne_nil idle
      | invReq | flushReq | wbReq => exact granted
  | held _ _ _ copy =>
      exfalso
      rw [invalid, Copy] at copy
      split_ifs at copy <;> simp at copy
  | @left _ before after answered upgrade removal sharer pending consistent
      cstate ignored sent removes answers leaving =>
      rw [List.append_assoc, List.cons_append]
      refine .left sharer pending consistent cstate ignored sent removes
        answers ?_
      rcases leaving with ⟨⟨-, waits⟩, -⟩ | ⟨none, queued, requesting, -⟩
      · exact absurd idle waits.ne_nil
      · cases requesting with
        | idle =>
            refine Or.inr ⟨none, queued, .sent queued request waits, ?_⟩
            intro mem
            rw [← List.mem_singleton.mp mem] at request
            exact other (Option.some.inj request).symm
        | queued _ waits => exact absurd idle waits.ne_nil
        | sent _ _ waits => exact absurd idle waits.ne_nil

/-- A shared copy is to be upgraded. -/
theorem Link.upgrade (link : Link limited view cache down up)
    (shared : cache.cstate = .shared) {op : MemOp Line}
    (exclusive : op.exclusive = true) (rest : List (MemOp Line)) :
    Link limited view
      { cache with cstate := .sharedUpgrading, waiters := op :: rest } down
      (up ++ [.upgradeReq]) := by
  cases link with
  | absent _ _ cstate => simp [cstate] at shared
  | pending _ _ _ cstate => simp [cstate] at shared
  | @granted stale live grant sharer pending consistent queued ignored granted
      kept =>
      exfalso
      cases grant with
      | exRep | shRep | upgradeRep => simp [granted.1] at shared
      | invReq | flushReq | wbReq => exact granted
  | @held _ _ answered upgrade sharer pending consistent copy live sent
      answers tokens =>
      rcases tokens with ⟨upgrading, -⟩ | ⟨-, rfl, queued, -⟩
      · simp [upgrading] at shared
      · have sent' : Sent answered true (up ++ [.upgradeReq]) := by
          cases sent with
          | none => exact .upgrade
          | answer data => exact .answerUpgrade data
        refine .held sharer pending consistent ?_ live sent' answers
          (Or.inl ⟨rfl, Or.inl ⟨rfl, queued⟩, op, rest, rfl, fun _ =>
            exclusive⟩)
        unfold Copy at copy ⊢
        split_ifs at copy ⊢
        · exact Or.inr rfl
        · simp [shared] at copy
        · simp [shared] at copy
  | left _ _ _ cstate => simp [cstate] at shared

end CacheSteps

end ChipletSniper.Coherence
