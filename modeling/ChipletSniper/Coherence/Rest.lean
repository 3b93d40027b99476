import ChipletSniper.Coherence.Work
import ChipletSniper.Coherence.Serialisation

/-!
# The protocol comes to rest

Without new operations of the cores only finitely many steps are possible.
When no message is in flight, every operation has been performed, and the
directory knows the state of each cache.
-/

namespace ChipletSniper.Coherence

open Library Function

variable {n : Nat} {Line : Type} {config : Config n} {initial : Line}
variable {system next : System n Line} {req : ShmemReq n Line}
variable {rest : List (ShmemReq n Line)}

/-! ## Messages that the directory receives -/

theorem askWork_le (queue : List (ShmemReq n Line)) :
    askWork n queue ≤ 3 * n := by
  cases queue with
  | nil => exact Nat.zero_le _
  | cons => exact le_refl _

/-- A message of a cache leaves its channel. -/
theorem linkWork_pop (n : Nat) (sharer : Bool) (cache : Llc Line)
    (down : List (ToCache Line)) (msg : ToDirectory Line)
    (up : List (ToDirectory Line)) :
    linkWork n sharer cache down (msg :: up) =
      linkWork n sharer cache down up + msg.work n := by
  simp [linkWork]
  omega

namespace System

variable {core : Fin n} {msg : ToDirectory Line} {up : List (ToDirectory Line)}

/-- The directory takes a message of a cache and changes the entry. -/
theorem work_taken (config : Config n) (entry' : DirectoryEntry n)
    (lost : Nat) (found : system.toDirectory core = msg :: up)
    (present : system.entry.isSome = true)
    (others : ∀ other, other ≠ core →
      entry'.sharers other = (system.allocate config).sharers other)
    (own : (if entry'.sharers core then 3 * n else 0) + lost ≤
      if (system.allocate config).sharers core then 3 * n else 0) :
    ((system.taken core up).setEntry entry').work config + lost +
        msg.work n ≤
      system.work config := by
  have links : ((system.taken core up).setEntry entry').linksWork config +
      (lost + msg.work n) ≤ system.linksWork config + 0 := by
    refine linksWork_le core (fun other different => ?_) ?_
    · exact ⟨others other different, rfl, rfl,
        update_of_ne different ..⟩
    · change linkWork n (entry'.sharers core) (system.caches core)
        (system.toCache core)
        (update system.toDirectory core up core) + _ ≤ _
      rw [update_self, found, linkWork_pop]
      unfold linkWork
      omega
  change ((system.taken core up).setEntry entry').linksWork config +
    queueWork system.queue + entryWork n true system.queue +
    (system.toDram.map ToDram.work).sum + system.fromDram.length + lost +
    msg.work n ≤ _
  unfold work
  rw [present]
  omega

/-- A request of a cache is queued. -/
theorem work_requested {msgType : ReqType}
    (found : system.toDirectory core = msg :: up)
    (request : msg.reqType = some msgType) :
    (system.requested core up msgType).work config +
        askWork n (system.requested core up msgType).queue <
      system.work config := by
  have isRequest := reqType_ne_nullify request
  have links : (system.requested core up msgType).linksWork config +
      msg.work n ≤ system.linksWork config + 0 := by
    refine linksWork_le core (fun other different => ?_) ?_
    · exact ⟨rfl, rfl, rfl, update_of_ne different ..⟩
    · change linkWork n _ (system.caches core) (system.toCache core)
        (update system.toDirectory core up core) + _ ≤ _
      rw [update_self, found, linkWork_pop]
      exact le_refl _
  have queue := queueWork_append isRequest system.queue core
  have entry : entryWork n system.entry.isSome
        (system.queue ++ [ShmemReq.new msgType core]) =
      entryWork n system.entry.isSome system.queue := by
    cases system.entry.isSome with
    | false => rfl
    | true =>
        cases system.queue with
        | nil => exact if_neg isRequest
        | cons => rfl
  rw [ToDirectory.work_request request] at links
  change (system.requested core up msgType).linksWork config +
    queueWork (system.queue ++ [ShmemReq.new msgType core]) +
    entryWork n system.entry.isSome
      (system.queue ++ [ShmemReq.new msgType core]) +
    (system.toDram.map ToDram.work).sum + system.fromDram.length +
    askWork n (system.queue ++ [ShmemReq.new msgType core]) < _
  rw [entry]
  unfold work
  omega

/-- The entry is to be replaced. -/
theorem work_replace (requester : Fin n) (empty : system.queue = [])
    (present : system.entry.isSome = true) :
    work config { system with
        queue := [ShmemReq.new .nullifyReq requester] } + 3 * n <
      system.work config := by
  change system.linksWork config + 0 + entryWork n system.entry.isSome
    [ShmemReq.new .nullifyReq requester] +
    (system.toDram.map ToDram.work).sum + system.fromDram.length + 3 * n < _
  unfold work
  rw [present, empty]
  simp only [queueWork, entryWork, ShmemReq.new, if_true]
  omega

/-- The DRAM has answered. -/
theorem work_answered (config : Config n) {data : Data Line}
    {later : List (Data Line)} (found : system.fromDram = data :: later) :
    work config { system with fromDram := later } + 1 =
      system.work config := by
  change system.linksWork config + queueWork system.queue +
    entryWork n system.entry.isSome system.queue +
    (system.toDram.map ToDram.work).sum + later.length + 1 = _
  unfold work
  rw [found, List.length_cons]
  omega

end System

section Removal

variable {core : Fin n} {removal : ToDirectory Line}
variable {up : List (ToDirectory Line)} {owner forwarder : Option (Fin n)}

/-- A cache that gives up its copy is no sharer any more. -/
theorem Inv.work_without (inv : Inv config system)
    (found : system.toDirectory core = removal :: up)
    (isRemoval : removal = .invRep ∨ ∃ data, removal = .flushRep data) :
    ((system.taken core up).setEntry
          ((system.allocate config).without core owner
            forwarder)).work config + 3 * n + 2 ≤
      system.work config := by
  obtain ⟨sharer, -⟩ := inv.gives_up found isRemoval
  have answer : removal.reqType = none := by
    rcases isRemoval with rfl | ⟨data, rfl⟩ <;> rfl
  have taken := System.work_taken config
    ((system.allocate config).without core owner forwarder) (3 * n) found
    (by rw [entry_of_sharer sharer]; rfl)
    (fun other different => DirectoryEntry.without_of_ne different)
    (by rw [DirectoryEntry.without_self, sharer]; simp)
  rwa [ToDirectory.work_answer answer] at taken

end Removal

/-- Receiving a message, also if sharers can then be asked. -/
theorem Prepares.work_lt {action : System.Action n Line}
    {cached : Option (Data Line)}
    (prepares : Prepares config system action next cached)
    (inv : Inv config system) :
    (next.work config + if cached = none then askWork n next.queue else 0) <
      system.work config := by
  cases prepares with
  | request found request =>
      rw [if_pos rfl]
      exact System.work_requested found request
  | @replace requester _ empty present =>
      rw [if_pos rfl]
      exact System.work_replace requester empty present
  | @invRep core up _ found =>
      have taken : (system.afterInvRep config core up).work config + _ + _ ≤
        _ := inv.work_without found (Or.inl rfl)
      have asked := askWork_le (system.afterInvRep config core up).queue
      rw [if_pos rfl]
      omega
  | @flushToDram core up data cached _ found alone head =>
      have taken : (system.afterFlushRep config core up).work config + _ +
        _ ≤ _ := inv.work_without found (Or.inr ⟨data, rfl⟩)
      have written := System.work_sendDataToDram config
        (system.afterFlushRep config core up) data
      have asked := askWork_le
        ((system.afterFlushRep config core up).sendDataToDram data).queue
      split_ifs <;> omega
  | @flushTaken core up data _ _ _ found alone isHead kind =>
      have taken : (system.afterFlushRep config core up).work config + _ +
        _ ≤ _ := inv.work_without found (Or.inr ⟨data, rfl⟩)
      rw [if_neg (Option.some_ne_none _)]
      omega
  | @flushKept core up data req rest _ found isHead kind other =>
      have taken : (system.afterFlushRep config core up).work config + _ +
        _ ≤ _ := inv.work_without found (Or.inr ⟨data, rfl⟩)
      have changed := System.work_updateHead config
        (show (system.afterFlushRep config core up).queue = req :: rest from
          isHead)
        (fun req => { req with dataBuf := some none }) rfl
      have same : ShmemReq.work
          { req with dataBuf := some (none : Data Line) } = req.work := rfl
      have asked := askWork_le
        ((system.afterFlushRep config core up).updateHead fun req =>
          { req with dataBuf := some none }).queue
      rw [if_pos rfl]
      omega
  | @wbRep core up data _ _ _ found isHead kind =>
      obtain ⟨sharer, -⟩ := inv.wbRep_head found
      have taken := System.work_taken config
        { system.allocate config with owner := none, dstate := .shared } 0
        found (by rw [entry_of_sharer sharer]; rfl)
        (fun _ _ => rfl) (le_refl _)
      rw [ToDirectory.work_answer rfl] at taken
      change (system.afterWbRep config core up).work config + _ + _ ≤ _
        at taken
      rw [if_neg (Option.some_ne_none _)]
      omega
  | @dramReply data later req rest _ found isHead waits =>
      obtain ⟨-, isRequest, kind⟩ := (inv.head req rest isHead).fetching waits
      have answered := System.work_answered config found
      have sent := System.work_sendMsg config
        { system with fromDram := later }
        (if (system.allocate config).dstate = DirectoryState.shared then
            .shRep data
          else .exRep data) req.requester
      have reply := ReqType.data_work_le (n := n) isRequest
        (system.allocate config).dstate
        (fun shared => kind.mpr (by simp [shared])) data
      have enough := ShmemReq.replyWork_le isRequest
      have queue : QueueOk (req :: rest) := isHead ▸ inv.base.queue
      have left := System.work_dequeue config
        ({ system with fromDram := later }.sendMsg
          (if (system.allocate config).dstate = DirectoryState.shared then
              .shRep data
            else .exRep data) req.requester)
        isHead queue.fresh
        fun isNullify => absurd isNullify isRequest
      rw [if_pos rfl]
      change (system.afterDramReply config data later req rest).work config +
        askWork n rest + _ ≤ _ at left
      change (system.afterDramReply config data later req rest).work config +
        askWork n rest < _
      omega

/-- What the directory does with a message. -/
theorem Handled.work_lt {action : System.Action n Line}
    (handled : Handled config system action next) (inv : Inv config system)
    (full : ¬ config.maxHwSharers < n) :
    next.work config < system.work config := by
  obtain ⟨mid, cached, prepares, ⟨rfl, -, -⟩ | serves⟩ := handled
  · have received := prepares.work_lt inv
    omega
  · have received := prepares.work_lt inv
    have served := serves.work_le full
    omega

/-! ## Steps -/

namespace System

/-- A core starts an operation. -/
def Action.isAccess : Action n Line → Bool
  | .access _ _ => true
  | .evict _ | .replace _ _ | .toCache _ | .toDirectory _ _ | .toDram
  | .fromDram _ => false

/-- A message is received. -/
def Action.isDelivery : Action n Line → Bool
  | .toCache _ | .toDirectory _ _ | .toDram | .fromDram _ => true
  | .access _ _ | .evict _ | .replace _ _ => false

/-- A change of one cache and its channels. -/
theorem work_withLink {core : Fin n} {cache : Llc Line}
    {down : List (ToCache Line)} {up : List (ToDirectory Line)} {last : Line}
    (less : linkWork n ((system.allocate config).sharers core) cache down
        up <
      linkWork n ((system.allocate config).sharers core)
        (system.caches core) (system.toCache core)
        (system.toDirectory core)) :
    (system.withLink core cache down up last).work config <
      system.work config := by
  have links : (system.withLink core cache down up last).linksWork config +
      1 ≤ system.linksWork config + 0 := by
    refine linksWork_le core (fun other different => ?_) ?_
    · exact ⟨rfl, update_of_ne different ..,
        update_of_ne different .., update_of_ne different ..⟩
    · change linkWork n ((system.allocate config).sharers core)
        (update system.caches core cache core)
        (update system.toCache core down core)
        (update system.toDirectory core up core) + 1 ≤ _
      rw [update_self, update_self, update_self]
      omega
  change (system.withLink core cache down up last).linksWork config +
    queueWork system.queue + entryWork n system.entry.isSome system.queue +
    (system.toDram.map ToDram.work).sum + system.fromDram.length < _
  unfold work
  omega

theorem work_evict {core : Fin n}
    (valid : (system.caches core).cstate ≠ .invalid) :
    (system.evict core).work config < system.work config := by
  have same : system.evict core = system.withLink core
      (system.caches core).drop (system.toCache core)
      (system.toDirectory core ++
        [if (system.caches core).cstate = .modified then
          .flushRep (system.caches core).data else .invRep])
      system.lastWrite := by
    simp [evict, withLink, setCache, sendToDirectory, Llc.drop]
  rw [same]
  refine work_withLink ?_
  have lost := linkWork_drop (n := n)
    ((system.allocate config).sharers core) (system.toCache core)
    (system.toDirectory core) valid
  rw [linkWork_send, ToDirectory.work_answer (by split_ifs <;> rfl)]
  omega

/-- The DRAM receives a message. -/
theorem work_toDram {msg : ToDram Line} {later : List (ToDram Line)}
    (found : system.toDram = msg :: later) :
    ({ system with
        toDram := later }.handleMsgFromTagDirectory msg).work config <
      system.work config := by
  cases msg with
  | readReq =>
      change system.linksWork config + queueWork system.queue +
        entryWork n system.entry.isSome system.queue +
        (later.map ToDram.work).sum +
        (system.fromDram ++ [system.dram]).length < _
      unfold work
      rw [found, List.map_cons, List.sum_cons, List.length_append,
        List.length_singleton, ToDram.work]
      omega
  | writeReq data =>
      change system.linksWork config + queueWork system.queue +
        entryWork n system.entry.isSome system.queue +
        (later.map ToDram.work).sum + system.fromDram.length < _
      unfold work
      rw [found, List.map_cons, List.sum_cons, ToDram.work]
      omega

/-- A cache receives a message. -/
theorem receive_lowers (inv : Inv config system) {core : Fin n}
    {msg : ToCache Line} {down : List (ToCache Line)}
    (found : system.toCache core = msg :: down) :
    ∃ next,
      { system with
          toCache := update system.toCache core
            down }.handleMsgFromDramDirectory core msg = .ok next ∧
      Inv config next ∧ next.work config < system.work config := by
  have link := inv.base.links core
  rw [found] at link
  obtain ⟨cache, up, last, run, moves, linked⟩ :=
    receive_link system core system.lastWrite link
  have popped : { system with
      toCache := update system.toCache core down } =
      system.withLink core (system.caches core) down
        (system.toDirectory core) system.lastWrite := by
    simp [withLink]
  rw [popped]
  refine ⟨_, run, inv.withLink linked, work_withLink ?_⟩
  rw [found]
  exact moves.work_lt link linked _

/-- Every step that is no new operation succeeds and lowers the work. -/
theorem step_lowers (inv : Inv config system) (ok : config.Ok)
    (full : ¬ config.maxHwSharers < n) {action : Action n Line}
    (other : action.isAccess = false)
    {result : Except Failure (System n Line)}
    (step : system.step config action = some result) :
    ∃ next, result = .ok next ∧ Inv config next ∧
      next.work config < system.work config := by
  cases action with
  | access => cases other
  | evict core =>
      have valid : (system.caches core).cstate ≠ .invalid := by
        intro invalid
        rw [System.step, invalid] at step
        cases step
      obtain ⟨next, same, moves⟩ :=
        step_moves inv ok (inv.steady full _) step
      refine ⟨next, same, moves.inv inv ok, ?_⟩
      have evicted : result = .ok (system.evict core) := by
        rw [System.step] at step
        split at step
        all_goals first
          | exact (Option.some.inj step).symm
          | cases step
      obtain rfl := Except.ok.inj (same.symm.trans evicted)
      exact work_evict valid
  | replace requester random =>
      rw [System.step] at step
      split_ifs at step with possible
      obtain ⟨next, run, handled⟩ := replace_moves inv ok random requester
        possible.1 possible.2
      rw [run] at step
      exact ⟨next, (Option.some.inj step).symm, handled.inv ok,
        handled.work_lt inv full⟩
  | toCache core =>
      rw [System.step] at step
      split at step
      · cases step
      · rename_i msg down found
        obtain ⟨next, run, kept, less⟩ := receive_lowers inv found
        rw [run] at step
        exact ⟨next, (Option.some.inj step).symm, kept, less⟩
  | toDirectory core random =>
      rw [System.step] at step
      split at step
      · cases step
      · rename_i msg up found
        obtain ⟨next, run, handled⟩ :=
          handleMsgFromL2Cache_handled inv ok
            (inv.steady full (.toDirectory core random)) found
        refine ⟨next, ?_, handled.inv ok, handled.work_lt inv full⟩
        rw [← run]
        exact (Option.some.inj step).symm
  | toDram =>
      rw [System.step] at step
      split at step
      · cases step
      · rename_i msg later found
        exact ⟨_, (Option.some.inj step).symm, inv.dram found,
          work_toDram found⟩
  | fromDram random =>
      rw [System.step] at step
      split at step
      · cases step
      · rename_i data later found
        obtain ⟨next, run, handled⟩ :=
          processDRAMReply_moves inv ok random found
        rw [run] at step
        exact ⟨next, (Option.some.inj step).symm, handled.inv ok,
          handled.work_lt inv full⟩

/-! ## Rest -/

/-- No message is in flight. -/
def AtRest (system : System n Line) : Prop :=
  (∀ core, system.toCache core = [] ∧ system.toDirectory core = []) ∧
    system.toDram = [] ∧ system.fromDram = []

/-- As long as a message is in flight, it can be received. -/
theorem exists_delivery (config : Config n) (moving : ¬ system.AtRest) :
    ∃ action : Action n Line, action.isDelivery = true ∧
      (system.step config action).isSome = true := by
  unfold AtRest at moving
  by_cases caches : ∃ core, system.toCache core ≠ []
  · obtain ⟨core, waiting⟩ := caches
    obtain ⟨msg, down, found⟩ := List.exists_cons_of_ne_nil waiting
    exact ⟨.toCache core, rfl, by rw [step, found]; rfl⟩
  by_cases directory : ∃ core, system.toDirectory core ≠ []
  · obtain ⟨core, waiting⟩ := directory
    obtain ⟨msg, up, found⟩ := List.exists_cons_of_ne_nil waiting
    exact ⟨.toDirectory core 0, rfl, by rw [step, found]; rfl⟩
  by_cases dram : system.toDram ≠ []
  · obtain ⟨msg, later, found⟩ := List.exists_cons_of_ne_nil dram
    exact ⟨.toDram, rfl, by rw [step, found]; rfl⟩
  by_cases replies : system.fromDram ≠ []
  · obtain ⟨data, later, found⟩ := List.exists_cons_of_ne_nil replies
    exact ⟨.fromDram 0, rfl, by rw [step, found]; rfl⟩
  push Not at caches directory dram replies
  exact absurd ⟨fun core => ⟨caches core, directory core⟩, dram, replies⟩
    moving

end System

/-- What the directory knows about a cache at rest. -/
def KnownAtRest (entry : DirectoryEntry n) (core : Fin n) :
    CacheState → Prop
  | .invalid => entry.sharers core = false
  | .shared => entry.sharers core = true ∧ entry.dstate = .shared
  | .sharedUpgrading => False
  | .exclusive => entry.sharers core = true ∧ entry.dstate = .exclusive
  | .modified => entry.sharers core = true ∧
      (entry.dstate = .exclusive ∨ entry.dstate = .modified)

theorem Link.known {limited : Prop} {entry : DirectoryEntry n}
    {core : Fin n} {cache : Llc Line}
    (link : Link limited
      ⟨entry.sharers core, entry.dstate, false, none, .nothing⟩ cache [] []) :
    cache.waiters = [] ∧ KnownAtRest entry core cache.cstate := by
  generalize down : ([] : List (ToCache Line)) = received at link
  generalize up : ([] : List (ToDirectory Line)) = sent at link
  cases link with
  | absent sharer _ cstate _ requesting =>
      refine ⟨?_, ?_⟩
      · subst up
        cases requesting with
        | idle _ waiters => exact waiters
        | queued impossible => cases impossible
      · rw [cstate]
        exact sharer
  | pending _ impossible => cases impossible
  | @granted ignored live grant => simp at down
  | left => simp at up
  | @held _ _ answered upgrade sharer _ consistent copy _ sent answers
      tokens =>
      have unanswered : answered = false := by
        cases answered with
        | false => rfl
        | true => cases answers rfl
      subst unanswered
      rcases tokens with ⟨-, ⟨⟨sending, -⟩ | ⟨-, impossible⟩, -⟩⟩ |
        ⟨other, -, -, waiters⟩
      · subst up
        subst sending
        cases sent
      · cases impossible
      · refine ⟨waiters, ?_⟩
        unfold Copy at copy
        dsimp only at copy sharer
        cases state : entry.dstate with
        | uncached => exact absurd state consistent.cached
        | shared =>
            rw [if_pos (Or.inr state)] at copy
            rcases copy with same | same
            · rw [same]
              exact ⟨sharer, state⟩
            · exact absurd same other
        | modified =>
            simp only [state] at copy
            rw [show cache.cstate = .modified by simpa using copy]
            exact ⟨sharer, Or.inr state⟩
        | exclusive =>
            simp only [state] at copy
            rcases show cache.cstate = .exclusive ∨
              cache.cstate = .modified by simpa using copy with same | same
            · rw [same]
              exact ⟨sharer, state⟩
            · rw [same]
              exact ⟨sharer, Or.inl state⟩

/-- At rest no request is in the queue. -/
theorem Inv.queue_of_atRest (inv : Inv config system)
    (full : ¬ config.maxHwSharers < n) (rests : system.AtRest) :
    system.queue = [] := by
  obtain ⟨channels, toDram, fromDram⟩ := rests
  cases isHead : system.queue with
  | nil => rfl
  | cons req rest =>
      exfalso
      have head := inv.head req rest isHead
      cases waits : req.waitForData with
      | true =>
          have reads := inv.base.reads
          rw [isHead, waitsOf, waits, readsOf, toDram, fromDram] at reads
          simp at reads
      | false =>
          obtain ⟨core, awaited⟩ :=
            head.exists_awaited inv.base.entry full waits
          have asked : asks (system.allocate config) system.queue core ≠
              .nothing := by
            rw [isHead]
            exact asksOf_awaited head.cached waits awaited
          rcases (inv.base.links core).outstanding awaited.1 asked with
            ⟨before, msg, after, found, -⟩ | ⟨msg, mem, -⟩
          · rw [(channels core).1] at found
            simp at found
          · rw [(channels core).2] at mem
            cases mem

/-- Without new operations the protocol comes to rest.  From a reachable state
only a bounded number of steps other than operations of the cores is possible,
evictions and replacements of the entry included.  As long as a message is in
flight, one can be received, and no assertion fails.  When there is none, every
operation has been performed, and the directory knows the copies. -/
theorem comes_to_rest (full : config.FullMap) (positive : 1 ≤ n)
    (reached : System.Reachable config initial system) :
    (∀ actions last,
      (∀ action ∈ actions, System.Action.isAccess action = false) →
      system.run config actions = some last →
      actions.length ≤ system.work config) ∧
    (¬ system.AtRest → ∃ action next,
      System.Action.isDelivery action = true ∧
      system.step config action = some (.ok next)) ∧
    (system.AtRest → system.queue = [] ∧ ∀ core,
      (system.caches core).waiters = [] ∧
      KnownAtRest (system.allocate config) core (system.caches core).cstate) := by
  have ok := full.ok positive
  have inv := inv_reachable full positive reached
  refine ⟨fun actions last quiet run => ?_, fun moving => ?_, fun rests => ?_⟩
  · have bound := length_le_of_decreasing (System.work config) (Inv config)
      (fun action => System.Action.isAccess action = false)
      (fun {state action next} kept other stepped => ?_) inv quiet run
    · omega
    · obtain ⟨result, step, same⟩ := Option.bind_eq_some_iff.mp stepped
      obtain ⟨other, rfl, keptNext, less⟩ :=
        System.step_lowers kept ok full.not_limited other step
      cases same
      exact ⟨keptNext, less⟩
  · obtain ⟨action, delivery, possible⟩ :=
      System.exists_delivery config moving
    obtain ⟨result, step⟩ := Option.isSome_iff_exists.mp possible
    have other : action.isAccess = false := by
      cases action with
      | access => cases delivery
      | evict | replace | toCache | toDirectory | toDram | fromDram => rfl
    obtain ⟨next, rfl, -⟩ :=
      System.step_lowers inv ok full.not_limited other step
    exact ⟨action, next, delivery, step⟩
  · have empty := inv.queue_of_atRest full.not_limited rests
    refine ⟨empty, fun core => ?_⟩
    have link := inv.base.links core
    rw [empty, (rests.1 core).1, (rests.1 core).2] at link
    exact link.known

/-- Two operations wait for the directory. -/
theorem comes_to_rest_two :
    ∃ system : System 2 Nat,
      System.Reachable ⟨.mesi, 2, none⟩ 0 system ∧
      (∀ core, (system.caches core).waiters ≠ []) ∧
      (∀ actions last,
        (∀ action ∈ actions, System.Action.isAccess action = false) →
        system.run ⟨.mesi, 2, none⟩ actions = some last →
        actions.length ≤ 183) ∧
      ∃ action next, System.Action.isDelivery action = true ∧
        system.step ⟨.mesi, 2, none⟩ action = some (.ok next) := by
  have ran : ∃ system : System 2 Nat,
      (System.start 0).run ⟨.mesi, 2, none⟩
        [.access 0 (.write 7), .access 1 .read] = some system ∧
      (∀ core, (system.caches core).waiters ≠ []) ∧
      system.toDirectory 0 = [.exReq] ∧
      system.work ⟨.mesi, 2, none⟩ = 183 :=
    ⟨_, rfl, by decide, rfl, by decide⟩
  obtain ⟨system, ran, waiting, sent, total⟩ := ran
  have reached := System.reachable_of_run ran
  have full : Config.FullMap (⟨.mesi, 2, none⟩ : Config 2) := rfl
  have result := comes_to_rest full (by decide) reached
  refine ⟨system, reached, waiting, total ▸ result.1,
    result.2.1 fun rests => ?_⟩
  rw [(rests.1 0).2] at sent
  cases sent

end ChipletSniper.Coherence
