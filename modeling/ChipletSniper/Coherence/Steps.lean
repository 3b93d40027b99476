import ChipletSniper.Coherence.Receiving

/-!
# The steps of the system

Every step from a state that meets the invariant is a move of one cache, a
move of the DRAM or a message that the directory handles, and it leads to a
state that meets the invariant.
-/

namespace ChipletSniper.Coherence

open Function

variable {n : Nat} {Line : Type} {config : Config n}
variable {system next : System n Line} {req : ShmemReq n Line}
variable {rest : List (ShmemReq n Line)}

/-! ## Data that a cache writes back -/

section WriteBack

variable {core : Fin n} {up : List (ToDirectory Line)} {data : Data Line}

/-- The request at the head of the queue has asked for the data. -/
theorem Inv.wbRep_head (inv : Inv config system)
    (found : system.toDirectory core = .wbRep data :: up) :
    (system.allocate config).sharers core = true ∧
      ∃ req rest, system.queue = req :: rest ∧ req.msgType = .shReq ∧
        req.waitForData = false ∧
        ((system.allocate config).dstate = .exclusive ∨
          (system.allocate config).dstate = .modified ∨
          ((system.allocate config).dstate = .shared ∧
            req.forwardingFrom = some core)) := by
  have link := inv.base.links core
  rw [found] at link
  obtain ⟨sharer, -, asked, -⟩ := link.receiveWbRep
  refine ⟨sharer, ?_⟩
  change asks (system.allocate config) system.queue core = _ at asked
  cases isHead : system.queue with
  | nil =>
      rw [isHead] at asked
      cases asked
  | cons req rest =>
      rw [isHead] at asked
      change asksOf _ req core = _ at asked
      have unwaiting : req.waitForData = false := by
        cases waits : req.waitForData with
        | false => rfl
        | true =>
            rw [asksOf_waiting _ waits] at asked
            cases asked
      rcases asksOf_cases (system.allocate config) req core with
        nothing | ⟨owned, same⟩ | ⟨-, -, orFlush, same⟩ |
          ⟨shared, isSh, forwards, -⟩
      · rw [nothing] at asked
        cases asked
      · rw [same] at asked
        split_ifs at asked with isSh
        refine ⟨req, rest, rfl, isSh, unwaiting, ?_⟩
        rcases owned with exclusive | modified
        · exact Or.inl exclusive
        · exact Or.inr (Or.inl modified)
      · rw [same] at asked
        cases asked
      · exact ⟨req, rest, rfl, isSh, unwaiting,
          Or.inr (Or.inr ⟨shared, forwards⟩)⟩

theorem Inv.ready_wbRep (inv : Inv config system)
    (found : system.toDirectory core = .wbRep data :: up)
    (isHead : system.queue = req :: rest) (isSh : req.msgType = .shReq)
    (unwaiting : req.waitForData = false)
    (states : (system.allocate config).dstate = .exclusive ∨
      (system.allocate config).dstate = .modified ∨
      ((system.allocate config).dstate = .shared ∧
        req.forwardingFrom = some core)) :
    Ready config (system.afterWbRep config core up) req rest (some data) := by
  obtain ⟨sharer, -⟩ := inv.wbRep_head found
  have head := inv.head req rest isHead
  refine ⟨⟨fun other => ?_, ⟨⟨nofun, fun empty => ?_⟩, fun impossible => ?_⟩,
    inv.base.queue, inv.base.reads⟩, nofun, isHead, unwaiting,
    fun forwards => ?_⟩
  · have link := inv.base.links other
    change Link _ ⟨(system.allocate config).sharers other, .shared,
      pendingOf system.queue other, queuedOf system.queue other, .nothing⟩
      (system.caches other) (system.toCache other)
      (update system.toDirectory core up other)
    by_cases same : other = core
    · subst same
      rw [found] at link
      rw [update_self]
      exact link.receiveWbRep.2.2.2
    · rw [update_of_ne same]
      by_cases shares : (system.allocate config).sharers other = true
      · have shared := inv.base.entry.shared_of_ne same shares sharer
        have untold : asks (system.allocate config) system.queue other =
            .nothing := by
          rw [isHead]
          refine asksOf_share shared isSh ?_
          rcases states with state | state | ⟨-, forwards⟩
          · simp [shared] at state
          · simp [shared] at state
          · simp [forwards, Ne.symm same]
        rw [viewOf, untold, shared] at link
        exact link
      · have notSharer : (system.allocate config).sharers other = false := by
          simpa using shares
        exact link.congr_absent notSharer notSharer
          (link.pending_of_not_sharer notSharer) rfl
  · have impossible := empty core
    change (system.allocate config).sharers core = false at impossible
    rw [sharer] at impossible
    cases impossible
  · rcases impossible with same | same <;> cases same
  · obtain ⟨isSh, -, shares, mesif⟩ := head.forwarding forwards
    exact ⟨isSh, rfl, shares, mesif⟩

theorem processWbRep_moves (inv : Inv config system) (ok : config.Ok)
    (random : Nat) (found : system.toDirectory core = .wbRep data :: up) :
    ∃ next,
      (system.taken core up).processWbRepFromL2Cache config random core
        data = .ok next ∧
      Handled config system (.toDirectory core random) next := by
  obtain ⟨sharer, req, rest, isHead, isSh, unwaiting, states⟩ :=
    inv.wbRep_head found
  have ready := inv.ready_wbRep found isHead isSh unwaiting states
  obtain ⟨final, run, serves⟩ := ready.proceeds ok random
    (fun isUpgrade => by simp [isSh] at isUpgrade)
    (processShReq_outcome ready ok random isSh (Or.inr (Or.inr rfl)))
  refine ⟨final, ?_, _, _, .wbRep found isHead isSh, Or.inr serves⟩
  have entry : (system.taken core up).entry =
      some (system.allocate config) := entry_of_sharer sharer
  unfold System.processWbRepFromL2Cache
  rw [entry]
  dsimp only
  rw [check_bind sharer]
  have queue : ((system.taken core up).setEntry { system.allocate config with
      owner := none, dstate := .shared }).queue = req :: rest := isHead
  rw [queue]
  dsimp only
  rw [check_bind isSh]
  exact run

end WriteBack

/-! ## Requests -/

section Request

variable {core : Fin n} {msg : ToDirectory Line} {msgType : ReqType}
variable {up : List (ToDirectory Line)}

theorem QueueOk.enqueue {queue : List (ShmemReq n Line)}
    (ok : QueueOk queue) (isRequest : msgType ≠ .nullifyReq)
    (none : queuedOf queue core = none) :
    QueueOk (queue ++ [ShmemReq.new msgType core]) := by
  refine ⟨fun other mem => ?_, ?_⟩
  · cases queue with
    | nil => cases mem
    | cons first queue =>
        rw [List.cons_append, List.tail_cons] at mem
        rcases List.mem_append.mp mem with old | new
        · exact ok.fresh other old
        · rw [List.mem_singleton.mp new]
          exact ⟨isRequest, rfl⟩
  · refine List.pairwise_append.mpr ⟨ok.distinct,
      List.pairwise_singleton _ _, fun first mem second new isReq => ?_⟩
    rw [List.mem_singleton.mp new]
    exact ne_of_queuedOf_eq_none none mem isReq

/-- A request is added to the queue. -/
theorem Base.requested {ask : Fin n → Asked}
    (base : Base config system ask)
    (found : system.toDirectory core = msg :: up)
    (request : msg.reqType = some msgType) :
    Base config (system.requested core up msgType) ask := by
  have link := base.links core
  rw [found] at link
  obtain ⟨none, -, -, linked⟩ := link.receiveRequest request
  have isRequest := reqType_ne_nullify request
  have pending : ∀ other,
      pendingOf (system.queue ++ [ShmemReq.new msgType core]) other =
        pendingOf system.queue other := by
    intro other
    cases system.queue with
    | nil => simp [pendingOf, ShmemReq.retrieving, ShmemReq.new]
    | cons first queue => rfl
  refine ⟨fun other => ?_, base.entry, base.queue.enqueue isRequest none, ?_⟩
  · change Link _ ⟨(system.allocate config).sharers other,
      (system.allocate config).dstate,
      pendingOf (system.queue ++ [ShmemReq.new msgType core]) other,
      queuedOf (system.queue ++ [ShmemReq.new msgType core]) other,
      ask other⟩ (system.caches other) (system.toCache other)
      (update system.toDirectory core up other)
    rw [pending, queuedOf_append]
    by_cases same : other = core
    · subst same
      rw [update_self, show queuedOf system.queue other = _ from none,
        if_pos ⟨isRequest, rfl⟩]
      exact linked
    · rw [update_of_ne same, if_neg fun own => same own.2.symm,
        Option.or_none]
      exact base.links other
  · refine Eq.trans base.reads ?_
    change _ = if waitsOf (system.queue ++ [ShmemReq.new msgType core]) then 1
      else 0
    cases system.queue with
    | nil => rfl
    | cons first queue => rfl

theorem enqueue_moves (inv : Inv config system) (ok : config.Ok)
    (random : Nat) (found : system.toDirectory core = msg :: up)
    (request : msg.reqType = some msgType)
    (calm : system.queue = [] → Calm config
      (system.requested core up msgType) (ShmemReq.new msgType core)) :
    ∃ next,
      (system.taken core up).enqueue config random core msgType =
        .ok next ∧
      Handled config system (.toDirectory core random) next := by
  have isRequest := reqType_ne_nullify request
  by_cases empty : system.queue = []
  · have base := inv.base.requested found request
    have ready : Ready config (system.requested core up msgType)
        (ShmemReq.new msgType core) [] none := by
      refine ⟨?_, fun _ => inv.forwarder, ?_, rfl,
        fun forwards => absurd rfl forwards⟩
      · rw [empty] at base
        exact base
      · change system.queue ++ _ = _
        rw [empty]
        rfl
    obtain ⟨final, run, serves⟩ := ready.proceeds ok random (calm empty)
      (serve_outcome ready ok random isRequest)
    refine ⟨final, ?_, _, _, .request found request, Or.inr serves⟩
    rw [System.enqueue, if_pos (show (system.taken core up).queue = [] from empty)]
    exact run
  · refine ⟨system.requested core up msgType, ?_, _, _,
      .request found request, Or.inl ⟨rfl, rfl, ?_, inv.forwarder, ?_⟩⟩
    · rw [System.enqueue, if_neg (show (system.taken core up).queue ≠ [] from empty)]
      rfl
    · have same : asks (system.allocate config)
          (system.queue ++ [ShmemReq.new msgType core]) =
          asks (system.allocate config) system.queue := by
        cases isHead : system.queue with
        | nil => exact absurd isHead empty
        | cons first queue => rfl
      change Base config _ (asks (system.allocate config)
        (system.queue ++ [ShmemReq.new msgType core]))
      rw [same]
      exact inv.base.requested found request
    · intro req rest isHead
      change system.queue ++ [ShmemReq.new msgType core] = _ at isHead
      cases old : system.queue with
      | nil => exact absurd old empty
      | cons first queue =>
          rw [old] at isHead
          obtain ⟨rfl, -⟩ := List.cons.inj isHead
          exact inv.head first queue old

end Request

/-! ## The DRAM and the replacement of an entry -/

theorem Inv.idle_dramReply (inv : Inv config system) {data : Data Line}
    {later : List (Data Line)} (found : system.fromDram = data :: later)
    (isHead : system.queue = req :: rest) (waits : req.waitForData = true) :
    Idle config (system.afterDramReply config data later req rest) := by
  obtain ⟨shares, isRequest, kind⟩ :=
    (inv.head req rest isHead).fetching waits
  have queue : QueueOk (req :: rest) := isHead ▸ inv.base.queue
  have none := queue.queuedOf_tail isRequest
  refine .of_queue (system.allocate config) rest rfl rfl (fun core => ?_)
    inv.base.entry queue.tail queue.fresh ?_ inv.forwarder
    fun _ => ⟨_, shares, none⟩
  · have link := inv.base.links core
    rw [viewOf, isHead] at link
    have untold : asks (system.allocate config) (req :: rest) core =
        .nothing :=
      asksOf_waiting _ waits core
    rw [untold] at link
    dsimp only [System.afterDramReply, System.dequeue, System.sendMsg]
    by_cases own : core = req.requester
    · subst own
      rw [update_self, none]
      refine link.grant ?_ ?_
      · simp [pendingOf, ShmemReq.retrieving, waits, isRequest]
      · by_cases shared : (system.allocate config).dstate = .shared
        · exact Or.inl ⟨data, if_pos shared, shared⟩
        · exact Or.inr ⟨data, if_neg shared, shared⟩
    · have pending : pendingOf (req :: rest) core = false := by
        simp [pendingOf, Ne.symm own]
      rw [update_of_ne own]
      rw [pending, queuedOf_cons, if_neg fun same => own same.2.symm] at link
      exact link
  · have reads := inv.base.reads
    rw [isHead, waitsOf, waits, if_pos rfl, readsOf, found,
      List.length_cons] at reads
    change List.countP _ system.toDram + later.length = 0
    omega

theorem processDRAMReply_moves (inv : Inv config system) (ok : config.Ok)
    (random : Nat) {data : Data Line} {later : List (Data Line)}
    (found : system.fromDram = data :: later) :
    ∃ next,
      { system with fromDram := later }.processDRAMReply config random data =
        .ok next ∧
      Handled config system (.fromDram random) next := by
  obtain ⟨req, rest, isHead, waits⟩ : ∃ req rest,
      system.queue = req :: rest ∧ req.waitForData = true := by
    have reads := inv.base.reads
    rw [readsOf, found, List.length_cons] at reads
    cases isHead : system.queue with
    | nil =>
        rw [isHead] at reads
        simp [waitsOf] at reads
    | cons req rest =>
        refine ⟨req, rest, rfl, ?_⟩
        by_contra unwaiting
        rw [isHead] at reads
        simp [waitsOf, unwaiting] at reads
  have head := inv.head req rest isHead
  obtain ⟨shares, isRequest, modified⟩ := head.fetching waits
  obtain ⟨final, run, serves⟩ := serveAll_serves ok random rest _
    (inv.idle_dramReply found isHead waits) rfl
  refine ⟨final, ?_, _, _, .dramReply found isHead waits, Or.inr serves⟩
  have entry : system.entry = some (system.allocate config) :=
    entry_of_sharer shares
  unfold System.processDRAMReply
  dsimp only
  rw [isHead, entry]
  dsimp only
  have next : ∀ reply : ToCache Line,
      reply = (if (system.allocate config).dstate = .shared then .shRep data
        else .exRep data) →
      System.processNextReqFromL2Cache config random
        ({ system with fromDram := later }.sendMsg reply req.requester) =
        .ok final := by
    rintro reply rfl
    rw [← run]
    exact System.processNextReqFromL2Cache_of_queue random isHead
  rw [isHead, entry] at next
  cases kind : req.msgType with
  | shReq =>
      have notModified := modified.mp kind
      have states : (system.allocate config).dstate = .shared ∨
          (system.allocate config).dstate = .exclusive := by
        cases state : (system.allocate config).dstate with
        | uncached => exact absurd state head.cached
        | modified => exact absurd state notModified
        | shared => exact Or.inl rfl
        | exclusive => exact Or.inr rfl
      dsimp only
      rw [check_bind states]
      refine next _ ?_
      rcases states with shared | exclusive
      · simp [shared]
      · simp [exclusive]
  | exReq =>
      have isModified : (system.allocate config).dstate = .modified := by
        by_contra other
        have impossible := modified.mpr other
        simp [kind] at impossible
      dsimp only
      rw [check_bind isModified]
      exact next _ (by simp [isModified])
  | upgradeReq =>
      have isModified : (system.allocate config).dstate = .modified := by
        by_contra other
        have impossible := modified.mpr other
        simp [kind] at impossible
      exact next _ (by simp [isModified])
  | nullifyReq => exact absurd kind isRequest

theorem replace_moves (inv : Inv config system) (ok : config.Ok)
    (random : Nat) (requester : Fin n) (empty : system.queue = [])
    (entry : system.entry.isSome = true) :
    ∃ next,
      system.processDirectoryEntryAllocationReq config random requester =
        .ok next ∧
      Handled config system (.replace requester random) next := by
  have ready : Ready config
      { system with queue := [ShmemReq.new .nullifyReq requester] }
      (ShmemReq.new .nullifyReq requester) [] none := by
    refine ⟨⟨fun core => ?_, inv.base.entry, ⟨nofun, ?_⟩, ?_⟩,
      fun _ => inv.forwarder, rfl, rfl, fun forwards => absurd rfl forwards⟩
    · have link := inv.base.links core
      rw [empty] at link
      exact link
    · exact List.pairwise_singleton _ _
    · have reads := inv.base.reads
      rw [empty] at reads
      exact reads
  obtain ⟨final, run, serves⟩ := ready.proceeds ok random
    (fun isUpgrade => by cases isUpgrade)
    (processNullifyReq_outcome ready rfl entry)
  exact ⟨final, run, _, _, .replace empty entry, Or.inr serves⟩

/-! ## Steps -/

/-- The request of a cache that an action hands to the directory. -/
def System.delivered (system : System n Line) :
    System.Action n Line → List (Fin n × ReqType)
  | .toDirectory core _ =>
      ((system.toDirectory core).head?.bind ToDirectory.reqType).toList.map
        fun msgType => (core, msgType)
  | _ => []

/-- What a step can do. -/
inductive Move (config : Config n) (system : System n Line)
    (action : System.Action n Line) : System n Line → Prop
  | cache {core : Fin n} {cache : Llc Line} {down : List (ToCache Line)}
      {up : List (ToDirectory Line)} {last : Line} :
      down = system.toCache core ∨ action = .toCache core →
      CacheMove (system.caches core) (system.toCache core)
        (system.toDirectory core) system.lastWrite cache down up last →
      Link (config.maxHwSharers < n)
        (viewOf (system.allocate config) system.queue
          (asks (system.allocate config) system.queue) core) cache down up →
      system.delivered action = [] →
      Move config system action (system.withLink core cache down up last)
  | dram {msg : ToDram Line} {later : List (ToDram Line)} :
      system.toDram = msg :: later → system.delivered action = [] →
      Move config system action
        ({ system with toDram := later }.handleMsgFromTagDirectory msg)
  | directory {next : System n Line} :
      Handled config system action next → Move config system action next

theorem Inv.withLink (inv : Inv config system) {core : Fin n}
    {cache : Llc Line} {down : List (ToCache Line)}
    {up : List (ToDirectory Line)} {last : Line}
    (link : Link (config.maxHwSharers < n)
      (viewOf (system.allocate config) system.queue
        (asks (system.allocate config) system.queue) core) cache down up) :
    Inv config (system.withLink core cache down up last) := by
  refine ⟨⟨fun other => ?_, inv.base.entry, inv.base.queue, inv.base.reads⟩,
    inv.forwarder, inv.head⟩
  change Link _ (viewOf (system.allocate config) system.queue
    (asks (system.allocate config) system.queue) other)
    (update system.caches core cache other)
    (update system.toCache core down other)
    (update system.toDirectory core up other)
  by_cases same : other = core
  · subst same
    rw [update_self, update_self, update_self]
    exact link
  · rw [update_of_ne same, update_of_ne same,
      update_of_ne same]
    exact inv.base.links other

theorem Inv.dram (inv : Inv config system) {msg : ToDram Line}
    {later : List (ToDram Line)} (found : system.toDram = msg :: later) :
    Inv config
      ({ system with toDram := later }.handleMsgFromTagDirectory msg) := by
  have reads := inv.base.reads
  rw [readsOf, found] at reads
  cases msg with
  | readReq =>
      refine ⟨⟨inv.base.links, inv.base.entry, inv.base.queue, ?_⟩,
        inv.forwarder, inv.head⟩
      refine Eq.trans ?_ reads
      change List.countP _ later + (system.fromDram ++ [system.dram]).length =
        _
      rw [List.length_append, List.length_singleton,
        List.countP_cons_of_pos rfl]
      omega
  | writeReq data =>
      refine ⟨⟨inv.base.links, inv.base.entry, inv.base.queue, ?_⟩,
        inv.forwarder, inv.head⟩
      refine Eq.trans ?_ reads
      rw [List.countP_cons_of_neg Bool.false_ne_true]
      rfl

theorem Handled.inv {action : System.Action n Line}
    (handled : Handled config system action next) (ok : config.Ok) :
    Inv config next := by
  obtain ⟨mid, cached, -, ⟨rfl, -, inv⟩ | serves⟩ := handled
  · exact inv
  · exact serves.inv ok

theorem Move.inv {action : System.Action n Line}
    (move : Move config system action next) (inv : Inv config system)
    (ok : config.Ok) :
    Inv config next := by
  cases move with
  | cache _ _ link _ => exact inv.withLink link
  | dram found _ => exact inv.dram found
  | directory handled => exact handled.inv ok

/-! ## Upgrades that are not disturbed -/

/-- The next message of a cache makes the directory upgrade the only sharer. -/
def Upgrades (config : Config n) (system : System n Line)
    (core requester : Fin n) : Prop :=
  (∃ up, system.toDirectory core = .upgradeReq :: up ∧ system.queue = [] ∧
    (system.allocate config).dstate = .shared ∧
    (system.allocate config).getSharersList = [core] ∧ requester = core) ∨
  ∃ up req rest, system.toDirectory core = .invRep :: up ∧
    system.queue = req :: rest ∧ req.msgType = .upgradeReq ∧
    req.requester = requester ∧
    (system.allocate config).getSharersList.filter (· ≠ core) = [requester]

/-- No invalidation of a sharer is in flight when it is upgraded. -/
def Steady (config : Config n) (system : System n Line)
    (action : System.Action n Line) : Prop :=
  ∀ core random requester, action = .toDirectory core random →
    Upgrades config system core requester →
    Undisturbed (system.toCache requester) (system.toDirectory requester)

theorem DirectoryEntry.invalidated_list (entry : DirectoryEntry n)
    (core : Fin n) :
    (entry.invalidated core).getSharersList =
      entry.getSharersList.filter (· ≠ core) := by
  unfold getSharersList
  rw [DirectoryEntry.invalidated, without_sharers, List.filter_filter]
  refine List.filter_congr fun other _ => ?_
  by_cases same : other = core
  · simp [same]
  · simp [same]

theorem Steady.calm_request {core : Fin n} {random : Nat}
    {up : List (ToDirectory Line)} {msg : ToDirectory Line}
    {msgType : ReqType}
    (steady : Steady config system (.toDirectory core random))
    (found : system.toDirectory core = msg :: up)
    (request : msg.reqType = some msgType) (empty : system.queue = []) :
    Calm config (system.requested core up msgType)
      (ShmemReq.new msgType core) := by
  intro isUpgrade shared only
  change msgType = .upgradeReq at isUpgrade
  subst isUpgrade
  obtain rfl := reqType_eq_upgrade request
  obtain ⟨down, sent⟩ := steady core random core rfl
    (Or.inl ⟨up, found, empty, shared, only, rfl⟩)
  refine ⟨down, ?_⟩
  change .invRep ∉ update system.toDirectory core up core
  rw [update_self]
  rw [found] at sent
  exact fun mem => sent (List.mem_cons_of_mem _ mem)

theorem Steady.calm_invRep {core : Fin n} {random : Nat}
    {up : List (ToDirectory Line)}
    (steady : Steady config system (.toDirectory core random))
    (found : system.toDirectory core = .invRep :: up) (req : ShmemReq n Line)
    (rest : List (ShmemReq n Line)) (isHead : system.queue = req :: rest) :
    Calm config (system.afterInvRep config core up) req := by
  intro isUpgrade _ only
  change ((system.allocate config).invalidated core).getSharersList = _ at only
  rw [DirectoryEntry.invalidated_list] at only
  have different : req.requester ≠ core := by
    have mem : req.requester ∈
        (system.allocate config).getSharersList.filter (· ≠ core) := by
      rw [only]
      exact List.mem_singleton_self _
    simpa using (List.mem_filter.mp mem).2
  obtain ⟨down, sent⟩ := steady core random req.requester rfl
    (Or.inr ⟨up, req, rest, found, isHead, isUpgrade, rfl, only⟩)
  refine ⟨down, ?_⟩
  change .invRep ∉ update system.toDirectory core up req.requester
  rw [update_of_ne different]
  exact sent

/-- With a sharer list that is never full, an upgrade is not disturbed. -/
theorem Inv.steady (inv : Inv config system)
    (full : ¬ config.maxHwSharers < n) (action : System.Action n Line) :
    Steady config system action := by
  rintro core random requester -
    (⟨up, found, empty, shared, only, rfl⟩ |
      ⟨up, req, rest, found, isHead, isUpgrade, rfl, only⟩)
  · have base := inv.base.requested found rfl
    have link := base.links requester
    have sharer : (system.allocate config).sharers requester = true := by
      rw [← DirectoryEntry.mem_getSharersList, only]
      exact List.mem_singleton_self _
    change Link _ _ _ (system.toCache requester)
      (update system.toDirectory requester up requester) at link
    rw [update_self] at link
    obtain ⟨down, sent⟩ := link.undisturbed full sharer
      (by simp [viewOf, System.requested, empty, queuedOf_cons, ShmemReq.new])
      (by simp [viewOf, System.requested, empty, pendingOf, ShmemReq.new,
        ShmemReq.retrieving])
      (by rw [empty]; rfl)
    refine ⟨down, ?_⟩
    rw [found]
    intro mem
    rcases List.mem_cons.mp mem with impossible | later
    · cases impossible
    · exact sent later
  · have shares : (system.allocate config).sharers req.requester = true ∧
        req.requester ≠ core := by
      have mem : req.requester ∈
          (system.allocate config).getSharersList.filter (· ≠ core) := by
        rw [only]
        exact List.mem_singleton_self _
      obtain ⟨mem, different⟩ := List.mem_filter.mp mem
      exact ⟨DirectoryEntry.mem_getSharersList.mp mem, by simpa using different⟩
    obtain ⟨sharer, pending, -, -⟩ := inv.gives_up found (Or.inl rfl)
    have shared := inv.base.entry.shared_of_ne shares.2 shares.1 sharer
    have head := inv.head req rest isHead
    have unwaiting : req.waitForData = false := by
      cases waits : req.waitForData with
      | false => rfl
      | true =>
          have isSh := (inv.waits_of_gives_up isHead sharer pending waits).1
          rw [isUpgrade] at isSh
          cases isSh
    have direct : req.forwardingFrom = none := by
      by_contra forwards
      have isSh := (head.forwarding forwards).1
      rw [isUpgrade] at isSh
      cases isSh
    refine (inv.base.links req.requester).undisturbed full shares.1 ?_ ?_ ?_
    · change queuedOf system.queue req.requester = _
      rw [isHead, queuedOf_cons, if_pos (by simp [isUpgrade]), isUpgrade]
    · change pendingOf system.queue req.requester = _
      rw [isHead, pendingOf]
      simp [ShmemReq.retrieving, unwaiting, direct]
    · change asks (system.allocate config) system.queue req.requester = _
      rw [isHead]
      simp [asks, asksOf, unwaiting, shared, isUpgrade]

/-! ## Runs -/

/-- The directory receives a message of a cache. -/
theorem handleMsgFromL2Cache_handled (inv : Inv config system)
    (ok : config.Ok) {core : Fin n} {random : Nat}
    (steady : Steady config system (.toDirectory core random))
    {msg : ToDirectory Line} {up : List (ToDirectory Line)}
    (found : system.toDirectory core = msg :: up) :
    ∃ next,
      (system.taken core up).handleMsgFromL2Cache config random core msg =
        .ok next ∧
      Handled config system (.toDirectory core random) next := by
  have request : ∀ msgType, msg.reqType = some msgType → ∃ next,
      (system.taken core up).enqueue config random core msgType =
        .ok next ∧
      Handled config system (.toDirectory core random) next :=
    fun msgType isReq => enqueue_moves inv ok random found isReq
      (steady.calm_request found isReq)
  cases msg with
  | exReq => exact request .exReq rfl
  | shReq => exact request .shReq rfl
  | upgradeReq => exact request .upgradeReq rfl
  | invRep =>
      obtain ⟨next, run, moves⟩ := processInvRep_moves inv ok random found
        (steady.calm_invRep found)
      refine ⟨next, run, _, none, .invRep found, ?_⟩
      rcases moves with ⟨rfl, kept⟩ | serves
      · exact Or.inl ⟨rfl, rfl, kept⟩
      · exact Or.inr serves
  | flushRep data => exact processFlushRep_moves inv ok random found
  | wbRep data => exact processWbRep_moves inv ok random found

theorem step_moves (inv : Inv config system) (ok : config.Ok)
    {action : System.Action n Line} (steady : Steady config system action)
    {result : Except Failure (System n Line)}
    (step : system.step config action = some result) :
    ∃ next, result = .ok next ∧ Move config system action next := by
  cases action with
  | access core op =>
      obtain ⟨cache, up, last, run, moves, link⟩ :=
        System.access_link system core system.lastWrite op
          (inv.base.links core)
      rw [← System.eq_withLink] at run
      rw [System.step, run] at step
      exact ⟨_, (Option.some.inj step).symm,
        .cache (Or.inl rfl) moves link rfl⟩
  | evict core =>
      have valid : (system.caches core).cstate = .shared ∨
          (system.caches core).cstate = .exclusive ∨
          (system.caches core).cstate = .modified := by
        rw [System.step] at step
        cases state : (system.caches core).cstate <;> simp [state] at step ⊢
      obtain ⟨cache, up, run, moves, link⟩ :=
        System.evict_link system core system.lastWrite
          (inv.base.links core) valid
      rw [← System.eq_withLink] at run
      refine ⟨_, ?_, .cache (Or.inl rfl) moves link rfl⟩
      rw [← run]
      rw [System.step] at step
      rcases valid with state | state | state <;> rw [state] at step <;>
        exact (Option.some.inj step).symm
  | replace requester random =>
      rw [System.step] at step
      split_ifs at step with possible
      obtain ⟨next, run, handled⟩ := replace_moves inv ok random requester
        possible.1 possible.2
      rw [run] at step
      exact ⟨next, (Option.some.inj step).symm, .directory handled⟩
  | toCache core =>
      rw [System.step] at step
      split at step
      · cases step
      · rename_i msg down found
        have link := inv.base.links core
        rw [found] at link
        obtain ⟨cache, up, last, run, moves, linked⟩ :=
          System.receive_link system core system.lastWrite link
        have popped : { system with
            toCache := update system.toCache core down } =
            system.withLink core (system.caches core) down
              (system.toDirectory core) system.lastWrite := by
          simp [System.withLink]
        rw [popped, run] at step
        rw [← found] at moves
        exact ⟨_, (Option.some.inj step).symm,
          .cache (Or.inr rfl) moves linked rfl⟩
  | toDirectory core random =>
      rw [System.step] at step
      split at step
      · cases step
      · rename_i msg up found
        obtain ⟨next, run, handled⟩ :=
          handleMsgFromL2Cache_handled inv ok steady found
        refine ⟨next, ?_, .directory handled⟩
        rw [← run]
        exact (Option.some.inj step).symm
  | toDram =>
      rw [System.step] at step
      split at step
      · cases step
      · rename_i msg later found
        exact ⟨_, (Option.some.inj step).symm, .dram found rfl⟩
  | fromDram random =>
      rw [System.step] at step
      split at step
      · cases step
      · rename_i data later found
        obtain ⟨next, run, handled⟩ :=
          processDRAMReply_moves inv ok random found
        rw [run] at step
        exact ⟨next, (Option.some.inj step).symm, .directory handled⟩

end ChipletSniper.Coherence
