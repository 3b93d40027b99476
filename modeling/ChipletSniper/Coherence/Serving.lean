import ChipletSniper.Coherence.Invariant

/-!
# Serving the request at the head of the queue

What the directory can do with the request at the head of its queue: it tells
sharers what to do, fetches the data or sends the reply.
-/

namespace ChipletSniper.Coherence

open Function

variable {n : Nat} {Line : Type} {config : Config n}
variable {system : System n Line} {req : ShmemReq n Line}
variable {rest : List (ShmemReq n Line)} {cached : Option (Data Line)}

/-! ## Outcomes -/

/-- The entry when the requester has become a sharer. -/
structure Joins (config : Config n) (entry : DirectoryEntry n)
    (req : ShmemReq n Line) (entry' : DirectoryEntry n) : Prop where
  sharers : entry'.sharers = update entry.sharers req.requester true
  ok : EntryOk entry'
  request : req.msgType ≠ .nullifyReq
  states :
    (entry.dstate = .uncached ∧ req.forwardingFrom = none ∧
      entry'.dstate ≠ .uncached ∧
      (req.msgType = .shReq ↔ entry'.dstate ≠ .modified) ∧
      (config.protocol = .mesif → entry'.dstate ≠ .shared)) ∨
    (entry.dstate = .shared ∧ entry'.dstate = .shared ∧
      req.msgType = .shReq ∧ entry'.forwarder = entry.forwarder)

/-- The results of serving a request. -/
inductive Outcome (config : Config n) (system : System n Line)
    (req : ShmemReq n Line) (cached : Option (Data Line)) :
    System n Line × Bool → Prop
  | asks {msg : Fin n → ToCache Line} {receivers : List (Fin n)} :
      receivers.Nodup →
      (∀ core, core ∈ receivers ↔
        (system.allocate config).sharers core = true ∧
          asksOf (system.allocate config) req core ≠ .nothing) →
      (∀ core ∈ receivers,
        (asksOf (system.allocate config) req core).Allows (msg core)) →
      req.forwardingFrom = none → cached = none →
      HeadOk config (system.allocate config) req →
      Outcome config system req cached
        ((system.setEntry (system.allocate config)).sendEach msg receivers,
          false)
  | surplus {sharer : Fin n} :
      config.maxHwSharers < n →
      (system.allocate config).dstate = .shared →
      (system.allocate config).sharers sharer = true →
      req.msgType = .shReq → req.forwardingFrom = none →
      (system.allocate config).sharers req.requester = false →
      Outcome config system req cached
        ((system.setEntry (system.allocate config)).sendMsg .invReq sharer,
          false)
  | fetch {entry' : DirectoryEntry n} :
      Joins config (system.allocate config) req entry' → cached = none →
      (req.msgType = .upgradeReq → req.dataBuf = none) →
      Outcome config system req cached
        ({ (system.setEntry entry').updateHead fun req =>
            { req with waitForData := true } with
              toDram := system.toDram ++ [.readReq] }, false)
  | forward {entry' : DirectoryEntry n} {forwarder : Fin n} :
      Joins config (system.allocate config) req entry' → cached = none →
      config.protocol = .mesif → req.forwardingFrom = none →
      entry'.dstate = .shared → entry'.forwarder = some forwarder →
      Outcome config system req cached
        (((system.setEntry entry').updateHead fun req =>
          { req with forwardingFrom := some forwarder }).sendMsg .wbReq
            forwarder, false)
  | reply {entry' : DirectoryEntry n} {data : Data Line} :
      Joins config (system.allocate config) req entry' →
      (cached = some data ∨ cached = none ∧ req.msgType = .upgradeReq ∧
        req.dataBuf = some data) →
      Outcome config system req cached
        ((system.setEntry
            { entry' with forwarder := some req.requester }).sendMsg
          (if entry'.dstate = .shared then .shRep data else .exRep data)
          req.requester, true)
  | upgrade :
      req.msgType = .upgradeReq →
      (system.allocate config).dstate = .shared →
      (system.allocate config).getSharersList = [req.requester] →
      Outcome config system req cached
        ((system.setEntry { system.allocate config with
            owner := some req.requester, dstate := .modified }).sendMsg
          .upgradeRep req.requester, true)
  | nullified :
      req.msgType = .nullifyReq →
      (system.allocate config).dstate = .uncached →
      Outcome config system req cached ({ system with entry := none }, true)

/-- The request at the head of the queue is to be served, with data from a
cache or without. -/
structure Ready (config : Config n) (system : System n Line)
    (req : ShmemReq n Line) (rest : List (ShmemReq n Line))
    (cached : Option (Data Line)) : Prop where
  base : Base config system fun _ => .nothing
  forwarder : cached = none → ForwarderOk config (system.allocate config)
  queue : system.queue = req :: rest
  unwaiting : req.waitForData = false
  forwarding : req.forwardingFrom ≠ none → req.msgType = .shReq ∧
    (system.allocate config).dstate = .shared ∧
    (system.allocate config).sharers req.requester = true ∧
    config.protocol = .mesif

/-! ## Sharers -/

namespace DirectoryEntry

variable {entry : DirectoryEntry n}

@[simp]
theorem mem_getSharersList {core : Fin n} :
    core ∈ entry.getSharersList ↔ entry.sharers core = true := by
  simp [getSharersList]

theorem nodup_getSharersList : entry.getSharersList.Nodup :=
  (List.nodup_finRange n).filter _

theorem getNumSharers_lt {core : Fin n}
    (other : entry.sharers core = false) :
    entry.getNumSharers < n := by
  have smaller : entry.getSharersList.length < (List.finRange n).length :=
    List.length_filter_lt_length_iff_exists.mpr
      ⟨core, List.mem_finRange core, by simp [other]⟩
  rwa [List.length_finRange] at smaller

theorem getNumSharers_eq_zero :
    entry.getNumSharers = 0 ↔ ∀ core, entry.sharers core = false := by
  unfold getNumSharers
  rw [List.length_eq_zero_iff, List.eq_nil_iff_forall_not_mem]
  simp

theorem getSharersList_eq_singleton {owner : Fin n}
    (owned : ∀ core, entry.sharers core = true ↔ core = owner) :
    entry.getSharersList = [owner] := by
  refine List.perm_singleton.mp ?_
  refine (List.perm_ext_iff_of_nodup nodup_getSharersList
    (List.nodup_singleton owner)).mpr fun core => ?_
  rw [mem_getSharersList, List.mem_singleton, owned core]

/-- A list of sharers that is not empty and not one cache alone. -/
theorem exists_other {core : Fin n}
    (other : entry.getSharersList ≠ [core])
    (nonempty : entry.getSharersList ≠ []) :
    ∃ sharer, sharer ≠ core ∧ entry.sharers sharer = true := by
  by_contra alone
  push Not at alone
  have only : ∀ sharer ∈ entry.getSharersList, sharer = core := by
    intro sharer mem
    by_contra different
    exact alone sharer different (mem_getSharersList.mp mem)
  obtain ⟨first, rest, same⟩ := List.exists_cons_of_ne_nil nonempty
  refine other (getSharersList_eq_singleton fun sharer => ⟨fun isSharer =>
    only sharer (mem_getSharersList.mpr isSharer), ?_⟩)
  rintro rfl
  have first_mem : first ∈ entry.getSharersList := by simp [same]
  rw [← only first first_mem]
  exact mem_getSharersList.mp first_mem

theorem addSharer_room {core : Fin n} {maxHwSharers : Nat}
    (other : entry.sharers core = false)
    (room : entry.getNumSharers < maxHwSharers) :
    entry.addSharer core maxHwSharers =
      .ok (some { entry with
        sharers := update entry.sharers core true }) := by
  rw [addSharer, check_bind other, if_neg (not_le.mpr room)]
  rfl

theorem addSharer_full {core : Fin n} {maxHwSharers : Nat}
    (other : entry.sharers core = false)
    (full : maxHwSharers ≤ entry.getNumSharers) :
    entry.addSharer core maxHwSharers = .ok none := by
  rw [addSharer, check_bind other, if_pos full]
  rfl

theorem setOwner_of_sharer {core : Fin n}
    (sharer : entry.sharers core = true) :
    entry.setOwner core = .ok { entry with owner := some core } := by
  rw [setOwner, check_bind sharer]
  rfl

end DirectoryEntry

/-! ## Facts about a request that is to be served -/

theorem Link.not_sharer {limited : Prop} {view : View} {cache : Llc Line}
    {down : List (ToCache Line)} {up : List (ToDirectory Line)}
    (link : Link limited view cache down up) {msgType : ReqType}
    (queued : view.queued = some msgType) (other : msgType ≠ .upgradeReq)
    (pending : view.pending = false) :
    view.sharer = false := by
  have notUpgrade : view.queued ≠ some .upgradeReq := by
    rw [queued]
    exact fun same => other (Option.some.inj same)
  have notNone : view.queued ≠ none := by
    rw [queued]
    exact Option.some_ne_none msgType
  cases link with
  | absent sharer => exact sharer
  | pending _ impossible => simp [pending] at impossible
  | granted _ _ _ impossible => exact absurd impossible notNone
  | held _ _ _ _ _ _ _ tokens =>
      rcases tokens with ⟨-, ⟨-, impossible⟩ | ⟨-, impossible⟩, -⟩ |
        ⟨-, -, impossible, -⟩
      · exact absurd impossible notNone
      · exact absurd impossible notUpgrade
      · exact absurd impossible notNone
  | left _ _ _ _ _ _ _ _ leaving =>
      rcases leaving with ⟨⟨⟨-, impossible⟩ | ⟨-, impossible⟩, -⟩, -⟩ |
        ⟨-, impossible, -⟩
      · exact absurd impossible notNone
      · exact absurd impossible notUpgrade
      · exact absurd impossible notNone

namespace Ready

theorem queued (ready : Ready config system req rest cached)
    (isRequest : req.msgType ≠ .nullifyReq) :
    queuedOf system.queue req.requester = some req.msgType := by
  rw [ready.queue, queuedOf_cons, if_pos ⟨isRequest, rfl⟩]

theorem pending (ready : Ready config system req rest cached) (core : Fin n)
    (direct : req.forwardingFrom = none) :
    pendingOf system.queue core = false := by
  rw [ready.queue, pendingOf]
  simp [ShmemReq.retrieving, ready.unwaiting, direct]

theorem not_sharer (ready : Ready config system req rest cached)
    (isRequest : req.msgType ≠ .nullifyReq)
    (other : req.msgType ≠ .upgradeReq)
    (direct : req.forwardingFrom = none) :
    (system.allocate config).sharers req.requester = false :=
  (ready.base.links req.requester).not_sharer (ready.queued isRequest) other
    (ready.pending _ direct)

theorem direct (ready : Ready config system req rest cached)
    (other : req.msgType ≠ .shReq) :
    req.forwardingFrom = none := by
  by_contra forwarding
  exact other (ready.forwarding forwarding).1

end Ready

@[simp]
theorem setEntry_setEntry (system : System n Line)
    (entry entry' : DirectoryEntry n) :
    (system.setEntry entry).setEntry entry' = system.setEntry entry' :=
  rfl

@[simp]
theorem allocate_setEntry (system : System n Line)
    (entry : DirectoryEntry n) :
    (system.setEntry entry).allocate config = entry :=
  rfl

@[simp]
theorem queue_setEntry (system : System n Line)
    (entry : DirectoryEntry n) :
    (system.setEntry entry).queue = system.queue :=
  rfl

/-! ## The functions of the directory -/

/-- The requester is a sharer, and the reply needs the data. -/
theorem retrieve_outcome (ready : Ready config system req rest cached)
    {entry' : DirectoryEntry n}
    (joins : Joins config (system.allocate config) req entry')
    {reply : Data Line → ToCache Line}
    (kind : ∀ data, reply data =
      if entry'.dstate = .shared then .shRep data else .exRep data)
    {source : Option (Data Line)}
    (known : ∀ data, source = some data → cached = some data ∨
      cached = none ∧ req.msgType = .upgradeReq ∧ req.dataBuf = some data)
    (unknown : source = none → cached = none ∧
      (req.msgType = .upgradeReq → req.dataBuf = none)) :
    ∃ result,
      System.retrieveDataAndSendToL2Cache config (system.setEntry entry')
        reply req.requester source = .ok result ∧
      Outcome config system req cached result := by
  unfold System.retrieveDataAndSendToL2Cache
  cases source with
  | some data =>
      refine ⟨_, rfl, ?_⟩
      rw [kind data, setEntry_setEntry]
      exact .reply joins (known data rfl)
  | none =>
      obtain ⟨noData, noBuffer⟩ := unknown rfl
      have queue : (system.setEntry entry').queue = req :: rest := ready.queue
      have entry : (system.setEntry entry').entry = some entry' := rfl
      rw [queue, entry]
      dsimp only
      cases found : entry'.forwarder with
      | none => exact ⟨_, rfl, .fetch joins noData noBuffer⟩
      | some forwarder =>
          dsimp only
          split_ifs with forwards
          · obtain ⟨mesif, direct, shared⟩ := forwards
            exact ⟨_, rfl, .forward joins noData mesif direct shared found⟩
          · exact ⟨_, rfl, .fetch joins noData noBuffer⟩

/-- A request that needs the line for itself alone, at an entry without
sharers. -/
theorem joins_exclusive (ready : Ready config system req rest cached)
    (ok : config.Ok)
    (uncached : (system.allocate config).dstate = .uncached)
    (isRequest : req.msgType ≠ .nullifyReq) {dstate : DirectoryState}
    (allowed : dstate = .exclusive ∨ dstate = .modified ∨
      (dstate = .shared ∧ config.protocol = .msi))
    (kind : req.msgType = .shReq ↔ dstate ≠ .modified) :
    (system.allocate config).addSharer req.requester config.maxHwSharers =
      .ok (some { system.allocate config with
        sharers := update (system.allocate config).sharers
          req.requester true }) ∧
    Joins config (system.allocate config) req
      { system.allocate config with
        sharers := update (system.allocate config).sharers
          req.requester true
        owner := some req.requester, dstate := dstate } := by
  have none := ready.base.entry.uncached.mp uncached
  have direct : req.forwardingFrom = .none := by
    by_contra forwarding
    have shared := (ready.forwarding forwarding).2.1
    rw [uncached] at shared
    cases shared
  constructor
  · refine DirectoryEntry.addSharer_room (none req.requester) ?_
    rw [DirectoryEntry.getNumSharers_eq_zero.mpr none]
    exact ok.room
  · have only : ∀ core,
        update (system.allocate config).sharers req.requester true
          core = true ↔ core = req.requester := by
      intro core
      by_cases same : core = req.requester
      · simp [same]
      · simp [none core, same]
    refine ⟨rfl, ⟨⟨?_, ?_⟩, fun _ => ⟨req.requester, rfl, only⟩⟩,
      isRequest, Or.inl ⟨uncached, direct, ?_, kind, ?_⟩⟩
    · rintro rfl
      simp at allowed
    · intro empty
      have := empty req.requester
      simp at this
    · rcases allowed with rfl | rfl | ⟨rfl, -⟩ <;> simp
    · rintro mesif
      rcases allowed with rfl | rfl | ⟨-, msi⟩
      · simp
      · simp
      · rw [mesif] at msi
        cases msi

/-- Telling the owner. -/
theorem sendToOwner_outcome (ready : Ready config system req rest cached)
    (owned : (system.allocate config).dstate = .exclusive ∨
      (system.allocate config).dstate = .modified)
    (direct : req.forwardingFrom = none) (noData : cached = none)
    (head : HeadOk config (system.allocate config) req) {msg : ToCache Line}
    (allows : Asked.Allows
      (if req.msgType = .shReq then .writeBack else .flush) msg) :
    ∃ result,
      (system.setEntry (system.allocate config)).sendToOwner
        (system.allocate config) msg = .ok result ∧
      Outcome config system req cached result := by
  obtain ⟨owner, found, only⟩ := ready.base.entry.owned owned
  have asked : asksOf (system.allocate config) req = fun _ =>
      if req.msgType = .shReq then .writeBack else .flush := by
    funext core
    rcases owned with same | same <;>
      simp [asksOf, ready.unwaiting, same]
  refine ⟨_, by rw [System.sendToOwner, found], ?_⟩
  have one : (system.setEntry (system.allocate config)).sendMsg msg owner =
      (system.setEntry (system.allocate config)).sendEach (fun _ => msg)
        [owner] :=
    rfl
  rw [one]
  refine .asks (List.nodup_singleton owner) ?_ (fun core _ => ?_) direct
    noData head
  · intro core
    rw [List.mem_singleton, only core, asked]
    have told : (if req.msgType = .shReq then Asked.writeBack
        else Asked.flush) ≠ .nothing := by
      split_ifs <;> simp
    simp [told]
  · rw [asked]
    exact allows

/-- Telling all sharers to invalidate the line. -/
theorem sendEach_outcome (ready : Ready config system req rest cached)
    (shared : (system.allocate config).dstate = .shared)
    (kind : req.msgType = .exReq ∨ req.msgType = .nullifyReq)
    (direct : req.forwardingFrom = none) (noData : cached = none)
    (head : HeadOk config (system.allocate config) req) :
    Outcome config system req cached
      ((system.setEntry (system.allocate config)).sendEach
        (fun _ => .invReq) (system.allocate config).getSharersList,
          false) := by
  have asked : asksOf (system.allocate config) req = fun _ =>
      .invalidate false := by
    funext core
    rcases kind with same | same <;>
      simp [asksOf, ready.unwaiting, shared, same]
  refine .asks DirectoryEntry.nodup_getSharersList ?_ ?_ direct noData head
  · intro core
    rw [DirectoryEntry.mem_getSharersList, asked]
    simp
  · intro core _
    rw [asked]
    trivial

theorem processExReq_outcome (ready : Ready config system req rest cached)
    (ok : config.Ok) (isEx : req.msgType = .exReq)
    (data : cached = none ∨ (system.allocate config).dstate = .uncached) :
    ∃ result,
      system.processExReqFromL2Cache config req.requester cached =
        .ok result ∧
      Outcome config system req cached result := by
  have direct := ready.direct (by simp [isEx])
  have notSharer := ready.not_sharer (by simp [isEx]) (by simp [isEx]) direct
  have head : (system.allocate config).dstate ≠ .uncached →
      HeadOk config (system.allocate config) req := by
    refine fun cached => ⟨cached, fun other => absurd direct other,
      fun waits => ?_, fun _ => ?_⟩
    · rw [ready.unwaiting] at waits
      cases waits
    · rw [isEx]
      exact notSharer
  unfold System.processExReqFromL2Cache
  have noData : (system.allocate config).dstate ≠ .uncached →
      cached = none :=
    data.resolve_right
  dsimp only
  cases state : (system.allocate config).dstate with
  | exclusive =>
      dsimp only
      rw [check_bind (by simp [noData, state])]
      exact sendToOwner_outcome ready (Or.inl state) direct
        (noData (by simp [state])) (head (by simp [state]))
        (by simp [isEx, Asked.Allows])
  | modified =>
      dsimp only
      rw [check_bind (by simp [noData, state])]
      exact sendToOwner_outcome ready (Or.inr state) direct
        (noData (by simp [state])) (head (by simp [state]))
        (by simp [isEx, Asked.Allows])
  | shared =>
      dsimp only
      rw [check_bind (by simp [noData, state])]
      exact ⟨_, rfl, sendEach_outcome ready state (Or.inl isEx) direct
        (noData (by simp [state])) (head (by simp [state]))⟩
  | uncached =>
      obtain ⟨added, joins⟩ := joins_exclusive ready ok state
        (by simp [isEx]) (Or.inr (Or.inl rfl)) (by simp [isEx])
      dsimp only
      rw [added]
      simp only [bind, Except.bind]
      rw [DirectoryEntry.setOwner_of_sharer (by simp)]
      simp only [setEntry_setEntry]
      refine retrieve_outcome ready joins (fun data => by simp)
        (fun data same => Or.inl same) fun same => ⟨same, by simp [isEx]⟩

theorem processNullifyReq_outcome (ready : Ready config system req rest none)
    (isNullify : req.msgType = .nullifyReq)
    (entry : system.entry.isSome = true) :
    ∃ result,
      system.processNullifyReq = .ok result ∧
      Outcome config system req none result := by
  obtain ⟨old, found⟩ := Option.isSome_iff_exists.mp entry
  have same : system.allocate config = old := by
    rw [System.allocate, found]
    rfl
  have noChange : system.setEntry (system.allocate config) = system := by
    rw [same, System.setEntry, ← found]
  have direct := ready.direct (by simp [isNullify])
  have head : (system.allocate config).dstate ≠ .uncached →
      HeadOk config (system.allocate config) req := by
    refine fun cached => ⟨cached, fun other => absurd direct other,
      fun waits => ?_, fun _ => ?_⟩
    · rw [ready.unwaiting] at waits
      cases waits
    · rw [isNullify]
      trivial
  unfold System.processNullifyReq
  rw [found]
  dsimp only
  rw [← same]
  cases state : (system.allocate config).dstate with
  | exclusive =>
      have outcome := sendToOwner_outcome ready (Or.inl state) direct rfl
        (head (by simp [state]))
        (show Asked.Allows _ ToCache.flushReq by
          simp [isNullify, Asked.Allows])
      rwa [noChange] at outcome
  | modified =>
      have outcome := sendToOwner_outcome ready (Or.inr state) direct rfl
        (head (by simp [state]))
        (show Asked.Allows _ ToCache.flushReq by
          simp [isNullify, Asked.Allows])
      rwa [noChange] at outcome
  | shared =>
      refine ⟨_, rfl, ?_⟩
      have outcome := sendEach_outcome ready state (Or.inr isNullify)
        direct rfl (head (by simp [state]))
      rwa [noChange] at outcome
  | uncached => exact ⟨_, rfl, .nullified isNullify state⟩

theorem processShReq_outcome (ready : Ready config system req rest cached)
    (ok : config.Ok) (random : Nat) (isSh : req.msgType = .shReq)
    (data : cached = none ∨ (system.allocate config).dstate = .uncached ∨
      (system.allocate config).dstate = .shared) :
    ∃ result,
      system.processShReqFromL2Cache config random req.requester cached =
        .ok result ∧
      Outcome config system req cached result := by
  have owned : (system.allocate config).dstate ≠ .shared →
      (system.allocate config).dstate ≠ .uncached → cached = none ∧
      req.forwardingFrom = none ∧
      (system.allocate config).sharers req.requester = false := by
    intro notShared notUncached
    have direct : req.forwardingFrom = none := by
      by_contra forwarding
      exact notShared (ready.forwarding forwarding).2.1
    refine ⟨?_, direct,
      ready.not_sharer (by simp [isSh]) (by simp [isSh]) direct⟩
    rcases data with rfl | uncached | shared
    · rfl
    · exact absurd uncached notUncached
    · exact absurd shared notShared
  have head : (system.allocate config).dstate ≠ .shared →
      (system.allocate config).dstate ≠ .uncached →
      HeadOk config (system.allocate config) req := by
    intro notShared notUncached
    obtain ⟨-, direct, notSharer⟩ := owned notShared notUncached
    refine ⟨notUncached, fun other => absurd direct other,
      fun waits => ?_, fun _ => ?_⟩
    · rw [ready.unwaiting] at waits
      cases waits
    · rw [isSh]
      exact ⟨fun _ => notSharer, fun shared => absurd shared notShared⟩
  have alone : ∀ {dstate : DirectoryState} {reply : Data Line →
        ToCache Line}, dstate = .exclusive ∨ dstate = .modified ∨
        (dstate = .shared ∧ config.protocol = .msi) → dstate ≠ .modified →
      (∀ data, reply data =
        if dstate = .shared then .shRep data else .exRep data) →
      (system.allocate config).dstate = .uncached →
      ∃ result,
        System.retrieveDataAndSendToL2Cache config
          (system.setEntry { system.allocate config with
            sharers := update (system.allocate config).sharers
              req.requester true
            owner := some req.requester, dstate := dstate }) reply
          req.requester cached = .ok result ∧
        Outcome config system req cached result := by
    intro dstate reply allowed notModified kind state
    exact retrieve_outcome ready
      (joins_exclusive ready ok state (by simp [isSh]) allowed
        (by simp [isSh, notModified])).2 kind (fun data same => Or.inl same)
      fun same => ⟨same, by simp [isSh]⟩
  unfold System.processShReqFromL2Cache
  dsimp only
  cases state : (system.allocate config).dstate with
  | exclusive =>
      obtain ⟨noData, direct, notSharer⟩ :=
        owned (by simp [state]) (by simp [state])
      have notOwner : (system.allocate config).owner ≠
          some req.requester := by
        intro same
        obtain ⟨owner, found, only⟩ :=
          ready.base.entry.owned (Or.inl state)
        obtain rfl := Option.some.inj (same.symm.trans found)
        rw [(only req.requester).mpr rfl] at notSharer
        cases notSharer
      dsimp only
      rw [check_bind notOwner, check_bind (by simp [noData])]
      exact sendToOwner_outcome ready (Or.inl state) direct noData
        (head (by simp [state]) (by simp [state]))
        (by simp [isSh, Asked.Allows])
  | modified =>
      obtain ⟨noData, direct, -⟩ :=
        owned (by simp [state]) (by simp [state])
      dsimp only
      rw [check_bind (by simp [noData])]
      exact sendToOwner_outcome ready (Or.inr state) direct noData
        (head (by simp [state]) (by simp [state]))
        (by simp [isSh, Asked.Allows])
  | shared =>
      dsimp only
      by_cases sharer : (system.allocate config).sharers req.requester = true
      · rw [if_pos sharer]
        refine retrieve_outcome ready
          ⟨?_, ready.base.entry, by simp [isSh],
            Or.inr ⟨state, state, isSh, rfl⟩⟩
          (fun data => by simp [state]) (fun data same => Or.inl same)
          fun same => ⟨same, by simp [isSh]⟩
        rw [← sharer, update_eq_self]
      · rw [if_neg sharer]
        have notSharer : (system.allocate config).sharers req.requester =
            false := by simpa using sharer
        have direct : req.forwardingFrom = none := by
          by_contra forwarding
          exact sharer (ready.forwarding forwarding).2.2.1
        by_cases room : (system.allocate config).getNumSharers <
            config.maxHwSharers
        · rw [DirectoryEntry.addSharer_room notSharer room]
          simp only [bind, Except.bind, setEntry_setEntry]
          refine retrieve_outcome ready ?_ (fun data => by simp [state])
            (fun data same => Or.inl same) fun same => ⟨same, by simp [isSh]⟩
          refine ⟨rfl, ⟨⟨?_, ?_⟩, ?_⟩, by simp [isSh],
            Or.inr ⟨state, state, isSh, rfl⟩⟩
          · intro uncached
            simp [state] at uncached
          · intro empty
            have := empty req.requester
            simp at this
          · intro impossible
            simp [state] at impossible
        · have full : config.maxHwSharers ≤
              (system.allocate config).getNumSharers := not_lt.mp room
          have limited : config.maxHwSharers < n :=
            full.trans_lt (DirectoryEntry.getNumSharers_lt notSharer)
          have some : 0 < (system.allocate config).getNumSharers :=
            lt_of_lt_of_le ok.room full
          rw [DirectoryEntry.addSharer_full notSharer full]
          simp only [bind, Except.bind]
          have inside : random % (system.allocate config).getNumSharers <
              (system.allocate config).getSharersList.length :=
            Nat.mod_lt random some
          rw [DirectoryEntry.getOneSharer, List.getElem?_eq_getElem inside]
          refine ⟨_, rfl, .surplus limited state ?_ isSh direct notSharer⟩
          exact DirectoryEntry.mem_getSharersList.mp (List.getElem_mem inside)
  | uncached =>
      obtain ⟨added, -⟩ := joins_exclusive ready ok state (by simp [isSh])
        (Or.inl rfl) (by simp [isSh])
      dsimp only
      rw [added]
      simp only [bind, Except.bind]
      rw [DirectoryEntry.setOwner_of_sharer (by simp)]
      simp only [setEntry_setEntry]
      by_cases msi : config.protocol = .msi
      · rw [if_pos msi]
        exact alone (Or.inr (Or.inr ⟨rfl, msi⟩)) (by simp)
          (fun data => by simp) state
      · rw [if_neg msi]
        exact alone (Or.inl rfl) (by simp) (fun data => by simp) state

/-- A cache that waits for an upgrade of a line that is not shared has lost its
copy. -/
theorem Link.upgrade_not_sharer {limited : Prop} {view : View}
    {cache : Llc Line} {down : List (ToCache Line)}
    {up : List (ToDirectory Line)}
    (link : Link limited view cache down up)
    (queued : view.queued = some .upgradeReq)
    (pending : view.pending = false) (idle : view.asked = .nothing)
    (notShared : view.dstate ≠ .shared) :
    view.sharer = false := by
  have notNone : view.queued ≠ none := by
    rw [queued]
    exact Option.some_ne_none _
  cases link with
  | absent sharer => exact sharer
  | pending _ impossible => simp [pending] at impossible
  | granted _ _ _ impossible => exact absurd impossible notNone
  | @held _ _ answered upgrade _ _ _ copy _ _ answers tokens =>
      exfalso
      rcases tokens with ⟨upgrading, -⟩ | ⟨-, -, impossible, -⟩
      · rw [upgrading] at copy
        rcases copy.upgrading with answered | shared
        · have told := answers answered
          rw [idle] at told
          cases told
        · exact notShared shared
      · exact notNone impossible
  | left _ _ _ _ _ _ _ _ leaving =>
      exfalso
      rcases leaving with ⟨-, -, -, shared, -⟩ | ⟨-, impossible, -⟩
      · exact notShared shared
      · exact notNone impossible

theorem processUpgradeReq_outcome (ready : Ready config system req rest cached)
    (ok : config.Ok) (isUpgrade : req.msgType = .upgradeReq)
    (data : cached = none ∨ (system.allocate config).dstate = .uncached) :
    ∃ result,
      system.processUpgradeReqFromL2Cache config req.requester cached =
        .ok result ∧
      Outcome config system req cached result := by
  have direct := ready.direct (by simp [isUpgrade])
  have isRequest : req.msgType ≠ .nullifyReq := by simp [isUpgrade]
  have notSharer : (system.allocate config).dstate ≠ .shared →
      (system.allocate config).sharers req.requester = false := by
    intro notShared
    refine (ready.base.links req.requester).upgrade_not_sharer ?_
      (ready.pending _ direct) rfl notShared
    rw [← isUpgrade]
    exact ready.queued isRequest
  have owned : (system.allocate config).dstate = .exclusive ∨
      (system.allocate config).dstate = .modified →
      ∃ result,
        system.processUpgradeReqFromL2Cache config req.requester cached =
          .ok result ∧
        Outcome config system req cached result := by
    intro states
    have notShared : (system.allocate config).dstate ≠ .shared := by
      rcases states with same | same <;> simp [same]
    have notUncached : (system.allocate config).dstate ≠ .uncached := by
      rcases states with same | same <;> simp [same]
    obtain ⟨owner, found, only⟩ := ready.base.entry.owned states
    have other : owner ≠ req.requester := by
      rintro rfl
      have impossible := notSharer notShared
      rw [(only req.requester).mpr rfl] at impossible
      cases impossible
    have sent : system.processUpgradeReqFromL2Cache config req.requester
          cached =
        (system.setEntry (system.allocate config)).sendToOwner
          (system.allocate config) .flushReq := by
      unfold System.processUpgradeReqFromL2Cache
      dsimp only
      rw [DirectoryEntry.getSharersList_eq_singleton only]
      rcases states with same | same <;> simp only [same, if_neg other]
    rw [sent]
    refine sendToOwner_outcome ready states direct
      (data.resolve_right notUncached) ?_ (by simp [isUpgrade, Asked.Allows])
    refine ⟨notUncached, fun forwards => absurd direct forwards,
      fun waits => ?_, fun _ => ?_⟩
    · rw [ready.unwaiting] at waits
      cases waits
    · rw [isUpgrade]
      exact ⟨fun shared => absurd shared notShared, fun _ =>
        notSharer notShared⟩
  by_cases states : (system.allocate config).dstate = .exclusive ∨
      (system.allocate config).dstate = .modified
  · exact owned states
  unfold System.processUpgradeReqFromL2Cache
  dsimp only
  cases state : (system.allocate config).dstate with
  | exclusive => exact absurd (Or.inl state) states
  | modified => exact absurd (Or.inr state) states
  | shared =>
      dsimp only
      by_cases only : (system.allocate config).getSharersList =
          [req.requester]
      · have sharer : (system.allocate config).sharers req.requester =
            true := by
          rw [← DirectoryEntry.mem_getSharersList, only]
          exact List.mem_singleton_self _
        rw [if_pos only, DirectoryEntry.setOwner_of_sharer sharer]
        exact ⟨_, rfl, .upgrade isUpgrade state only⟩
      · rw [if_neg only]
        refine ⟨_, rfl, .asks
          (DirectoryEntry.nodup_getSharersList.filter _) ?_ ?_ direct
          (data.resolve_right (by simp [state])) ?_⟩
        · intro core
          simp [asksOf, ready.unwaiting, state, isUpgrade]
        · intro core mem
          have other : core ≠ req.requester := by
            simpa using (List.mem_filter.mp mem).2
          have asked : asksOf (system.allocate config) req core =
              .invalidate
                !(system.allocate config).sharers req.requester := by
            simp [asksOf, ready.unwaiting, state, isUpgrade, other]
          rw [asked, System.upgradeMsg]
          split_ifs with first
          · simp [Asked.Allows, first.1]
          · trivial
        · refine ⟨by simp [state], fun forwards => absurd direct forwards,
            fun waits => ?_, fun _ => ?_⟩
          · rw [ready.unwaiting] at waits
            cases waits
          · rw [isUpgrade]
            refine ⟨fun _ => ?_, fun other => absurd state other⟩
            refine DirectoryEntry.exists_other only ?_
            intro empty
            have uncached := ready.base.entry.uncached.mpr fun core => by
              simpa using mt DirectoryEntry.mem_getSharersList.mpr
                (by simp [empty])
            rw [state] at uncached
            cases uncached
  | uncached =>
      have none := ready.base.entry.uncached.mp state
      obtain ⟨added, joins⟩ := joins_exclusive ready ok state isRequest
        (Or.inr (Or.inl rfl)) (by simp [isUpgrade])
      dsimp only
      rw [check_bind (List.eq_nil_iff_forall_not_mem.mpr fun core => by
        simp [none core]), added]
      simp only [bind, Except.bind]
      rw [DirectoryEntry.setOwner_of_sharer (by simp)]
      simp only [setEntry_setEntry, queue_setEntry, ready.queue,
        List.head?_cons, Option.bind_some]
      refine retrieve_outcome ready joins (fun data => by simp) ?_ ?_
      · intro data same
        cases cached with
        | some given => exact Or.inl same
        | none => exact Or.inr ⟨rfl, isUpgrade, same⟩
      · intro same
        cases cached with
        | some given => cases same
        | none => exact ⟨rfl, fun _ => same⟩

/-- A request that comes to the head of the queue. -/
theorem serve_outcome (ready : Ready config system req rest none)
    (ok : config.Ok) (random : Nat)
    (isRequest : req.msgType ≠ .nullifyReq) :
    ∃ result,
      system.serve config random req = .ok result ∧
      Outcome config system req none result := by
  unfold System.serve
  cases kind : req.msgType with
  | exReq => exact processExReq_outcome ready ok kind (Or.inl rfl)
  | shReq => exact processShReq_outcome ready ok random kind (Or.inl rfl)
  | upgradeReq => exact processUpgradeReq_outcome ready ok kind (Or.inl rfl)
  | nullifyReq => exact absurd kind isRequest

end ChipletSniper.Coherence
