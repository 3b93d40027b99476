import ChipletSniper.Coherence.Transactions

/-!
# The messages that the directory receives

A message changes the entry or the queue of the directory.  The request at the
head of the queue then goes on waiting, or it is served.
-/

namespace ChipletSniper.Coherence

open Function

variable {n : Nat} {Line : Type} {config : Config n}
variable {system next : System n Line} {req : ShmemReq n Line}
variable {rest : List (ShmemReq n Line)}

/-! ## Links -/

section Link

variable {limited : Prop} {view : View} {cache : Llc Line}
variable {down : List (ToCache Line)} {up : List (ToDirectory Line)}

theorem Link.pending_of_not_sharer (link : Link limited view cache down up)
    (sharer : view.sharer = false) :
    view.pending = false := by
  cases link with
  | absent _ pending => exact pending
  | pending other => simp [sharer] at other
  | granted other => simp [sharer] at other
  | held other => simp [sharer] at other
  | left other => simp [sharer] at other

/-- What a sharer has been told, if the requester loses its copy. -/
def Asked.Weakens (asked asked' : Asked) : Prop :=
  asked' = asked ∨
    asked = .invalidate false ∧ asked' = .invalidate true

theorem Live.weaken {asked' : Asked} {answered : Bool}
    (live : Live limited view answered down)
    (told : view.asked = .invalidate false)
    (told' : asked' = .invalidate true) :
    Live limited { view with asked := asked' } answered down := by
  obtain ⟨extra, rest, same, surplus, kept⟩ := live
  refine ⟨extra, rest, same, surplus, ?_⟩
  rcases kept with ⟨empty, answered | impossible⟩ |
    ⟨unanswered, msg, one, allows⟩
  · exact Or.inl ⟨empty, Or.inl answered⟩
  · rw [told] at impossible
    cases impossible
  · refine Or.inr ⟨unanswered, msg, one, ?_⟩
    rw [told] at allows
    change Asked.Allows asked' msg
    rw [told']
    cases msg with
    | invReq => trivial
    | flushReq => rfl
    | exRep | shRep | upgradeRep | wbReq => exact allows.elim

theorem Link.weaken {asked' : Asked} (link : Link limited view cache down up)
    (weakens : view.asked.Weakens asked') :
    Link limited { view with asked := asked' } cache down up := by
  rcases weakens with rfl | ⟨told, told'⟩
  · exact link
  have notAnswered : ∀ {answered : Bool},
      (answered = true → view.asked = .writeBack) → answered = false := by
    intro answered answers
    cases answered with
    | false => rfl
    | true => simp [told] at answers
  have consistent' : view.Consistent limited →
      View.Consistent limited { view with asked := asked' } := by
    intro consistent
    exact ⟨consistent.cached, by simp [told'],
      fun _ _ => consistent.invalidate false told, by simp [told']⟩
  cases link with
  | absent sharer pending cstate ignored requesting =>
      exact .absent sharer pending cstate ignored requesting
  | pending sharer pending consistent cstate ignored asked =>
      rw [told] at asked
      cases asked
  | granted sharer pending consistent queued ignored granted live =>
      exact .granted sharer pending (consistent' consistent) queued ignored
        granted (live.weaken told told')
  | held sharer pending consistent copy live sent answers tokens =>
      obtain rfl := notAnswered answers
      exact .held sharer pending (consistent' consistent) copy
        (live.weaken told told') sent nofun tokens
  | @left _ before after answered upgrade removal sharer pending consistent
      cstate ignored sent removes answers leaving =>
      obtain rfl := notAnswered answers
      refine .left sharer pending (consistent' consistent) cstate ignored sent
        ?_ nofun ?_
      · cases removal with
        | invRep => exact removes
        | flushRep => exact ⟨rfl, fun _ => told'⟩
        | exReq | shReq | upgradeReq | wbRep => exact removes.elim
      · rcases leaving with ⟨token, empty, answered, shared, -⟩ | other
        · exact Or.inl ⟨token, empty, answered, shared,
            Or.inr ⟨true, told'⟩⟩
        · exact Or.inr other

end Link

/-! ## A sharer is removed -/

namespace DirectoryEntry

/-- The entry without a sharer. -/
def without (entry : DirectoryEntry n) (core : Fin n)
    (owner forwarder : Option (Fin n)) : DirectoryEntry n :=
  let left : DirectoryEntry n :=
    ⟨entry.dstate, update entry.sharers core false, owner, forwarder⟩
  if left.getNumSharers = 0 then { left with dstate := .uncached } else left

section Without

variable {entry : DirectoryEntry n} {core : Fin n}
variable {owner forwarder : Option (Fin n)}

theorem without_sharers :
    (entry.without core owner forwarder).sharers =
      update entry.sharers core false := by
  unfold without
  dsimp only
  split_ifs <;> rfl

theorem without_forwarder :
    (entry.without core owner forwarder).forwarder = forwarder := by
  unfold without
  dsimp only
  split_ifs <;> rfl

theorem without_self :
    (entry.without core owner forwarder).sharers core = false := by
  rw [without_sharers, update_self]

theorem without_of_ne {other : Fin n} (different : other ≠ core) :
    (entry.without core owner forwarder).sharers other =
      entry.sharers other := by
  rw [without_sharers, update_of_ne different]

/-- The removed sharer was the only one. -/
theorem without_last (owner forwarder : Option (Fin n))
    (alone : ∀ other, other ≠ core → entry.sharers other = false) :
    (entry.without core owner forwarder).dstate = .uncached := by
  unfold without
  dsimp only
  rw [if_pos]
  refine getNumSharers_eq_zero.mpr fun other => ?_
  by_cases same : other = core
  · simp [same]
  · simp [same, alone other same]

theorem without_dstate (owner forwarder : Option (Fin n)) {other : Fin n}
    (different : other ≠ core)
    (sharer : entry.sharers other = true) :
    (entry.without core owner forwarder).dstate = entry.dstate := by
  unfold without
  dsimp only
  rw [if_neg]
  intro empty
  have impossible := getNumSharers_eq_zero.mp empty other
  simp [different, sharer] at impossible

theorem without_num :
    (entry.without core owner forwarder).getNumSharers = 0 ↔
      ∀ other, other ≠ core → entry.sharers other = false := by
  rw [getNumSharers_eq_zero, without_sharers]
  constructor
  · intro empty other different
    have := empty other
    rwa [update_of_ne different] at this
  · intro alone other
    by_cases same : other = core
    · simp [same]
    · simp [same, alone other same]

end Without

end DirectoryEntry

theorem EntryOk.without {entry : DirectoryEntry n} {core : Fin n}
    {owner forwarder : Option (Fin n)} (ok : EntryOk entry)
    (sharer : entry.sharers core = true) :
    EntryOk (entry.without core owner forwarder) := by
  by_cases alone : ∀ other, other ≠ core → entry.sharers other = false
  · have uncached := DirectoryEntry.without_last owner forwarder alone
    refine ⟨⟨fun _ other => ?_, fun _ => uncached⟩, fun impossible => ?_⟩
    · by_cases same : other = core
      · rw [same, DirectoryEntry.without_self]
      · rw [DirectoryEntry.without_of_ne same, alone other same]
    · simp [uncached] at impossible
  · push Not at alone
    obtain ⟨other, different, shares⟩ := alone
    have isSharer : entry.sharers other = true := by simpa using shares
    have same := DirectoryEntry.without_dstate owner forwarder different
      isSharer
    refine ⟨⟨fun uncached => ?_, fun empty => ?_⟩, fun owned => ?_⟩
    · rw [same] at uncached
      have impossible := ok.uncached.mp uncached core
      rw [sharer] at impossible
      cases impossible
    · have impossible := empty other
      rw [DirectoryEntry.without_of_ne different, isSharer] at impossible
      cases impossible
    · rw [same] at owned
      obtain ⟨one, -, only⟩ := ok.owned owned
      exact absurd (((only other).mp isSharer).trans
        ((only core).mp sharer).symm) different

/-- The directory has taken a message of a cache. -/
def System.taken (system : System n Line) (core : Fin n)
    (up : List (ToDirectory Line)) : System n Line :=
  { system with toDirectory := update system.toDirectory core up }

section Removal

variable {core : Fin n} {removal : ToDirectory Line}
variable {up : List (ToDirectory Line)} {owner forwarder : Option (Fin n)}

theorem entry_of_sharer
    (sharer : (system.allocate config).sharers core = true) :
    system.entry = some (system.allocate config) := by
  cases found : system.entry with
  | some entry => simp [System.allocate, found]
  | none =>
      rw [System.allocate, found] at sharer
      cases sharer

/-- What the directory knows about a cache that gives up its copy. -/
theorem Inv.gives_up (inv : Inv config system)
    (found : system.toDirectory core = removal :: up)
    (isRemoval : removal = .invRep ∨ ∃ data, removal = .flushRep data) :
    (system.allocate config).sharers core = true ∧
      pendingOf system.queue core = false ∧
      (system.allocate config).dstate ≠ .uncached ∧
      Removal (viewOf (system.allocate config) system.queue
        (asks (system.allocate config) system.queue) core) false removal := by
  have link := inv.base.links core
  rw [found] at link
  obtain ⟨sharer, pending, consistent, removes, -⟩ :=
    link.receiveRemoval isRemoval
  exact ⟨sharer, pending, consistent.cached, removes⟩

/-- The directory without the cache, as long as the other sharers have been
told nothing new. -/
theorem Inv.base_without (inv : Inv config system)
    (found : system.toDirectory core = removal :: up)
    (isRemoval : removal = .invRep ∨ ∃ data, removal = .flushRep data)
    {ask : Fin n → Asked}
    (kept : ∀ other, other ≠ core →
      (system.allocate config).sharers other = true →
      (asks (system.allocate config) system.queue other).Weakens
        (ask other)) :
    Base config ((system.taken core up).setEntry
      ((system.allocate config).without core owner forwarder)) ask := by
  obtain ⟨sharer, pending, -, -⟩ := inv.gives_up found isRemoval
  refine ⟨fun other => ?_, inv.base.entry.without sharer, inv.base.queue,
    inv.base.reads⟩
  have link := inv.base.links other
  change Link _ ⟨((system.allocate config).without core owner
      forwarder).sharers other,
    ((system.allocate config).without core owner forwarder).dstate,
    pendingOf system.queue other, queuedOf system.queue other, ask other⟩
    (system.caches other) (system.toCache other)
    (update system.toDirectory core up other)
  by_cases same : other = core
  · subst same
    rw [found] at link
    rw [update_self, DirectoryEntry.without_self]
    exact (link.receiveRemoval isRemoval).2.2.2.2 _ rfl pending rfl
  · rw [update_of_ne same, DirectoryEntry.without_of_ne same]
    by_cases shares : (system.allocate config).sharers other = true
    · rw [DirectoryEntry.without_dstate owner forwarder same shares]
      exact link.weaken (kept other same shares)
    · have notSharer : (system.allocate config).sharers other = false := by
        simpa using shares
      exact link.congr_absent notSharer notSharer
        (link.pending_of_not_sharer notSharer) rfl

/-- A request that waits for data is not disturbed by the removal. -/
theorem requester_ne (isHead : system.queue = req :: rest)
    (pending : pendingOf system.queue core = false)
    (retrieving : req.retrieving = true)
    (isRequest : req.msgType ≠ .nullifyReq) :
    req.requester ≠ core := by
  rintro rfl
  rw [isHead, pendingOf] at pending
  simp [retrieving, isRequest] at pending

/-- The entry after `INV_REP`. -/
def DirectoryEntry.invalidated (entry : DirectoryEntry n) (core : Fin n) :
    DirectoryEntry n :=
  entry.without core entry.owner
    (if entry.forwarder = some core then none else entry.forwarder)

theorem DirectoryEntry.removeSharer_of_sharer {entry : DirectoryEntry n}
    (sharer : entry.sharers core = true) :
    entry.removeSharer core = .ok { entry with
      sharers := update entry.sharers core false } := by
  rw [removeSharer, check_bind sharer]
  rfl

theorem invalidated_eq (entry : DirectoryEntry n) :
    (let left : DirectoryEntry n :=
      if entry.forwarder = some core then
        { entry with
          sharers := update entry.sharers core false
          forwarder := none }
      else
        { entry with sharers := update entry.sharers core false }
    if left.getNumSharers = 0 then { left with dstate := .uncached }
    else left) = entry.invalidated core := by
  unfold DirectoryEntry.invalidated DirectoryEntry.without
  dsimp only
  by_cases forwards : entry.forwarder = some core
  · simp only [forwards, if_true]
  · simp only [forwards, if_false]

/-- A line with two sharers is shared. -/
theorem EntryOk.shared_of_ne {entry : DirectoryEntry n} (ok : EntryOk entry)
    {first second : Fin n} (different : first ≠ second)
    (shares : entry.sharers first = true)
    (shares' : entry.sharers second = true) :
    entry.dstate = .shared := by
  have notOwned : ¬ (entry.dstate = .exclusive ∨ entry.dstate = .modified) := by
    intro owned
    obtain ⟨one, -, only⟩ := ok.owned owned
    exact different (((only first).mp shares).trans
      ((only second).mp shares').symm)
  cases state : entry.dstate with
  | uncached =>
      have impossible := ok.uncached.mp state first
      rw [shares] at impossible
      cases impossible
  | shared => rfl
  | exclusive => exact absurd (Or.inl state) notOwned
  | modified => exact absurd (Or.inr state) notOwned

/-- A request that waits for data while another sharer leaves. -/
theorem Inv.waits_of_gives_up (inv : Inv config system)
    (isHead : system.queue = req :: rest)
    (sharer : (system.allocate config).sharers core = true)
    (pending : pendingOf system.queue core = false)
    (waits : req.waitForData = true) :
    req.msgType = .shReq ∧ (system.allocate config).dstate = .shared ∧
      (system.allocate config).sharers req.requester = true ∧
      req.requester ≠ core := by
  obtain ⟨requester, isRequest, kind⟩ :=
    (inv.head req rest isHead).fetching waits
  have different : req.requester ≠ core :=
    requester_ne isHead pending (by simp [ShmemReq.retrieving, waits])
      isRequest
  have shared := inv.base.entry.shared_of_ne different requester sharer
  exact ⟨kind.mpr (by simp [shared]), shared, requester, different⟩

theorem ForwarderOk.invalidated {entry : DirectoryEntry n}
    (forwarderOk : ForwarderOk config entry) :
    ForwarderOk config (entry.invalidated core) := by
  intro mesif shared other forwards
  rw [DirectoryEntry.invalidated, DirectoryEntry.without_forwarder] at forwards
  split_ifs at forwards with own
  have different : other ≠ core := by
    rintro rfl
    exact own forwards
  rw [DirectoryEntry.invalidated, DirectoryEntry.without_of_ne different]
  refine forwarderOk mesif ?_ other forwards
  by_contra notShared
  rw [DirectoryEntry.invalidated, DirectoryEntry.without] at shared
  dsimp only at shared
  split_ifs at shared
  exact notShared shared

/-- The directory after `INV_REP`. -/
def System.afterInvRep (config : Config n) (system : System n Line)
    (core : Fin n) (up : List (ToDirectory Line)) : System n Line :=
  (system.taken core up).setEntry ((system.allocate config).invalidated core)

/-- The request at the head of the queue goes on waiting. -/
theorem Inv.keeps_waiting (inv : Inv config system)
    (found : system.toDirectory core = .invRep :: up)
    (isHead : system.queue = req :: rest)
    (kept : ∀ other, other ≠ core →
      (system.allocate config).sharers other = true →
      (asksOf (system.allocate config) req other).Weakens
        (asksOf ((system.allocate config).invalidated core) req other))
    (head : HeadOk config ((system.allocate config).invalidated core) req) :
    Inv config (system.afterInvRep config core up) := by
  refine ⟨?_, inv.forwarder.invalidated, fun other tail same => ?_⟩
  · refine inv.base_without found (Or.inl rfl) fun other different shares => ?_
    change Asked.Weakens _ (asks _ system.queue other)
    rw [isHead]
    exact kept other different shares
  · obtain ⟨rfl, -⟩ := List.cons.inj (isHead.symm.trans same)
    exact head

/-- The request at the head of the queue is to be served. -/
theorem Inv.ready_invalidated (inv : Inv config system)
    (found : system.toDirectory core = .invRep :: up)
    (isHead : system.queue = req :: rest)
    (untold : ∀ other, other ≠ core →
      (system.allocate config).sharers other = true →
      asksOf (system.allocate config) req other = .nothing)
    (unwaiting : req.waitForData = false)
    (forwarding : req.forwardingFrom ≠ none → req.msgType = .shReq ∧
      ((system.allocate config).invalidated core).dstate = .shared ∧
      ((system.allocate config).invalidated core).sharers req.requester =
        true ∧ config.protocol = .mesif) :
    Ready config (system.afterInvRep config core up) req rest none := by
  refine ⟨?_, fun _ => inv.forwarder.invalidated, isHead, unwaiting,
    forwarding⟩
  refine inv.base_without found (Or.inl rfl) fun other different shares => ?_
  rw [isHead]
  exact Or.inl (untold other different shares).symm

/-- A request that needs all sharers to leave. -/
theorem Inv.invRep_all (inv : Inv config system)
    (found : system.toDirectory core = .invRep :: up)
    (isHead : system.queue = req :: rest)
    (kind : req.msgType = .exReq ∨ req.msgType = .nullifyReq) :
    (((system.allocate config).invalidated core).dstate = .uncached →
      Ready config (system.afterInvRep config core up) req rest none) ∧
    (((system.allocate config).invalidated core).dstate ≠ .uncached →
      Inv config (system.afterInvRep config core up)) := by
  obtain ⟨sharer, pending, cached, -⟩ := inv.gives_up found (Or.inl rfl)
  have head := inv.head req rest isHead
  have notSh : req.msgType ≠ .shReq := by
    rcases kind with same | same <;> simp [same]
  have unwaiting : req.waitForData = false := by
    cases waits : req.waitForData with
    | false => rfl
    | true =>
        exact absurd (inv.waits_of_gives_up isHead sharer pending waits).1
          notSh
  have direct : req.forwardingFrom = none := by
    by_contra forwards
    exact notSh (head.forwarding forwards).1
  constructor
  · intro uncached
    refine inv.ready_invalidated found isHead ?_ unwaiting
      fun forwards => absurd direct forwards
    intro other different shares
    rw [DirectoryEntry.invalidated,
      DirectoryEntry.without_dstate _ _ different shares] at uncached
    exact absurd uncached cached
  · intro notUncached
    obtain ⟨other, different, shares⟩ : ∃ other, other ≠ core ∧
        (system.allocate config).sharers other = true := by
      by_contra alone
      push Not at alone
      exact notUncached (DirectoryEntry.without_last _ _
        fun other different => by simpa using alone other different)
    have same : ((system.allocate config).invalidated core).dstate =
        (system.allocate config).dstate :=
      DirectoryEntry.without_dstate _ _ different shares
    refine inv.keeps_waiting found isHead (fun other _ _ => Or.inl ?_) ?_
    · rcases kind with isEx | isNullify
      · simp only [asksOf, same, isEx]
      · simp only [asksOf, same, isNullify]
    · refine ⟨notUncached, fun forwards => absurd direct forwards,
        fun waits => ?_, fun _ => ?_⟩
      · rw [unwaiting] at waits
        cases waits
      · have asking := head.asking unwaiting
        rcases kind with isEx | isNullify
        · rw [isEx] at asking ⊢
          dsimp only at asking ⊢
          by_cases own : req.requester = core
          · rw [own, DirectoryEntry.invalidated, DirectoryEntry.without_self]
          · rw [DirectoryEntry.invalidated, DirectoryEntry.without_of_ne own]
            exact asking
        · rw [isNullify]
          trivial

/-- A request that needs all other sharers to leave. -/
theorem Inv.invRep_upgrade (inv : Inv config system)
    (found : system.toDirectory core = .invRep :: up)
    (isHead : system.queue = req :: rest)
    (kind : req.msgType = .upgradeReq) :
    ((∀ other, ((system.allocate config).invalidated core).sharers other =
        true → other = req.requester) →
      Ready config (system.afterInvRep config core up) req rest none) ∧
    (∀ other, ((system.allocate config).invalidated core).sharers other =
        true → other ≠ req.requester →
      Inv config (system.afterInvRep config core up)) := by
  obtain ⟨sharer, pending, cached, -⟩ := inv.gives_up found (Or.inl rfl)
  have head := inv.head req rest isHead
  have notSh : req.msgType ≠ .shReq := by simp [kind]
  have unwaiting : req.waitForData = false := by
    cases waits : req.waitForData with
    | false => rfl
    | true =>
        exact absurd (inv.waits_of_gives_up isHead sharer pending waits).1
          notSh
  have direct : req.forwardingFrom = none := by
    by_contra forwards
    exact notSh (head.forwarding forwards).1
  constructor
  · intro only
    refine inv.ready_invalidated found isHead ?_ unwaiting
      fun forwards => absurd direct forwards
    intro other different shares
    have own : other = req.requester := by
      refine only other ?_
      rw [DirectoryEntry.invalidated, DirectoryEntry.without_of_ne different]
      exact shares
    have shared := inv.base.entry.shared_of_ne different shares sharer
    simp [asksOf, unwaiting, shared, kind, own]
  · intro other shares' foreign
    have different : other ≠ core := by
      rintro rfl
      rw [DirectoryEntry.invalidated, DirectoryEntry.without_self] at shares'
      cases shares'
    have shares : (system.allocate config).sharers other = true := by
      rw [DirectoryEntry.invalidated,
        DirectoryEntry.without_of_ne different] at shares'
      exact shares'
    have shared := inv.base.entry.shared_of_ne different shares sharer
    have same : ((system.allocate config).invalidated core).dstate =
        (system.allocate config).dstate :=
      DirectoryEntry.without_dstate _ _ different shares
    refine inv.keeps_waiting found isHead (fun another _ _ => ?_) ?_
    · by_cases own : another = req.requester
      · exact Or.inl (by simp [asksOf, unwaiting, same, shared, kind, own])
      · by_cases lost : req.requester = core
        · refine Or.inr ⟨?_, ?_⟩
          · simp [asksOf, unwaiting, shared, kind, own]
            rw [lost]
            exact sharer
          · simp [asksOf, unwaiting, same, shared, kind, own]
            rw [lost]
            exact DirectoryEntry.without_self
        · refine Or.inl ?_
          simp [asksOf, unwaiting, same, shared, kind, own]
          exact DirectoryEntry.without_of_ne lost
    · refine ⟨by simp [same, shared], fun forwards => absurd direct forwards,
        fun waits => ?_, fun _ => ?_⟩
      · rw [unwaiting] at waits
        cases waits
      · rw [kind]
        exact ⟨fun _ => ⟨other, foreign, shares'⟩,
          fun notShared => absurd (same.trans shared) notShared⟩

/-- A request that needs a copy of the line. -/
theorem Inv.invRep_share (inv : Inv config system)
    (found : system.toDirectory core = .invRep :: up)
    (isHead : system.queue = req :: rest) (kind : req.msgType = .shReq) :
    (req.waitForData = true →
      Inv config (system.afterInvRep config core up)) ∧
    (req.waitForData = false → req.forwardingFrom ≠ none →
      req.forwardingFrom ≠ some core →
      Inv config (system.afterInvRep config core up)) ∧
    (req.waitForData = false →
      (req.forwardingFrom = none ∨ req.forwardingFrom = some core) →
      Ready config (system.afterInvRep config core up) req rest none) := by
  obtain ⟨sharer, pending, cached, -⟩ := inv.gives_up found (Or.inl rfl)
  have head := inv.head req rest isHead
  -- the requester has become a sharer already, and another cache leaves
  have stays : req.requester ≠ core →
      (system.allocate config).sharers req.requester = true →
      ((system.allocate config).invalidated core).dstate = .shared ∧
      ((system.allocate config).invalidated core).dstate =
        (system.allocate config).dstate ∧
      ((system.allocate config).invalidated core).sharers req.requester =
        true := by
    intro different shares
    have shared := inv.base.entry.shared_of_ne different shares sharer
    have same : ((system.allocate config).invalidated core).dstate =
        (system.allocate config).dstate :=
      DirectoryEntry.without_dstate _ _ different shares
    refine ⟨same.trans shared, same, ?_⟩
    rw [DirectoryEntry.invalidated, DirectoryEntry.without_of_ne different]
    exact shares
  have forwarded : req.forwardingFrom ≠ none → req.requester ≠ core ∧
      (system.allocate config).sharers req.requester = true := by
    intro forwards
    refine ⟨requester_ne isHead pending ?_ (by simp [kind]),
      (head.forwarding forwards).2.2.1⟩
    simp [ShmemReq.retrieving, Option.isSome_iff_ne_none, forwards]
  have forwarding : req.forwardingFrom ≠ none → req.msgType = .shReq ∧
      ((system.allocate config).invalidated core).dstate = .shared ∧
      ((system.allocate config).invalidated core).sharers req.requester =
        true ∧ config.protocol = .mesif := by
    intro forwards
    obtain ⟨different, shares⟩ := forwarded forwards
    obtain ⟨shared, -, shares'⟩ := stays different shares
    exact ⟨kind, shared, shares', (head.forwarding forwards).2.2.2⟩
  refine ⟨fun waits => ?_, fun unwaiting forwards other => ?_,
    fun unwaiting source => ?_⟩
  · obtain ⟨-, shared, shares, different⟩ :=
      inv.waits_of_gives_up isHead sharer pending waits
    obtain ⟨shared', -, shares'⟩ := stays different shares
    refine inv.keeps_waiting found isHead (fun another _ _ => Or.inl ?_) ?_
    · rw [asksOf_waiting _ waits, asksOf_waiting _ waits]
    · refine ⟨by simp [shared'], forwarding, fun _ => ⟨shares', by simp [kind],
        by simp [kind, shared']⟩, fun unwaiting => ?_⟩
      rw [waits] at unwaiting
      cases unwaiting
  · obtain ⟨different, shares⟩ := forwarded forwards
    obtain ⟨shared', same, shares'⟩ := stays different shares
    refine inv.keeps_waiting found isHead (fun another _ _ => Or.inl ?_) ?_
    · simp only [asksOf, same, kind]
    · refine ⟨by simp [shared'], forwarding, fun waits => ?_, fun _ => ?_⟩
      · rw [unwaiting] at waits
        cases waits
      · have asking := head.asking unwaiting
        rw [kind] at asking ⊢
        refine ⟨fun notShared => absurd shared' notShared, fun _ => ?_⟩
        have asked := asking.2 (same.symm.trans shared')
        cases from' : req.forwardingFrom with
        | none => exact absurd from' forwards
        | some forwarder =>
            rw [from'] at asked other
            refine ⟨?_, asked.2⟩
            rw [DirectoryEntry.invalidated, DirectoryEntry.without_of_ne
              (fun same => other (congrArg some same))]
            exact asked.1
  · refine inv.ready_invalidated found isHead ?_ unwaiting forwarding
    intro other different shares
    refine asksOf_share (inv.base.entry.shared_of_ne different shares sharer)
      kind ?_
    rcases source with direct | own
    · simp [direct]
    · simp [own, Ne.symm different]

/-- The test of `processInvRepFromL2Cache` for an `UPGRADE_REQ`. -/
theorem DirectoryEntry.upgrade_waits {α : Type} {entry : DirectoryEntry n}
    {requester other : Fin n} (shares : entry.sharers other = true)
    (foreign : other ≠ requester) (served waits : α) :
    (if entry.getNumSharers = 1 then
        if entry.sharers requester = true then served else waits
      else if entry.getNumSharers = 0 then served else waits) = waits := by
  have notEmpty : entry.getNumSharers ≠ 0 := by
    intro empty
    have impossible := getNumSharers_eq_zero.mp empty other
    rw [shares] at impossible
    cases impossible
  by_cases one : entry.getNumSharers = 1
  · rw [if_pos one, if_neg]
    intro own
    obtain ⟨only, same⟩ := List.length_eq_one_iff.mp one
    have first : requester = only := by
      rw [← List.mem_singleton, ← same]
      exact mem_getSharersList.mpr own
    have second : other = only := by
      rw [← List.mem_singleton, ← same]
      exact mem_getSharersList.mpr shares
    exact foreign (second.trans first.symm)
  · rw [if_neg one, if_neg notEmpty]

theorem DirectoryEntry.upgrade_served {α : Type} {entry : DirectoryEntry n}
    {requester : Fin n}
    (only : ∀ other, entry.sharers other = true → other = requester)
    (served waits : α) :
    (if entry.getNumSharers = 1 then
        if entry.sharers requester = true then served else waits
      else if entry.getNumSharers = 0 then served else waits) = served := by
  by_cases own : entry.sharers requester = true
  · have one : entry.getNumSharers = 1 := by
      refine List.length_eq_one_iff.mpr ⟨requester,
        getSharersList_eq_singleton fun other => ⟨only other, ?_⟩⟩
      rintro rfl
      exact own
    rw [if_pos one, if_pos own]
  · have none : entry.getNumSharers = 0 := by
      refine getNumSharers_eq_zero.mpr fun other => ?_
      by_contra shares
      have isSharer : entry.sharers other = true := by simpa using shares
      obtain rfl := only other isSharer
      exact own isSharer
    rw [none, if_neg (by simp), if_pos rfl]

theorem processInvRep_moves (inv : Inv config system) (ok : config.Ok)
    (random : Nat) (found : system.toDirectory core = .invRep :: up)
    (calm : ∀ req rest, system.queue = req :: rest →
      Calm config (system.afterInvRep config core up) req) :
    ∃ next,
      (system.taken core up).processInvRepFromL2Cache config random core =
        .ok next ∧
      ((next = system.afterInvRep config core up ∧ Inv config next) ∨
        Serves config (system.afterInvRep config core up) none next) := by
  obtain ⟨sharer, pending, cached, removes⟩ :=
    inv.gives_up found (Or.inl rfl)
  have states : (system.allocate config).dstate = .shared ∨
      (system.allocate config).dstate = .exclusive := by
    rcases removes with impossible | notModified
    · cases impossible
    · change (system.allocate config).dstate ≠ .modified at notModified
      cases state : (system.allocate config).dstate with
      | uncached => exact absurd state cached
      | modified => exact absurd state notModified
      | shared => exact Or.inl rfl
      | exclusive => exact Or.inr rfl
  have entry : (system.taken core up).entry =
      some (system.allocate config) := entry_of_sharer sharer
  unfold System.processInvRepFromL2Cache
  rw [entry]
  dsimp only
  rw [check_bind states, DirectoryEntry.removeSharer_of_sharer sharer,
    ok_bind]
  dsimp only
  rw [invalidated_eq, ← System.afterInvRep]
  have queue : (system.afterInvRep config core up).queue = system.queue := rfl
  rw [queue]
  cases isHead : system.queue with
  | nil =>
      refine ⟨_, rfl, Or.inl ⟨rfl, ⟨?_, inv.forwarder.invalidated, ?_⟩⟩⟩
      · refine inv.base_without found (Or.inl rfl)
          fun other different shares => Or.inl ?_
        change asks _ system.queue other = _
        rw [isHead]
        rfl
      · intro req rest impossible
        rw [queue, isHead] at impossible
        cases impossible
  | cons req rest =>
      dsimp only
      cases kind : req.msgType with
      | exReq =>
          obtain ⟨served, waits⟩ := inv.invRep_all found isHead (Or.inl kind)
          dsimp only
          split_ifs with uncached
          · have ready := served uncached
            obtain ⟨final, run, serves⟩ := ready.proceeds ok random
              (fun isUpgrade => by simp [kind] at isUpgrade)
              (processExReq_outcome ready ok kind (Or.inl rfl))
            exact ⟨final, run, Or.inr serves⟩
          · exact ⟨_, rfl, Or.inl ⟨rfl, waits uncached⟩⟩
      | upgradeReq =>
          obtain ⟨served, waits⟩ := inv.invRep_upgrade found isHead kind
          have done := fun only => (served only).proceeds ok random
            (calm req rest isHead)
            (processUpgradeReq_outcome (served only) ok kind (Or.inl rfl))
          dsimp only
          by_cases others : ∃ other,
              ((system.allocate config).invalidated core).sharers other =
                true ∧ other ≠ req.requester
          · obtain ⟨other, shares, foreign⟩ := others
            refine ⟨_, ?_, Or.inl ⟨rfl, waits other shares foreign⟩⟩
            rw [DirectoryEntry.upgrade_waits shares foreign]
            rfl
          · push Not at others
            obtain ⟨final, run, serves⟩ := done others
            refine ⟨final, ?_, Or.inr serves⟩
            rw [DirectoryEntry.upgrade_served others]
            exact run
      | shReq =>
          obtain ⟨waits, forwards, served⟩ := inv.invRep_share found isHead kind
          dsimp only
          split_ifs with waiting forwarding
          · exact ⟨_, rfl, Or.inl ⟨rfl, waits waiting⟩⟩
          · refine ⟨_, rfl, Or.inl ⟨rfl, forwards (by simpa using waiting) ?_
              forwarding.2⟩⟩
            exact Option.isSome_iff_ne_none.mp forwarding.1
          · have source : req.forwardingFrom = none ∨
                req.forwardingFrom = some core := by
              by_cases direct : req.forwardingFrom = none
              · exact Or.inl direct
              · refine Or.inr (by_contra fun other => forwarding ⟨?_, other⟩)
                exact Option.isSome_iff_ne_none.mpr direct
            have ready := served (by simpa using waiting) source
            obtain ⟨final, run, serves⟩ := ready.proceeds ok random
              (fun isUpgrade => by simp [kind] at isUpgrade)
              (processShReq_outcome ready ok random kind (Or.inl rfl))
            exact ⟨final, run, Or.inr serves⟩
      | nullifyReq =>
          obtain ⟨served, waits⟩ := inv.invRep_all found isHead (Or.inr kind)
          dsimp only
          split_ifs with uncached
          · have ready := served uncached
            obtain ⟨final, run, serves⟩ := ready.proceeds ok random
              (fun isUpgrade => by simp [kind] at isUpgrade)
              (processNullifyReq_outcome ready kind rfl)
            exact ⟨final, run, Or.inr serves⟩
          · exact ⟨_, rfl, Or.inl ⟨rfl, waits uncached⟩⟩

/-! ## What the directory has received -/

/-- The directory after a request. -/
def System.requested (system : System n Line) (core : Fin n)
    (up : List (ToDirectory Line)) (msgType : ReqType) : System n Line :=
  { system.taken core up with
    queue := system.queue ++ [ShmemReq.new msgType core]
    log := system.log ++ [.received core msgType] }

/-- The directory after `FLUSH_REP`. -/
def System.afterFlushRep (config : Config n) (system : System n Line)
    (core : Fin n) (up : List (ToDirectory Line)) : System n Line :=
  (system.taken core up).setEntry
    ((system.allocate config).without core none none)

/-- The directory after `WB_REP`. -/
def System.afterWbRep (config : Config n) (system : System n Line)
    (core : Fin n) (up : List (ToDirectory Line)) : System n Line :=
  (system.taken core up).setEntry
    { system.allocate config with owner := none, dstate := .shared }

/-- The directory after a message of the DRAM. -/
def System.afterDramReply (config : Config n) (system : System n Line)
    (data : Data Line) (later : List (Data Line)) (req : ShmemReq n Line)
    (rest : List (ShmemReq n Line)) : System n Line :=
  ({ system with fromDram := later }.sendMsg
    (if (system.allocate config).dstate = DirectoryState.shared then
        .shRep data
      else .exRep data) req.requester).dequeue req rest

/-- A message has been received, and the request at the head of the queue may
be served with the data of a cache. -/
inductive Prepares (config : Config n) (system : System n Line) :
    System.Action n Line → System n Line → Option (Data Line) → Prop
  | request {core : Fin n} {msg : ToDirectory Line} {msgType : ReqType}
      {up : List (ToDirectory Line)} {random : Nat} :
      system.toDirectory core = msg :: up → msg.reqType = some msgType →
      Prepares config system (.toDirectory core random)
        (system.requested core up msgType) none
  | replace {requester : Fin n} {random : Nat} :
      system.queue = [] → system.entry.isSome = true →
      Prepares config system (.replace requester random)
        { system with queue := [ShmemReq.new .nullifyReq requester] } none
  | invRep {core : Fin n} {up : List (ToDirectory Line)} {random : Nat} :
      system.toDirectory core = .invRep :: up →
      Prepares config system (.toDirectory core random)
        (system.afterInvRep config core up) none
  | flushToDram {core : Fin n} {up : List (ToDirectory Line)}
      {data : Data Line} {cached : Option (Data Line)} {random : Nat} :
      system.toDirectory core = .flushRep data :: up →
      (∀ other, other ≠ core →
        (system.allocate config).sharers other = false) →
      (system.queue = [] ∧ cached = none ∨
        ∃ req rest, system.queue = req :: rest ∧
          (req.msgType = .nullifyReq ∧ cached = none ∨
            req.msgType = .shReq ∧ cached = some data)) →
      Prepares config system (.toDirectory core random)
        ((system.afterFlushRep config core up).sendDataToDram data) cached
  | flushTaken {core : Fin n} {up : List (ToDirectory Line)}
      {data : Data Line} {req : ShmemReq n Line}
      {rest : List (ShmemReq n Line)} {random : Nat} :
      system.toDirectory core = .flushRep data :: up →
      (∀ other, other ≠ core →
        (system.allocate config).sharers other = false) →
      system.queue = req :: rest →
      req.msgType = .exReq ∨ req.msgType = .upgradeReq →
      Prepares config system (.toDirectory core random)
        (system.afterFlushRep config core up) (some data)
  | flushKept {core : Fin n} {up : List (ToDirectory Line)}
      {data : Data Line} {req : ShmemReq n Line}
      {rest : List (ShmemReq n Line)} {random : Nat} :
      system.toDirectory core = .flushRep data :: up →
      system.queue = req :: rest → req.msgType = .upgradeReq →
      (∃ other, other ≠ core ∧
        (system.allocate config).sharers other = true) →
      Prepares config system (.toDirectory core random)
        ((system.afterFlushRep config core up).updateHead fun req =>
          { req with dataBuf := some none }) none
  | wbRep {core : Fin n} {up : List (ToDirectory Line)} {data : Data Line}
      {req : ShmemReq n Line} {rest : List (ShmemReq n Line)}
      {random : Nat} :
      system.toDirectory core = .wbRep data :: up →
      system.queue = req :: rest → req.msgType = .shReq →
      Prepares config system (.toDirectory core random)
        (system.afterWbRep config core up) (some data)
  | dramReply {data : Data Line} {later : List (Data Line)}
      {req : ShmemReq n Line} {rest : List (ShmemReq n Line)}
      {random : Nat} :
      system.fromDram = data :: later → system.queue = req :: rest →
      req.waitForData = true →
      Prepares config system (.fromDram random)
        (system.afterDramReply config data later req rest) none

/-- What the directory can do with a message. -/
def Handled (config : Config n) (system : System n Line)
    (action : System.Action n Line) (next : System n Line) : Prop :=
  ∃ mid cached, Prepares config system action mid cached ∧
    ((next = mid ∧ cached = none ∧ Inv config mid) ∨
      Serves config mid cached next)

/-! ## Flushed data -/

theorem Base.sendDataToDram {ask : Fin n → Asked}
    (base : Base config system ask) (data : Data Line) :
    Base config (system.sendDataToDram data) ask := by
  refine ⟨base.links, base.entry, base.queue, ?_⟩
  refine Eq.trans ?_ base.reads
  simp [readsOf, System.sendDataToDram, List.countP_append]

theorem Ready.sendDataToDram {cached : Option (Data Line)}
    (ready : Ready config system req rest cached) (data : Data Line) :
    Ready config (system.sendDataToDram data) req rest cached :=
  ⟨ready.base.sendDataToDram data, ready.forwarder, ready.queue,
    ready.unwaiting, ready.forwarding⟩

theorem flushed_eq (entry : DirectoryEntry n) :
    (if ({ entry with
          sharers := update entry.sharers core false
          forwarder := none, owner := none } : DirectoryEntry n).getNumSharers =
        0 then
      { entry with
        sharers := update entry.sharers core false
        forwarder := none, owner := none, dstate := .uncached }
    else
      { entry with
        sharers := update entry.sharers core false
        forwarder := none, owner := none }) =
      entry.without core none none :=
  rfl

theorem ForwarderOk.flushed (config : Config n) (entry : DirectoryEntry n) :
    ForwarderOk config (entry.without core none none) := by
  intro _ _ other forwards
  rw [DirectoryEntry.without_forwarder] at forwards
  cases forwards

/-- The cache that is flushed is the only sharer, or it has been told so by a
requester without a copy. -/
theorem Inv.flush_cases (inv : Inv config system) {data : Data Line}
    (found : system.toDirectory core = .flushRep data :: up) :
    (∀ other, other ≠ core → (system.allocate config).sharers other =
      false) ∨
    ((system.allocate config).dstate = .shared ∧
      ∃ req rest, system.queue = req :: rest ∧ req.msgType = .upgradeReq ∧
        req.waitForData = false ∧ core ≠ req.requester ∧
        (system.allocate config).sharers req.requester = false) := by
  obtain ⟨sharer, pending, cached, -, told⟩ :=
    inv.gives_up found (Or.inr ⟨data, rfl⟩)
  by_cases shared : (system.allocate config).dstate = .shared
  · refine Or.inr ⟨shared, ?_⟩
    have asked := told shared
    change asks (system.allocate config) system.queue core = _ at asked
    cases isHead : system.queue with
    | nil =>
        rw [isHead] at asked
        cases asked
    | cons req rest =>
        rw [isHead] at asked
        change asksOf _ req core = _ at asked
        refine ⟨req, rest, rfl, ?_⟩
        have unwaiting : req.waitForData = false := by
          cases waits : req.waitForData with
          | false => rfl
          | true =>
              rw [asksOf_waiting _ waits] at asked
              cases asked
        cases kind : req.msgType with
        | exReq | nullifyReq => simp [asksOf, unwaiting, shared, kind] at asked
        | shReq =>
            simp only [asksOf, unwaiting, shared, kind] at asked
            split_ifs at asked
        | upgradeReq =>
            by_cases own : core = req.requester
            · simp [asksOf, unwaiting, shared, kind, own] at asked
            · refine ⟨rfl, unwaiting, own, ?_⟩
              simpa [asksOf, unwaiting, shared, kind, own] using asked
  · refine Or.inl fun other different => ?_
    by_contra shares
    exact shared (inv.base.entry.shared_of_ne different (by simpa using shares)
      sharer)

/-- The request at the head of the queue when its last sharer is flushed. -/
theorem Inv.ready_flushed (inv : Inv config system) {data : Data Line}
    (found : system.toDirectory core = .flushRep data :: up)
    (isHead : system.queue = req :: rest)
    (alone : ∀ other, other ≠ core →
      (system.allocate config).sharers other = false)
    (cached : Option (Data Line)) :
    Ready config (system.afterFlushRep config core up) req rest cached ∧
      ((system.afterFlushRep config core up).allocate config).dstate =
        .uncached := by
  obtain ⟨sharer, pending, -, -⟩ := inv.gives_up found (Or.inr ⟨data, rfl⟩)
  have head := inv.head req rest isHead
  have shares_core : ∀ other,
      (system.allocate config).sharers other = true → other = core := by
    intro other shares
    by_contra different
    rw [alone other different] at shares
    cases shares
  refine ⟨⟨?_, fun _ => ForwarderOk.flushed config _, isHead, ?_, ?_⟩,
    DirectoryEntry.without_last none none alone⟩
  · refine inv.base_without found (Or.inr ⟨data, rfl⟩)
      fun other different shares => ?_
    exact absurd (shares_core other shares) different
  · cases waits : req.waitForData with
    | false => rfl
    | true =>
        obtain ⟨-, -, shares, different⟩ :=
          inv.waits_of_gives_up isHead sharer pending waits
        exact absurd (shares_core _ shares) different
  · intro forwards
    obtain ⟨isSh, -, shares, -⟩ := head.forwarding forwards
    refine absurd (shares_core _ shares)
      (requester_ne isHead pending ?_ (by simp [isSh]))
    simp [ShmemReq.retrieving, Option.isSome_iff_ne_none, forwards]

/-- A request keeps waiting for the other sharers. -/
theorem Inv.keeps_flushing (inv : Inv config system) {data : Data Line}
    (found : system.toDirectory core = .flushRep data :: up)
    (isHead : system.queue = req :: rest)
    (kind : req.msgType = .upgradeReq) (unwaiting : req.waitForData = false)
    (shared : (system.allocate config).dstate = .shared)
    (notSharer : (system.allocate config).sharers req.requester = false)
    {other : Fin n} (different : other ≠ core)
    (shares : (system.allocate config).sharers other = true) :
    Inv config ((system.afterFlushRep config core up).updateHead fun req =>
      { req with dataBuf := some none }) := by
  have head := inv.head req rest isHead
  have same : ((system.allocate config).without core none none).dstate =
      .shared :=
    (DirectoryEntry.without_dstate none none different shares).trans shared
  have notSharer' : ((system.allocate config).without core none
      none).sharers req.requester = false := by
    by_cases own : req.requester = core
    · rw [own, DirectoryEntry.without_self]
    · rw [DirectoryEntry.without_of_ne own, notSharer]
  have base : Base config (system.afterFlushRep config core up)
      (asksOf ((system.allocate config).without core none none) req) := by
    refine inv.base_without found (Or.inr ⟨data, rfl⟩) fun another _ _ => ?_
    refine Or.inl ?_
    rw [isHead]
    simp [asks, asksOf, same, shared, kind, notSharer, notSharer']
  have queue : QueueOk (req :: rest) := isHead ▸ inv.base.queue
  have isHead' : (system.queue.modifyHead fun req =>
      { req with dataBuf := some none }) =
      { req with dataBuf := some none } :: rest := by
    rw [isHead]
    rfl
  refine .of_head ((system.allocate config).without core none none) rfl
    isHead' (fun another => ?_) base.entry (queue.congr_head rfl rfl) ?_
    (ForwarderOk.flushed config _) ?_
  · have link := base.links another
    change Link _ (viewOf _ system.queue _ another) _ _ _ at link
    rw [isHead] at link
    have pending : pendingOf ({ req with dataBuf := some none } :: rest)
        another = pendingOf (req :: rest) another := rfl
    have queued : queuedOf ({ req with dataBuf := some none } :: rest)
        another = queuedOf (req :: rest) another := by
      rw [queuedOf_cons, queuedOf_cons]
    rw [pending, queued]
    exact link
  · have reads := inv.base.reads
    rw [isHead] at reads
    exact reads
  · refine ⟨by simp [same], fun forwards => ?_, fun waits => ?_, fun _ => ?_⟩
    · have isSh := (head.forwarding forwards).1
      simp [kind] at isSh
    · rw [unwaiting] at waits
      cases waits
    · dsimp only
      rw [kind]
      refine ⟨fun _ => ⟨other, ?_, ?_⟩, fun notShared => absurd same notShared⟩
      · rintro rfl
        rw [shares] at notSharer
        cases notSharer
      · rw [DirectoryEntry.without_of_ne different]
        exact shares

theorem processFlushRep_moves (inv : Inv config system) (ok : config.Ok)
    (random : Nat) {data : Data Line}
    (found : system.toDirectory core = .flushRep data :: up) :
    ∃ next,
      (system.taken core up).processFlushRepFromL2Cache config random core
        data = .ok next ∧
      Handled config system (.toDirectory core random) next := by
  obtain ⟨sharer, -, -, -⟩ := inv.gives_up found (Or.inr ⟨data, rfl⟩)
  have cases := inv.flush_cases found
  have entry : (system.taken core up).entry =
      some (system.allocate config) := entry_of_sharer sharer
  have checked : ({ system.allocate config with
        sharers := update (system.allocate config).sharers core false
        forwarder := none, owner := none } : DirectoryEntry n).getNumSharers =
          0 ∨ (system.allocate config).dstate = .shared := by
    rcases cases with alone | ⟨shared, -⟩
    · refine Or.inl (DirectoryEntry.getNumSharers_eq_zero.mpr fun other => ?_)
      by_cases same : other = core
      · simp [same]
      · simp [same, alone other same]
    · exact Or.inr shared
  unfold System.processFlushRepFromL2Cache
  rw [entry]
  dsimp only
  rw [DirectoryEntry.removeSharer_of_sharer sharer, ok_bind]
  dsimp only
  rw [check_bind checked, flushed_eq, ← System.afterFlushRep]
  have queue : (system.afterFlushRep config core up).queue = system.queue :=
    rfl
  rw [queue]
  cases isHead : system.queue with
  | nil =>
      have alone := cases.resolve_right (by simp [isHead])
      refine ⟨_, rfl, _, none, .flushToDram found alone (Or.inl ⟨isHead, rfl⟩),
        Or.inl ⟨rfl, rfl, ⟨?_, ForwarderOk.flushed config _, ?_⟩⟩⟩
      · refine Base.sendDataToDram (inv.base_without found
          (Or.inr ⟨data, rfl⟩) fun other different shares => ?_) data
        rw [alone other different] at shares
        cases shares
      · intro req rest impossible
        change system.queue = _ at impossible
        rw [isHead] at impossible
        cases impossible
  | cons req rest =>
      have notUpgrade : req.msgType ≠ .upgradeReq → ∀ other, other ≠ core →
          (system.allocate config).sharers other = false := by
        intro other
        refine cases.resolve_right ?_
        rintro ⟨-, first, tail, same, isUpgrade, -⟩
        obtain ⟨rfl, -⟩ := List.cons.inj (isHead.symm.trans same)
        exact other isUpgrade
      dsimp only
      cases kind : req.msgType with
      | exReq =>
          have alone := notUpgrade (by simp [kind])
          obtain ⟨ready, uncached⟩ :=
            inv.ready_flushed found isHead alone (some data)
          obtain ⟨final, run, serves⟩ := ready.proceeds ok random
            (fun isUpgrade => by simp [kind] at isUpgrade)
            (processExReq_outcome ready ok kind (Or.inr uncached))
          exact ⟨final, run, _, _, .flushTaken found alone isHead
            (Or.inl kind), Or.inr serves⟩
      | shReq =>
          have alone := notUpgrade (by simp [kind])
          obtain ⟨ready, uncached⟩ :=
            inv.ready_flushed found isHead alone (some data)
          have ready' := ready.sendDataToDram data
          obtain ⟨final, run, serves⟩ := ready'.proceeds ok random
            (fun isUpgrade => by simp [kind] at isUpgrade)
            (processShReq_outcome ready' ok random kind
              (Or.inr (Or.inl uncached)))
          exact ⟨final, run, _, _, .flushToDram found alone
            (Or.inr ⟨req, rest, isHead, Or.inr ⟨kind, rfl⟩⟩), Or.inr serves⟩
      | nullifyReq =>
          have alone := notUpgrade (by simp [kind])
          obtain ⟨ready, uncached⟩ :=
            inv.ready_flushed found isHead alone none
          have ready' := ready.sendDataToDram data
          obtain ⟨final, run, serves⟩ := ready'.proceeds ok random
            (fun isUpgrade => by simp [kind] at isUpgrade)
            (processNullifyReq_outcome ready' kind rfl)
          exact ⟨final, run, _, _, .flushToDram found alone
            (Or.inr ⟨req, rest, isHead, Or.inl ⟨kind, rfl⟩⟩), Or.inr serves⟩
      | upgradeReq =>
          dsimp only
          by_cases alone : ∀ other, other ≠ core →
              (system.allocate config).sharers other = false
          · obtain ⟨ready, uncached⟩ :=
              inv.ready_flushed found isHead alone (some data)
            obtain ⟨final, run, serves⟩ := ready.proceeds ok random
              (fun _ shared => by simp [uncached] at shared)
              (processUpgradeReq_outcome ready ok kind (Or.inr uncached))
            rw [if_pos (DirectoryEntry.without_num.mpr alone)]
            exact ⟨final, run, _, _, .flushTaken found alone isHead
              (Or.inr kind), Or.inr serves⟩
          · obtain ⟨shared, first, tail, same, -, unwaiting, -, notSharer⟩ :=
              cases.resolve_left alone
            obtain ⟨rfl, -⟩ := List.cons.inj (isHead.symm.trans same)
            rw [if_neg (mt DirectoryEntry.without_num.mp alone)]
            push Not at alone
            obtain ⟨other, different, shares⟩ := alone
            have isSharer : (system.allocate config).sharers other = true := by
              simpa using shares
            exact ⟨_, rfl, _, none, .flushKept found isHead kind
              ⟨other, different, isSharer⟩, Or.inl ⟨rfl, rfl, inv.keeps_flushing
                found isHead kind unwaiting shared notSharer different
                isSharer⟩⟩

end Removal

end ChipletSniper.Coherence
