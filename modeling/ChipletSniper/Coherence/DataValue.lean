import ChipletSniper.Coherence.Safety

/-!
# The data of the line

Every copy and every message with data has the value of the last write, as long
as no modified data is written back to a directory that does not store it.
-/

namespace ChipletSniper.Coherence

open Library Function

variable {n : Nat} {Line : Type} {config : Config n} {initial : Line}
variable {system next : System n Line} {req : ShmemReq n Line}
variable {rest : List (ShmemReq n Line)}

/-! ## The invariant -/

/-- What the DRAM has when it has received all its messages. -/
def stored : List (ToDram Line) → Data Line → Data Line
  | [], dram => dram
  | .readReq :: later, dram => stored later dram
  | .writeReq data :: later, _ => stored later data

theorem stored_append (first second : List (ToDram Line))
    (dram : Data Line) :
    stored (first ++ second) dram = stored second (stored first dram) := by
  induction first generalizing dram with
  | nil => rfl
  | cons msg first ih =>
      cases msg with
      | readReq => exact ih dram
      | writeReq data => exact ih data

/-- A cache has the line modified, or the modified line is on its way from or
to the cache. -/
def Soiled (dstate : DirectoryState) (cache : Llc Line)
    (down : List (ToCache Line)) (up : List (ToDirectory Line)) : Prop :=
  cache.cstate = .modified ∨ (∃ data, .flushRep data ∈ up) ∨
    dstate = .modified ∧ ∃ data, .exRep data ∈ down

/-- The DRAM need not have the data of the line. -/
def Dirty (config : Config n) (system : System n Line) : Prop :=
  ((system.allocate config).dstate = .exclusive ∨
    (system.allocate config).dstate = .modified) ∧
  ∃ core, (system.allocate config).sharers core = true ∧
    Soiled (system.allocate config).dstate (system.caches core)
      (system.toCache core) (system.toDirectory core)

/-- The data that the directory has taken from a cache is handed on to the
next owner. -/
def HandedOn (config : Config n) (system : System n Line)
    (cached : Option (Data Line)) : Prop :=
  cached ≠ none ∧ (system.allocate config).dstate = .uncached ∧
    ∃ req rest, system.queue = req :: rest ∧
      (req.msgType = .exReq ∨ req.msgType = .upgradeReq)

/-- The data of all copies and messages. -/
structure DataOk (config : Config n) (system : System n Line)
    (cached : Option (Data Line)) : Prop where
  copies : ∀ core, (system.caches core).cstate ≠ .invalid →
    (system.caches core).data = some system.lastWrite
  replies : ∀ core data, .exRep data ∈ system.toCache core ∨
    .shRep data ∈ system.toCache core → data = some system.lastWrite
  answers : ∀ core data, .flushRep data ∈ system.toDirectory core ∨
    .wbRep data ∈ system.toDirectory core → data = some system.lastWrite
  fetched : ∀ data ∈ system.fromDram, data = some system.lastWrite
  reads : ∀ before after, system.toDram = before ++ .readReq :: after →
    stored before system.dram = some system.lastWrite
  buffers : ∀ req ∈ system.queue, req.dataBuf = none
  given : ∀ data, cached = some data → data = some system.lastWrite
  memory : stored system.toDram system.dram = some system.lastWrite ∨
    Dirty config system ∨ HandedOn config system cached

/-! ## Links -/

section Link

variable {limited : Prop} {view : View} {cache : Llc Line}
variable {down : List (ToCache Line)} {up : List (ToDirectory Line)}

/-- The messages with data between the directory and a cache that is no
sharer: there are none. -/
theorem Link.no_data (link : Link limited view cache down up)
    (sharer : view.sharer = false) (data : Data Line) :
    .exRep data ∉ down ∧ .shRep data ∉ down ∧ .flushRep data ∉ up ∧
      .wbRep data ∉ up := by
  cases link with
  | absent _ _ _ ignored requesting =>
      refine ⟨fun mem => ?_, fun mem => ?_, ?_⟩
      · have := ignored _ mem
        cases this
      · have := ignored _ mem
        cases this
      · cases requesting with
        | idle => simp
        | queued => simp
        | sent _ request =>
            constructor
            · rintro mem
              rw [← List.mem_singleton.mp mem] at request
              cases request
            · rintro mem
              rw [← List.mem_singleton.mp mem] at request
              cases request
  | pending other => simp [sharer] at other
  | granted other => simp [sharer] at other
  | held other => simp [sharer] at other
  | left other => simp [sharer] at other

/-- A cache with a copy that is not being answered a request has no other
copy in flight. -/
theorem Link.quiet (link : Link limited view cache down up)
    (valid : cache.cstate ≠ .invalid) (data : Data Line) :
    .exRep data ∉ down ∧ .shRep data ∉ down ∧ .flushRep data ∉ up := by
  have silent : ∀ {ignored : List (ToCache Line)}, Ignored ignored →
      .exRep data ∉ ignored ∧ .shRep data ∉ ignored := by
    intro ignored quiet
    constructor
    · intro mem
      have := quiet _ mem
      cases this
    · intro mem
      have := quiet _ mem
      cases this
  cases link with
  | absent _ _ cstate => exact absurd cstate valid
  | pending _ _ _ cstate => exact absurd cstate valid
  | left _ _ _ cstate => exact absurd cstate valid
  | @granted stale live grant _ _ _ _ _ granted kept =>
      cases grant with
      | exRep | shRep => exact absurd granted.1 valid
      | upgradeRep =>
          obtain ⟨-, -, rfl, -⟩ := granted
          have := silent kept.ignored
          simp [this.1, this.2]
      | invReq | flushReq | wbReq => exact granted.elim
  | held _ _ _ _ live sent =>
      obtain ⟨first, second⟩ := silent live.ignored
      refine ⟨first, second, ?_⟩
      cases sent <;> simp

/-- A cache that may write has sent no answer. -/
theorem Link.writer_silent (link : Link limited view cache down up)
    (writer : cache.cstate = .exclusive ∨ cache.cstate = .modified)
    (data : Data Line) :
    .wbRep data ∉ up := by
  have valid : cache.cstate ≠ .invalid := by
    rcases writer with same | same <;> simp [same]
  cases link with
  | absent _ _ cstate => exact absurd cstate valid
  | pending _ _ _ cstate => exact absurd cstate valid
  | left _ _ _ cstate => exact absurd cstate valid
  | granted => simp
  | @held _ _ answered upgrade _ _ _ copy _ sent =>
      cases answered with
      | false => cases sent <;> simp
      | true =>
          rw [Copy, if_pos (Or.inl rfl)] at copy
          rcases writer with same | same <;> simp [same] at copy

/-- A cache that receives a reply has no modified copy. -/
theorem Grant.not_modified {grant : ToCache Line}
    (granted : Grant view cache [] grant) :
    cache.cstate ≠ .modified := by
  cases grant with
  | exRep | shRep | upgradeRep => simp [granted.1]
  | invReq | flushReq | wbReq => exact granted.elim

theorem Link.invalid_of_pending (link : Link limited view cache down up)
    (pending : view.pending = true) :
    cache.cstate = .invalid := by
  cases link with
  | absent _ other => simp [pending] at other
  | pending _ _ _ cstate => exact cstate
  | granted _ other => simp [pending] at other
  | held _ other => simp [pending] at other
  | left _ other => simp [pending] at other

/-- A copy of a line that is modified for the directory. -/
theorem Link.modified_of_valid (link : Link limited view cache down up)
    (valid : cache.cstate ≠ .invalid) (modified : view.dstate = .modified)
    (ignored : Ignored down) (silent : ∀ data, .wbRep data ∉ up) :
    cache.cstate = .modified := by
  cases link with
  | absent _ _ cstate => exact absurd cstate valid
  | pending _ _ _ cstate => exact absurd cstate valid
  | left _ _ _ cstate => exact absurd cstate valid
  | @granted stale live grant _ _ _ _ _ granted =>
      have request := ignored grant (by simp)
      cases grant with
      | exRep | shRep | upgradeRep => cases request
      | invReq | flushReq | wbReq => exact granted.elim
  | @held _ _ answered upgrade _ _ _ copy _ sent =>
      have unanswered : answered = false := by
        cases answered with
        | false => rfl
        | true =>
            cases sent with
            | answer data => exact absurd (by simp) (silent data)
            | answerUpgrade data => exact absurd (by simp) (silent data)
            | upgradeAnswer data => exact absurd (by simp) (silent data)
      rw [Copy, if_neg (by simp [unanswered, modified]), if_pos modified]
        at copy
      exact copy

end Link

/-! ## Steps of a cache -/

/-- No read of the DRAM is outstanding while a cache may write. -/
theorem Inv.no_reads (inv : Inv config system) {core : Fin n}
    (writer : (system.caches core).cstate = .exclusive ∨
      (system.caches core).cstate = .modified) :
    system.fromDram = [] ∧ .readReq ∉ system.toDram := by
  have owned := (inv.base.links core).owned_of_writer writer
  have valid : (system.caches core).cstate ≠ .invalid := by
    rcases writer with same | same <;> simp [same]
  have sharer := (inv.base.links core).sharer_of_valid valid
  have none : readsOf system = 0 := by
    rw [inv.base.reads, if_neg]
    intro waits
    cases isHead : system.queue with
    | nil =>
        rw [isHead] at waits
        cases waits
    | cons req rest =>
        rw [isHead] at waits
        obtain ⟨shares, isRequest, -⟩ :=
          (inv.head req rest isHead).fetching waits
        obtain ⟨owner, -, only⟩ := inv.base.entry.owned owned
        have same : req.requester = core :=
          ((only _).mp shares).trans ((only core).mp sharer).symm
        have link := inv.base.links core
        have pending : pendingOf system.queue core = true := by
          rw [isHead, pendingOf]
          simp [same, isRequest, ShmemReq.retrieving, show
            req.waitForData = true from waits]
        exact valid (link.invalid_of_pending pending)
  obtain ⟨counted, fetched⟩ := Nat.add_eq_zero_iff.mp none
  refine ⟨List.eq_nil_of_length_eq_zero fetched, fun mem => ?_⟩
  exact List.countP_eq_zero.mp counted _ mem rfl

/-- A cache that has just written has the only copy. -/
theorem dataOk_of_writer (inv : Inv config system) (core : Fin n)
    (writer : (system.caches core).cstate = .modified)
    (current : (system.caches core).data = some system.lastWrite)
    (buffers : ∀ req ∈ system.queue, req.dataBuf = none) :
    DataOk config system none := by
  have link := inv.base.links core
  have owned := link.owned_of_writer (Or.inr writer)
  have valid : (system.caches core).cstate ≠ .invalid := by simp [writer]
  have sharer := link.sharer_of_valid valid
  obtain ⟨owner, -, only⟩ := inv.base.entry.owned owned
  have others : ∀ other, other ≠ core →
      (system.allocate config).sharers other = false := by
    intro other different
    by_contra shares
    exact different (((only other).mp (by simpa using shares)).trans
      ((only core).mp sharer).symm)
  obtain ⟨fromDram, toDram⟩ := inv.no_reads (Or.inr writer)
  refine ⟨fun other isValid => ?_, fun other data mem => ?_,
    fun other data mem => ?_, ?_, ?_, buffers, ?_,
    Or.inr (Or.inl ⟨owned, core, sharer, Or.inl writer⟩)⟩
  · by_cases same : other = core
    · rw [same]
      exact current
    · have shares := (inv.base.links other).sharer_of_valid isValid
      rw [viewOf, others other same] at shares
      cases shares
  · exfalso
    by_cases same : other = core
    · subst same
      obtain ⟨first, second, -⟩ := link.quiet valid data
      exact mem.elim first second
    · obtain ⟨first, second, -⟩ :=
        (inv.base.links other).no_data (others other same) data
      exact mem.elim first second
  · exfalso
    by_cases same : other = core
    · subst same
      exact mem.elim (link.quiet valid data).2.2
        (link.writer_silent (Or.inr writer) data)
    · obtain ⟨-, -, first, second⟩ :=
        (inv.base.links other).no_data (others other same) data
      exact mem.elim first second
  · rw [fromDram]
    intro data mem
    cases mem
  · intro before after same
    exact absurd (by simp [same]) toDram
  · intro data equal
    cases equal

/-- A step of a cache that does not write. -/
theorem DataOk.withLink (dataOk : DataOk config system none) {core : Fin n}
    {cache : Llc Line} {down : List (ToCache Line)}
    {up : List (ToDirectory Line)}
    (copy : cache.cstate ≠ .invalid → cache.data = some system.lastWrite)
    (replies : ∀ data, .exRep data ∈ down ∨ .shRep data ∈ down →
      data = some system.lastWrite)
    (answers : ∀ data, .flushRep data ∈ up ∨ .wbRep data ∈ up →
      data = some system.lastWrite)
    (soiled : (system.allocate config).sharers core = true →
      Soiled (system.allocate config).dstate (system.caches core)
        (system.toCache core) (system.toDirectory core) →
      Soiled (system.allocate config).dstate cache down up) :
    DataOk config (system.withLink core cache down up system.lastWrite)
      none := by
  refine ⟨fun other => ?_, fun other => ?_, fun other => ?_, dataOk.fetched,
    dataOk.reads, dataOk.buffers, nofun, ?_⟩
  · change (update system.caches core cache other).cstate ≠ _ →
      (update system.caches core cache other).data = _
    by_cases same : other = core
    · rw [same, update_self]
      exact copy
    · rw [update_of_ne same]
      exact dataOk.copies other
  · change ∀ data, _ ∈ update system.toCache core down other ∨
      _ ∈ update system.toCache core down other → _
    by_cases same : other = core
    · rw [same, update_self]
      exact replies
    · rw [update_of_ne same]
      exact dataOk.replies other
  · change ∀ data, _ ∈ update system.toDirectory core up other ∨
      _ ∈ update system.toDirectory core up other → _
    by_cases same : other = core
    · rw [same, update_self]
      exact answers
    · rw [update_of_ne same]
      exact dataOk.answers other
  · rcases dataOk.memory with clean | ⟨owned, other, shares, dirty⟩ | handed
    · exact Or.inl clean
    · refine Or.inr (Or.inl ⟨owned, other, shares, ?_⟩)
      change Soiled _ (update system.caches core cache other)
        (update system.toCache core down other)
        (update system.toDirectory core up other)
      by_cases same : other = core
      · subst same
        rw [update_self, update_self, update_self]
        exact soiled shares dirty
      · rw [update_of_ne same, update_of_ne same,
          update_of_ne same]
        exact dirty
    · exact absurd rfl handed.1

/-- No modified data is written back to the directory in answer to a `WB_REQ`,
no cache that is being upgraded answers one, and no flushed data has to wait
for other sharers. -/
def Keeps (config : Config n) (system : System n Line) :
    System.Action n Line → Prop
  | .toCache core => ∀ down, system.toCache core = .wbReq :: down →
      (system.caches core).cstate ≠ .modified ∧
      (system.caches core).cstate ≠ .sharedUpgrading
  | .toDirectory core _ => ∀ data up req rest,
      system.toDirectory core = .flushRep data :: up →
      system.queue = req :: rest → req.msgType = .upgradeReq →
      ∀ other, other ≠ core → (system.allocate config).sharers other = false
  | .access _ _ | .evict _ | .replace _ _ | .toDram | .fromDram _ => True

/-- Messages that are added or removed. -/
theorem Soiled.mono {dstate : DirectoryState} {cache cache' : Llc Line}
    {down down' : List (ToCache Line)} {up up' : List (ToDirectory Line)}
    (soiled : Soiled dstate cache down up)
    (same : cache.cstate = .modified → cache'.cstate = .modified)
    (received : ∀ data, .exRep data ∈ down → .exRep data ∈ down')
    (sent : ∀ data, .flushRep data ∈ up → .flushRep data ∈ up') :
    Soiled dstate cache' down' up' := by
  rcases soiled with modified | ⟨data, mem⟩ | ⟨owned, data, mem⟩
  · exact Or.inl (same modified)
  · exact Or.inr (Or.inl ⟨data, sent data mem⟩)
  · exact Or.inr (Or.inr ⟨owned, data, received data mem⟩)

/-- A cache with a clean copy. -/
theorem Link.not_soiled {limited : Prop} {view : View} {cache : Llc Line}
    {down : List (ToCache Line)} {up : List (ToDirectory Line)}
    (link : Link limited view cache down up)
    (valid : cache.cstate ≠ .invalid) (clean : cache.cstate ≠ .modified)
    (dstate : DirectoryState) :
    ¬ Soiled dstate cache down up := by
  rintro (modified | ⟨data, mem⟩ | ⟨-, data, mem⟩)
  · exact clean modified
  · exact (link.quiet valid data).2.2 mem
  · exact (link.quiet valid data).1 mem

theorem CacheMove.dataOk {core : Fin n} {cache : Llc Line}
    {down : List (ToCache Line)} {up : List (ToDirectory Line)} {last : Line}
    (move : CacheMove (system.caches core) (system.toCache core)
      (system.toDirectory core) system.lastWrite cache down up last)
    (inv : Inv config system)
    (inv' : Inv config (system.withLink core cache down up last))
    (dataOk : DataOk config system none)
    (keeps : ∀ later, system.toCache core = .wbReq :: later →
      later = down → (system.caches core).cstate ≠ .modified ∧
        (system.caches core).cstate ≠ .sharedUpgrading) :
    DataOk config (system.withLink core cache down up last) none := by
  have link := inv.base.links core
  have copies := dataOk.copies core
  have replies := dataOk.replies core
  have answers := dataOk.answers core
  have tidy := fun (same : last = system.lastWrite) =>
    same ▸ @DataOk.withLink _ _ _ _ dataOk core cache down up
  generalize received : system.toCache core = down₀ at *
  generalize sent : system.toDirectory core = up₀ at *
  have append : ∀ (msg : ToDirectory Line) {msgType : ReqType},
      msg.reqType = some msgType → ∀ data,
      .flushRep data ∈ up₀ ++ [msg] ∨ .wbRep data ∈ up₀ ++ [msg] →
      data = some system.lastWrite := by
    intro msg msgType request data mem
    refine answers data (mem.imp ?_ ?_)
    · intro mem
      refine (List.mem_append.mp mem).resolve_right fun new => ?_
      rw [← List.mem_singleton.mp new] at request
      cases request
    · intro mem
      refine (List.mem_append.mp mem).resolve_right fun new => ?_
      rw [← List.mem_singleton.mp new] at request
      cases request
  cases move with
  | load => exact tidy rfl copies replies answers fun _ soiled => soiled
  | store writes kept =>
      have valid : (system.caches core).cstate ≠ .invalid := by
        rcases writes with same | same <;> simp [same]
      refine dataOk_of_writer inv' core (by simp) ?_ dataOk.buffers
      rw [System.withLink_caches_self]
      rcases kept with new | ⟨old, same⟩
      · exact new
      · rw [same]
        exact old.trans (copies valid)
  | wait => exact tidy rfl copies replies answers fun _ soiled => soiled
  | @request _ _ _ op msg msgType invalid request =>
      exact tidy rfl (fun valid => absurd invalid valid) replies
        (append msg request) fun _ soiled => soiled.mono id (fun _ mem => mem)
          fun _ mem => List.mem_append_left _ mem
  | upgrade shared =>
      refine tidy rfl (fun _ => copies (by simp [shared])) replies
        (append .upgradeReq rfl) fun _ soiled => soiled.mono ?_
          (fun _ mem => mem) fun _ mem => List.mem_append_left _ mem
      intro modified
      simp [shared] at modified
  | evict valid =>
      by_cases modified : (system.caches core).cstate = .modified
      · rw [if_pos modified] at inv' tidy ⊢
        refine tidy rfl (fun impossible => absurd rfl impossible) replies
          (fun data mem => ?_) fun _ _ =>
            Or.inr (Or.inl ⟨_, List.mem_append_right _
              (List.mem_singleton_self _)⟩)
        simp only [List.mem_append, List.mem_singleton] at mem
        rcases mem with (old | new) | (old | new)
        · exact answers data (Or.inl old)
        · cases new
          exact copies valid
        · exact answers data (Or.inr old)
        · cases new
      · rw [if_neg modified] at inv' tidy ⊢
        refine tidy rfl (fun impossible => absurd rfl impossible) replies
          (fun data mem => answers data ?_) fun _ soiled =>
            absurd soiled (link.not_soiled valid modified _)
        simpa using mem
  | @ignore down up last msg request invalid =>
      refine tidy rfl copies (fun data mem => replies data ?_) answers
        fun _ soiled => soiled.mono id (fun data mem => ?_) fun _ mem => mem
      · exact mem.imp (List.mem_cons_of_mem _) (List.mem_cons_of_mem _)
      · refine (List.mem_cons.mp mem).resolve_left ?_
        rintro rfl
        cases request
  | invalidate valid clean =>
      refine tidy rfl (fun impossible => absurd rfl impossible)
        (fun data mem => replies data ?_) (fun data mem => answers data ?_)
        fun _ soiled => absurd soiled (link.not_soiled valid clean _)
      · exact mem.imp (List.mem_cons_of_mem _) (List.mem_cons_of_mem _)
      · simpa using mem
  | flush valid =>
      refine tidy rfl (fun impossible => absurd rfl impossible)
        (fun data mem => replies data ?_) (fun data mem => ?_)
        fun _ _ => Or.inr (Or.inl ⟨_, List.mem_append_right _
          (List.mem_singleton_self _)⟩)
      · exact mem.imp (List.mem_cons_of_mem _) (List.mem_cons_of_mem _)
      · simp only [List.mem_append, List.mem_singleton] at mem
        rcases mem with (old | new) | (old | new)
        · exact answers data (Or.inl old)
        · cases new
          exact copies valid
        · exact answers data (Or.inr old)
        · cases new
  | writeBack valid =>
      obtain ⟨clean, settled⟩ := keeps _ rfl rfl
      rw [if_neg settled, if_neg settled] at inv' tidy ⊢
      refine tidy rfl (fun _ => copies valid)
        (fun data mem => replies data ?_) (fun data mem => ?_)
        fun _ soiled => absurd soiled (link.not_soiled valid clean _)
      · exact mem.imp (List.mem_cons_of_mem _) (List.mem_cons_of_mem _)
      · simp only [List.mem_append, List.mem_singleton] at mem
        rcases mem with (old | new) | (old | new)
        · exact answers data (Or.inl old)
        · cases new
        · exact answers data (Or.inr old)
        · cases new
          exact copies valid
  | @fill _ _ _ _ _ grant _ reply valid current wrote sends =>
      obtain ⟨rfl, granted, live, -⟩ := link.of_reply reply
      have known : grant.dataWith (system.caches core) =
          some system.lastWrite := by
        cases grant with
        | exRep data => exact replies data (Or.inl (List.mem_cons_self ..))
        | shRep data => exact replies data (Or.inr (List.mem_cons_self ..))
        | upgradeRep => exact copies (by simp [granted.1])
        | invReq | flushReq | wbReq => exact absurd rfl reply
      by_cases modified : cache.cstate = .modified
      · refine dataOk_of_writer inv' core (by simp [modified]) ?_
          dataOk.buffers
        rw [System.withLink_caches_self]
        exact current known
      · obtain rfl := wrote.resolve_right modified
        have silent : ∀ data, .flushRep data ∉ up ∧ .wbRep data ∉ up := by
          rintro data
          rcases sends with rfl | rfl <;> simp
        refine tidy rfl (fun _ => current known)
          (fun data mem => replies data ?_) (fun data mem => ?_) ?_
        · exact mem.imp (List.mem_cons_of_mem _) (List.mem_cons_of_mem _)
        · exact absurd mem (by simp [silent])
        · rintro - (isModified | ⟨data, mem⟩ | ⟨owned, -⟩)
          · exact absurd isModified granted.not_modified
          · cases mem
          · have link' := inv'.base.links core
            refine absurd ?_ modified
            simpa using link'.modified_of_valid (by simpa using valid) owned
              (by simpa [System.withLink] using live.ignored)
              (by simpa [System.withLink] using fun data => (silent data).2)

/-! ## Steps of the directory -/

theorem not_dirty (clean : (system.allocate config).dstate = .uncached ∨
    (system.allocate config).dstate = .shared) :
    ¬ Dirty config system := by
  rintro ⟨owned, -⟩
  rcases clean with same | same <;> simp [same] at owned

theorem Joins.not_dirty {entry' : DirectoryEntry n}
    (joins : Joins config (system.allocate config) req entry') :
    ¬ Dirty config system := by
  rcases joins.states with ⟨uncached, -⟩ | ⟨shared, -⟩
  · exact Coherence.not_dirty (Or.inl uncached)
  · exact Coherence.not_dirty (Or.inr shared)

/-- Requests of the directory carry no data. -/
theorem DataOk.sendRequests (dataOk : DataOk config system none)
    {toCache : Fin n → List (ToCache Line)} {entry : DirectoryEntry n}
    {queue : List (ShmemReq n Line)}
    (old : ∀ core msg, msg ∈ system.toCache core → msg ∈ toCache core)
    (new : ∀ core msg, msg ∈ toCache core →
      msg ∈ system.toCache core ∨ msg.repType = none)
    (buffers : ∀ req ∈ queue, req.dataBuf = none)
    (same : Dirty config system → entry = system.allocate config) :
    DataOk config
      { system with
        toCache := toCache, entry := some entry, queue := queue } none := by
  refine ⟨dataOk.copies, fun core data mem => dataOk.replies core data ?_,
    dataOk.answers, dataOk.fetched, dataOk.reads, buffers, nofun, ?_⟩
  · refine mem.imp (fun mem => ?_) fun mem => ?_
    · exact (new core _ mem).resolve_right nofun
    · exact (new core _ mem).resolve_right nofun
  · rcases dataOk.memory with clean | dirty | handed
    · exact Or.inl clean
    · refine Or.inr (Or.inl ?_)
      obtain rfl := same dirty
      obtain ⟨owned, core, shares, soiled⟩ := dirty
      exact ⟨owned, core, shares, soiled.mono id
        (fun data mem => old core _ mem) fun _ mem => mem⟩
    · exact absurd rfl handed.1

theorem buffers_modifyHead {queue : List (ShmemReq n Line)}
    (buffers : ∀ req ∈ queue, req.dataBuf = none)
    {change : ShmemReq n Line → ShmemReq n Line}
    (same : ∀ req, (change req).dataBuf = req.dataBuf) :
    ∀ req ∈ queue.modifyHead change, req.dataBuf = none := by
  cases queue with
  | nil => exact nofun
  | cons first rest =>
      intro req mem
      rw [List.modifyHead_cons] at mem
      rcases List.mem_cons.mp mem with rfl | later
      · rw [same]
        exact buffers first (List.mem_cons_self ..)
      · exact buffers req (List.mem_cons_of_mem first later)

theorem mem_update_append {toCache : Fin n → List (ToCache Line)}
    {receiver core : Fin n} {msg other : ToCache Line}
    (mem : other ∈ update toCache receiver
      (toCache receiver ++ [msg]) core) :
    other ∈ toCache core ∨ (other = msg ∧ core = receiver) := by
  by_cases same : core = receiver
  · subst same
    rw [update_self] at mem
    rcases List.mem_append.mp mem with old | new
    · exact Or.inl old
    · exact Or.inr ⟨List.mem_singleton.mp new, rfl⟩
  · rw [update_of_ne same] at mem
    exact Or.inl mem

theorem mem_update_of_mem {toCache : Fin n → List (ToCache Line)}
    {receiver core : Fin n} {msg other : ToCache Line}
    (mem : other ∈ toCache core) :
    other ∈ update toCache receiver
      (toCache receiver ++ [msg]) core := by
  by_cases same : core = receiver
  · subst same
    rw [update_self]
    exact List.mem_append_left _ mem
  · rwa [update_of_ne same]

theorem Outcome.dataOk_waits {cached : Option (Data Line)}
    (outcome : Outcome config system req cached (next, false))
    (full : ¬ config.maxHwSharers < n)
    (dataOk : DataOk config system cached) :
    DataOk config next none := by
  cases outcome with
  | @asks msg receivers nodup told allows _ noData =>
      subst noData
      rw [sendEach_request nodup fun core mem => (allows core mem).repType]
      refine dataOk.sendRequests (fun core other mem => ?_)
        (fun core other mem => ?_) dataOk.buffers fun _ => rfl
      · dsimp only [System.setEntry]
        split_ifs
        · exact List.mem_append_left _ mem
        · exact mem
      · dsimp only [System.setEntry] at mem
        split_ifs at mem with told
        · rcases List.mem_append.mp mem with old | new
          · exact Or.inl old
          · rw [List.mem_singleton.mp new]
            exact Or.inr (allows core told).repType
        · exact Or.inl mem
  | surplus limited => exact absurd limited full
  | @fetch entry' joins noData =>
      subst noData
      have clean := dataOk.memory.resolve_right
        (not_or.mpr ⟨joins.not_dirty, fun handed => handed.1 rfl⟩)
      refine ⟨dataOk.copies, dataOk.replies, dataOk.answers, dataOk.fetched,
        fun before after same => ?_,
        buffers_modifyHead dataOk.buffers fun _ => rfl, nofun, Or.inl ?_⟩
      · change system.toDram ++ [.readReq] = _ at same
        rcases List.eq_nil_or_concat after with rfl | ⟨after, last, rfl⟩
        · have := List.append_inj_left' same rfl
          rw [← this]
          exact clean
        · rw [List.concat_eq_append, ← List.cons_append, ← List.append_assoc]
            at same
          exact dataOk.reads before after (List.append_inj_left' same rfl)
      · change stored (system.toDram ++ [.readReq]) system.dram = _
        rw [stored_append]
        exact clean
  | @forward entry' forwarder joins noData =>
      subst noData
      rw [sendMsg_request _ _ rfl]
      refine dataOk.sendRequests (fun core other => mem_update_of_mem)
        (fun core other mem => ?_)
        (buffers_modifyHead dataOk.buffers fun _ => rfl)
        fun dirty => absurd dirty joins.not_dirty
      rcases mem_update_append mem with old | ⟨rfl, -⟩
      · exact Or.inl old
      · exact Or.inr rfl

theorem Outcome.dataOk_completes {cached : Option (Data Line)}
    (outcome : Outcome config system req cached (next, true))
    (ready : Ready config system req rest cached)
    (dataOk : DataOk config system cached) :
    DataOk config (next.dequeue req rest) none := by
  have buffers : ∀ other ∈ rest, other.dataBuf = none := fun other mem =>
    dataOk.buffers other (by
      rw [ready.queue]
      exact List.mem_cons_of_mem req mem)
  cases outcome with
  | @reply entry' data joins known =>
      have current : data = some system.lastWrite := by
        rcases known with given | ⟨-, -, buffer⟩
        · exact dataOk.given data given
        · have none := dataOk.buffers req (by
            rw [ready.queue]
            exact List.mem_cons_self ..)
          rw [none] at buffer
          cases buffer
      refine ⟨dataOk.copies, fun core other mem => ?_, dataOk.answers,
        dataOk.fetched, dataOk.reads, buffers, nofun, ?_⟩
      · rcases mem with mem | mem
        · rcases mem_update_append mem with old | ⟨same, -⟩
          · exact dataOk.replies core other (Or.inl old)
          · split_ifs at same
            cases same
            exact current
        · rcases mem_update_append mem with old | ⟨same, -⟩
          · exact dataOk.replies core other (Or.inr old)
          · split_ifs at same
            cases same
            exact current
      · rcases dataOk.memory with clean | dirty | ⟨-, uncached, head⟩
        · exact Or.inl clean
        · exact absurd dirty joins.not_dirty
        · obtain ⟨first, tail, isHead, kinds⟩ := head
          obtain ⟨rfl, -⟩ := List.cons.inj (ready.queue.symm.trans isHead)
          have notSh : req.msgType ≠ .shReq := by
            rcases kinds with same | same <;> simp [same]
          have modified : entry'.dstate = .modified := by
            rcases joins.states with ⟨-, -, -, kind, -⟩ | ⟨shared, -⟩
            · by_contra other
              exact notSh (kind.mpr other)
            · rw [uncached] at shared
              cases shared
          refine Or.inr (Or.inl ⟨Or.inr modified, req.requester, ?_,
            Or.inr (Or.inr ⟨modified, data, ?_⟩)⟩)
          · change entry'.sharers req.requester = true
            simp [joins.sharers]
          · change ToCache.exRep data ∈ update system.toCache _ _ _
            rw [update_self, if_neg (by simp [modified])]
            exact List.mem_append_right _ (List.mem_singleton_self _)
  | upgrade isUpgrade shared only =>
      have clean := dataOk.memory.resolve_right (not_or.mpr
        ⟨not_dirty (Or.inr shared), fun handed => by
          simpa [shared] using handed.2.1⟩)
      refine ⟨dataOk.copies, fun core other mem => ?_, dataOk.answers,
        dataOk.fetched, dataOk.reads, buffers, nofun, Or.inl clean⟩
      refine dataOk.replies core other (mem.imp (fun mem => ?_) fun mem => ?_)
      · exact (mem_update_append mem).resolve_right (by simp)
      · exact (mem_update_append mem).resolve_right (by simp)
  | nullified isNullify uncached =>
      have clean := dataOk.memory.resolve_right (not_or.mpr
        ⟨not_dirty (Or.inl uncached), ?_⟩)
      · exact ⟨dataOk.copies, dataOk.replies, dataOk.answers, dataOk.fetched,
          dataOk.reads, buffers, nofun, Or.inl clean⟩
      · rintro ⟨-, -, first, tail, isHead, kinds⟩
        obtain ⟨rfl, -⟩ := List.cons.inj (ready.queue.symm.trans isHead)
        rcases kinds with same | same <;> simp [isNullify] at same

theorem Serves.dataOk {cached : Option (Data Line)}
    (serves : Serves config system cached next)
    (full : ¬ config.maxHwSharers < n) :
    DataOk config system cached → DataOk config next none := by
  induction serves with
  | idle => exact id
  | waits _ outcome => exact outcome.dataOk_waits full
  | completes ready _ outcome _ ih =>
      exact fun dataOk => ih
        (outcome.dataOk_completes ready dataOk)

/-! ## Messages that the directory receives -/

section Link

variable {limited : Prop} {view : View} {cache : Llc Line}
variable {down : List (ToCache Line)} {up : List (ToDirectory Line)}

theorem Ignored.no_exRep (ignored : Ignored down) (data : Data Line) :
    .exRep data ∉ down := by
  intro mem
  have := ignored _ mem
  cases this

/-- A cache that has given up a clean copy. -/
theorem Link.not_soiled_of_invRep
    (link : Link limited view cache down (.invRep :: up))
    (dstate : DirectoryState) :
    ¬ Soiled dstate cache down (.invRep :: up) := by
  generalize same : ToDirectory.invRep :: up = sent at link
  cases link with
  | absent _ _ _ _ requesting =>
      cases requesting with
      | idle => cases same
      | queued => cases same
      | sent _ request =>
          obtain ⟨rfl, -⟩ := List.cons.inj same
          cases request
  | pending => cases same
  | granted => cases same
  | held _ _ _ _ _ answers =>
      subst same
      rcases answers.kinds with impossible | ⟨data, impossible⟩ <;>
        cases impossible
  | @left _ before after answered upgrade removal _ _ _ cstate ignored sent
      removes answers leaving =>
      have requests : ∀ data, .flushRep data ∉ after := by
        rcases leaving with ⟨-, rfl, -⟩ | ⟨-, -, requesting, -⟩
        · simp
        · intro data mem
          cases requesting with
          | idle => cases mem
          | queued => cases mem
          | sent _ request =>
              rw [← List.mem_singleton.mp mem] at request
              cases request
      cases before with
      | cons first before =>
          obtain ⟨rfl, -⟩ := List.cons.inj same
          rcases sent.kinds with impossible | ⟨data, impossible⟩ <;>
            cases impossible
      | nil =>
          obtain ⟨rfl, -⟩ := List.cons.inj same
          rintro (modified | ⟨data, mem⟩ | ⟨-, data, mem⟩)
          · rw [cstate] at modified
            cases modified
          · rcases List.mem_cons.mp mem with impossible | later
            · cases impossible
            · exact requests data later
          · exact ignored.no_exRep data mem

/-- A cache that has written back its copy. -/
theorem Link.not_soiled_of_wbRep {data : Data Line}
    (link : Link limited view cache down (.wbRep data :: up))
    (dstate : DirectoryState) :
    ¬ Soiled dstate cache down (.wbRep data :: up) := by
  generalize same : ToDirectory.wbRep data :: up = sent at link
  cases link with
  | absent _ _ _ _ requesting =>
      cases requesting with
      | idle => cases same
      | queued => cases same
      | sent _ request =>
          obtain ⟨rfl, -⟩ := List.cons.inj same
          cases request
  | pending => cases same
  | granted => cases same
  | @held _ _ answered upgrade _ _ _ copy live sent =>
      subst same
      obtain ⟨rfl, further⟩ := sent.tail_answer
      rw [Copy, if_pos (Or.inl rfl)] at copy
      rintro (modified | ⟨other, mem⟩ | ⟨-, other, mem⟩)
      · rw [modified] at copy
        simp at copy
      · cases sent <;> simp at mem
      · exact live.ignored.no_exRep other mem
  | @left _ before after answered upgrade removal _ _ _ cstate ignored sent
      removes answers leaving =>
      have requests : ∀ data, .flushRep data ∉ after := by
        rcases leaving with ⟨-, rfl, -⟩ | ⟨-, -, requesting, -⟩
        · simp
        · intro data mem
          cases requesting with
          | idle => cases mem
          | queued => cases mem
          | sent _ request =>
              rw [← List.mem_singleton.mp mem] at request
              cases request
      cases before with
      | nil =>
          obtain ⟨rfl, -⟩ := List.cons.inj same
          exact removes.elim
      | cons first before =>
          obtain ⟨rfl, -⟩ := List.cons.inj same
          obtain ⟨rfl, further⟩ := sent.tail_answer
          rintro (modified | ⟨other, mem⟩ | ⟨-, other, mem⟩)
          · rw [cstate] at modified
            cases modified
          · rcases List.mem_append.mp mem with old | new
            · cases sent <;> simp at old
            · rcases List.mem_cons.mp new with removed | later
              · subst removed
                exact absurd removes.1 (by simp)
              · exact requests other later
          · exact ignored.no_exRep other mem

/-- A cache whose reply waits for data. -/
theorem Link.not_soiled_of_pending (link : Link limited view cache down up)
    (pending : view.pending = true) (dstate : DirectoryState) :
    ¬ Soiled dstate cache down up := by
  cases link with
  | absent _ other => simp [pending] at other
  | granted _ other => simp [pending] at other
  | held _ other => simp [pending] at other
  | left _ other => simp [pending] at other
  | pending _ _ _ cstate ignored =>
      rintro (modified | ⟨data, mem⟩ | ⟨-, data, mem⟩)
      · rw [cstate] at modified
        cases modified
      · cases mem
      · exact ignored.no_exRep data mem

end Link

/-- The line is not modified if one of its sharers is clean and has an
exclusive copy. -/
theorem Inv.not_dirty_of (inv : Inv config system) {core : Fin n}
    (sharer : (system.allocate config).sharers core = true)
    (clean : ∀ dstate, ¬ Soiled dstate (system.caches core)
      (system.toCache core) (system.toDirectory core)) :
    ¬ Dirty config system := by
  rintro ⟨owned, other, shares, soiled⟩
  obtain ⟨owner, -, only⟩ := inv.base.entry.owned owned
  obtain rfl : other = core :=
    ((only other).mp shares).trans ((only core).mp sharer).symm
  exact clean _ soiled

/-- The directory has taken a message of a cache. -/
theorem mem_of_mem_taken {toDirectory : Fin n → List (ToDirectory Line)}
    {core other : Fin n} {msg first : ToDirectory Line}
    {up : List (ToDirectory Line)} (found : toDirectory core = first :: up)
    (mem : msg ∈ update toDirectory core up other) :
    msg ∈ toDirectory other := by
  by_cases same : other = core
  · subst same
    rw [update_self] at mem
    rw [found]
    exact List.mem_cons_of_mem first mem
  · rwa [update_of_ne same] at mem

/-- A message of a cache with a new entry of the directory. -/
theorem DataOk.taken (dataOk : DataOk config system none) {core : Fin n}
    {first : ToDirectory Line} {up : List (ToDirectory Line)}
    {entry : DirectoryEntry n} {cached : Option (Data Line)}
    (found : system.toDirectory core = first :: up)
    (given : ∀ data, cached = some data → data = some system.lastWrite)
    (memory : stored system.toDram system.dram = some system.lastWrite ∨
      HandedOn config ((system.taken core up).setEntry entry) cached) :
    DataOk config ((system.taken core up).setEntry entry) cached := by
  refine ⟨dataOk.copies, dataOk.replies, fun other data mem => ?_,
    dataOk.fetched, dataOk.reads, dataOk.buffers, given,
    memory.imp id Or.inr⟩
  refine dataOk.answers other data (mem.imp (fun mem => ?_) fun mem => ?_)
  · exact mem_of_mem_taken found mem
  · exact mem_of_mem_taken found mem

theorem Prepares.dataOk {action : System.Action n Line}
    {cached : Option (Data Line)}
    (prepares : Prepares config system action next cached)
    (inv : Inv config system) (keeps : Keeps config system action)
    (dataOk : DataOk config system none) :
    DataOk config next cached := by
  have clean : ¬ Dirty config system →
      stored system.toDram system.dram = some system.lastWrite :=
    fun tidy => dataOk.memory.resolve_right
      (not_or.mpr ⟨tidy, fun handed => handed.1 rfl⟩)
  cases prepares with
  | @request core msg msgType up _ found request =>
      refine ⟨dataOk.copies, dataOk.replies, fun other data mem => ?_,
        dataOk.fetched, dataOk.reads, fun req mem => ?_, nofun, ?_⟩
      · refine dataOk.answers other data (mem.imp (fun mem => ?_)
          fun mem => ?_)
        · exact mem_of_mem_taken found mem
        · exact mem_of_mem_taken found mem
      · rcases List.mem_append.mp mem with old | new
        · exact dataOk.buffers req old
        · rw [List.mem_singleton.mp new]
          rfl
      · rcases dataOk.memory with clean | dirty | handed
        · exact Or.inl clean
        · refine Or.inr (Or.inl ?_)
          obtain ⟨owned, other, shares, soiled⟩ := dirty
          refine ⟨owned, other, shares, soiled.mono id (fun _ mem => mem)
            fun data mem => ?_⟩
          change _ ∈ update system.toDirectory core up other
          by_cases same : other = core
          · subst same
            rw [update_self]
            rw [found] at mem
            refine (List.mem_cons.mp mem).resolve_left ?_
            rintro rfl
            cases request
          · rwa [update_of_ne same]
        · exact absurd rfl handed.1
  | replace empty =>
      refine ⟨dataOk.copies, dataOk.replies, dataOk.answers, dataOk.fetched,
        dataOk.reads, fun req mem => ?_, nofun, ?_⟩
      · rw [List.mem_singleton.mp mem]
        rfl
      · rcases dataOk.memory with clean | dirty | handed
        · exact Or.inl clean
        · exact Or.inr (Or.inl dirty)
        · exact absurd rfl handed.1
  | @invRep core up _ found =>
      refine dataOk.taken found nofun (Or.inl (clean ?_))
      obtain ⟨sharer, -⟩ := inv.gives_up found (Or.inl rfl)
      refine inv.not_dirty_of sharer fun dstate => ?_
      have link := inv.base.links core
      rw [found] at link ⊢
      exact link.not_soiled_of_invRep dstate
  | @flushToDram core up data _ _ found alone kinds =>
      have current := dataOk.answers core data (by simp [found])
      have emptied : system.toDram ++ [.writeReq data] =
          system.toDram ++ [.writeReq (some system.lastWrite)] := by
        rw [current]
      refine ⟨dataOk.copies, dataOk.replies, fun other data mem => ?_,
        dataOk.fetched, fun before after same => ?_, dataOk.buffers,
        fun other same => ?_, Or.inl ?_⟩
      · refine dataOk.answers other data (mem.imp (fun mem => ?_)
          fun mem => ?_)
        · exact mem_of_mem_taken found mem
        · exact mem_of_mem_taken found mem
      · change system.toDram ++ [.writeReq data] = _ at same
        rcases List.eq_nil_or_concat after with rfl | ⟨after, last, rfl⟩
        · have := List.append_inj_right' same rfl
          cases this
        · rw [List.concat_eq_append, ← List.cons_append, ← List.append_assoc]
            at same
          exact dataOk.reads before after (List.append_inj_left' same rfl)
      · rcases kinds with ⟨-, none⟩ | ⟨req, rest, -, ⟨-, none⟩ | ⟨-, some⟩⟩
        · rw [none] at same
          cases same
        · rw [none] at same
          cases same
        · rw [some] at same
          cases same
          exact current
      · change stored (system.toDram ++ [.writeReq data]) system.dram = _
        rw [stored_append]
        exact current
  | @flushTaken core up data req rest _ found alone isHead kinds =>
      have current := dataOk.answers core data (by simp [found])
      refine dataOk.taken found (fun other same => ?_) (Or.inr ?_)
      · cases same
        exact current
      · exact ⟨Option.some_ne_none data, DirectoryEntry.without_last _ _ alone,
          req, rest, isHead, kinds⟩
  | @flushKept core up data req rest _ found isHead kind others =>
      obtain ⟨other, different, shares⟩ := others
      have impossible := keeps data up req rest found isHead kind other
        different
      rw [shares] at impossible
      cases impossible
  | @wbRep core up data req rest _ found isHead isSh =>
      have current := dataOk.answers core data (by simp [found])
      refine dataOk.taken found (fun other same => ?_) (Or.inl (clean ?_))
      · cases same
        exact current
      · obtain ⟨sharer, -⟩ := inv.wbRep_head found
        refine inv.not_dirty_of sharer fun dstate => ?_
        have link := inv.base.links core
        rw [found] at link ⊢
        exact link.not_soiled_of_wbRep dstate
  | @dramReply data later req rest _ found isHead waits =>
      have current := dataOk.fetched data (by simp [found])
      obtain ⟨shares, isRequest, -⟩ :=
        (inv.head req rest isHead).fetching waits
      refine ⟨dataOk.copies, fun core other mem => ?_, dataOk.answers,
        fun other mem => ?_, dataOk.reads, fun other mem => ?_, nofun,
        Or.inl (clean ?_)⟩
      · rcases mem with mem | mem
        · rcases mem_update_append mem with old | ⟨same, -⟩
          · exact dataOk.replies core other (Or.inl old)
          · split_ifs at same
            cases same
            exact current
        · rcases mem_update_append mem with old | ⟨same, -⟩
          · exact dataOk.replies core other (Or.inr old)
          · split_ifs at same
            cases same
            exact current
      · refine dataOk.fetched other ?_
        rw [found]
        exact List.mem_cons_of_mem data mem
      · refine dataOk.buffers other ?_
        rw [isHead]
        exact List.mem_cons_of_mem req mem
      · refine inv.not_dirty_of shares fun dstate => ?_
        refine (inv.base.links req.requester).not_soiled_of_pending ?_ dstate
        change pendingOf system.queue req.requester = true
        rw [isHead, pendingOf]
        simp [ShmemReq.retrieving, waits, isRequest]

/-! ## The result -/

theorem Move.dataOk {action : System.Action n Line}
    (move : Move config system action next) (ok : config.Ok)
    (full : ¬ config.maxHwSharers < n) (inv : Inv config system)
    (keeps : Keeps config system action)
    (dataOk : DataOk config system none) :
    DataOk config next none := by
  have inv' := move.inv inv ok
  cases move with
  | @cache core cache down up last acts moves =>
      refine moves.dataOk inv inv' dataOk fun later found same => ?_
      subst same
      rcases acts with unchanged | rfl
      · rw [found] at unchanged
        simp at unchanged
      · exact keeps later found
  | @dram msg later found =>
      cases msg with
      | readReq =>
          refine ⟨dataOk.copies, dataOk.replies, dataOk.answers,
            fun data mem => ?_, fun before after same => ?_, dataOk.buffers,
            nofun, ?_⟩
          · rcases List.mem_append.mp mem with old | new
            · exact dataOk.fetched data old
            · rw [List.mem_singleton.mp new]
              exact dataOk.reads [] later found
          · exact dataOk.reads (.readReq :: before) after (by
              rw [found, List.cons_append]
              exact congrArg _ same)
          · have memory := dataOk.memory
            rw [found] at memory
            exact memory
      | writeReq data =>
          refine ⟨dataOk.copies, dataOk.replies, dataOk.answers,
            dataOk.fetched, fun before after same => ?_, dataOk.buffers,
            nofun, ?_⟩
          · exact dataOk.reads (.writeReq data :: before) after (by
              rw [found, List.cons_append]
              exact congrArg _ same)
          · have memory := dataOk.memory
            rw [found] at memory
            exact memory
  | directory handled =>
      obtain ⟨mid, cached, prepares, ⟨rfl, rfl, -⟩ | serves⟩ := handled
      · exact prepares.dataOk inv keeps dataOk
      · exact serves.dataOk full (prepares.dataOk inv keeps dataOk)

theorem dataOk_start (initial : Line) :
    DataOk config (System.start initial : System n Line) none :=
  ⟨fun _ valid => absurd rfl valid, by simp [System.start],
    by simp [System.start], nofun, by simp [System.start], nofun, nofun,
    Or.inl rfl⟩

/-- The value of the line.  A reply with data has the value of the last write,
and so has the DRAM when no cache has the line and no message is in flight. -/
theorem data_value (full : config.FullMap) (positive : 1 ≤ n)
    (reached : System.ReachedWhile config (Keeps config) initial system) :
    (∀ core data, .shRep data ∈ system.toCache core ∨
        .exRep data ∈ system.toCache core →
      data = some system.lastWrite) ∧
    ((∀ entry, system.entry = some entry → entry.dstate = .uncached) →
      (∀ core, system.toCache core = [] ∧ system.toDirectory core = []) →
      system.toDram = [] → system.fromDram = [] →
      system.dram = some system.lastWrite) := by
  have ok := full.ok positive
  have both : Inv config system ∧ DataOk config system none := by
    refine invariant_of_reflTransGen (fun system => Inv config system ∧
      DataOk config system none) ?_ ⟨inv_start initial, dataOk_start initial⟩
      reached
    rintro state next ⟨inv, dataOk⟩ ⟨action, keeps, step⟩
    obtain ⟨other, same, moves⟩ :=
      step_moves inv ok (inv.steady full.not_limited action) step
    cases same
    exact ⟨moves.inv inv ok,
      moves.dataOk ok full.not_limited inv keeps dataOk⟩
  obtain ⟨inv, dataOk⟩ := both
  refine ⟨fun core data mem => dataOk.replies core data mem.symm,
    fun uncached _ written _ => ?_⟩
  have state : (system.allocate config).dstate = .uncached := by
    cases found : system.entry with
    | none => simp [System.allocate, found, DirectoryEntry.fresh]
    | some entry => simp [System.allocate, found, uncached entry found]
  have clean := dataOk.memory.resolve_right (not_or.mpr
    ⟨not_dirty (Or.inl state), fun handed => handed.1 rfl⟩)
  rw [written] at clean
  exact clean

/-- A cache writes the line and evicts it, and the DRAM stores it. -/
theorem data_value_evicted :
    ∃ system : System 2 Nat,
      System.ReachedWhile ⟨.msi, 2, none⟩ (Keeps ⟨.msi, 2, none⟩) 0 system ∧
      system.lastWrite = 7 ∧ system.dram = some 7 := by
  have first : System.ReachedWhile ⟨.msi, 2, none⟩ (Keeps ⟨.msi, 2, none⟩) 0
      (System.start 0 : System 2 Nat) := .refl
  have missed := first.tail ⟨.access 0 (.write 7), trivial, rfl⟩
  have received := missed.tail ⟨.toDirectory 0 0,
    (fun _ _ _ _ found => by cases found), rfl⟩
  have read := received.tail ⟨.toDram, trivial, rfl⟩
  have replied := read.tail ⟨.fromDram 0, trivial, rfl⟩
  have written := replied.tail ⟨.toCache 0,
    (fun _ found => by cases found), rfl⟩
  have evicted := written.tail ⟨.evict 0, trivial, rfl⟩
  have flushed := evicted.tail ⟨.toDirectory 0 0,
    (fun _ _ _ _ _ isHead => by cases isHead), rfl⟩
  have stored := flushed.tail ⟨.toDram, trivial, rfl⟩
  have full : Config.FullMap (⟨.msi, 2, none⟩ : Config 2) := rfl
  refine ⟨_, stored, rfl, ?_⟩
  refine (data_value full (by decide) stored).2 ?_ ?_ rfl rfl
  · intro entry found
    cases found
    rfl
  · exact Fin.forall_fin_two.mpr ⟨⟨rfl, rfl⟩, rfl, rfl⟩

/-- Cache 1 writes the line, cache 0 reads it, and both evict their clean
copies: the value that cache 1 has written back is lost. -/
theorem written_back_data_lost :
    ∃ system : System 2 Nat,
      System.Reachable ⟨.msi, 2, none⟩ 0 system ∧
      (∀ entry, system.entry = some entry → entry.dstate = .uncached) ∧
      (∀ core, system.toCache core = [] ∧ system.toDirectory core = []) ∧
      system.toDram = [] ∧ system.fromDram = [] ∧
      system.lastWrite = 7 ∧ system.dram = some 0 := by
  have ran : ∃ system : System 2 Nat,
      (System.start 0).run ⟨.msi, 2, none⟩
        [.access 1 (.write 7), .toDirectory 1 0, .toDram, .fromDram 0,
          .toCache 1, .access 0 .read, .toDirectory 0 0, .toCache 1,
          .toDirectory 1 0, .toCache 0, .evict 0, .evict 1,
          .toDirectory 0 0, .toDirectory 1 0] = some system ∧
      (∀ entry, system.entry = some entry → entry.dstate = .uncached) ∧
      (∀ core, system.toCache core = [] ∧ system.toDirectory core = []) ∧
      system.toDram = [] ∧ system.fromDram = [] ∧
      system.lastWrite = 7 ∧ system.dram = some 0 := by
    refine ⟨_, rfl, ?_, ?_, rfl, rfl, rfl, rfl⟩
    · intro entry found
      cases found
      rfl
    · exact Fin.forall_fin_two.mpr ⟨⟨rfl, rfl⟩, rfl, rfl⟩
  obtain ⟨system, ran, rest⟩ := ran
  exact ⟨system, System.reachable_of_run ran, rest⟩

end ChipletSniper.Coherence
