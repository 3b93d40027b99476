import ChipletSniper.Coherence.Links

/-!
# The steps of a cache change its own link only
-/

namespace ChipletSniper.Coherence

variable {n : Nat} {Line : Type}

namespace System

/-- A state of one link, and the last write. -/
def withLink (system : System n Line) (core : Fin n) (cache : Llc Line)
    (down : List (ToCache Line)) (up : List (ToDirectory Line))
    (last : Line) : System n Line :=
  { system with
    caches := Function.update system.caches core cache
    toCache := Function.update system.toCache core down
    toDirectory := Function.update system.toDirectory core up
    lastWrite := last }

section Local

variable (system : System n Line) (core : Fin n) (cache : Llc Line)
variable (down : List (ToCache Line)) (up : List (ToDirectory Line))
variable (last : Line)

@[simp]
theorem withLink_caches_self :
    (system.withLink core cache down up last).caches core = cache := by
  simp [withLink]

@[simp]
theorem setCache_withLink (other : Llc Line) :
    (system.withLink core cache down up last).setCache core other =
      system.withLink core other down up last := by
  simp [withLink, setCache]

@[simp]
theorem sendToDirectory_withLink (msg : ToDirectory Line) :
    (system.withLink core cache down up last).sendToDirectory core msg =
      system.withLink core cache down (up ++ [msg]) last := by
  simp [withLink, sendToDirectory]

/-- Every state is a state of its links. -/
theorem eq_withLink :
    system = system.withLink core (system.caches core) (system.toCache core)
      (system.toDirectory core) system.lastWrite := by
  simp [withLink]

@[simp]
theorem perform_read :
    (system.withLink core cache down up last).perform core .read =
      system.withLink core cache down up last :=
  rfl

@[simp]
theorem perform_readEx :
    (system.withLink core cache down up last).perform core .readEx =
      system.withLink core { cache with cstate := .modified } down up
        last := by
  rw [perform, setCache_withLink, withLink_caches_self]

@[simp]
theorem perform_write (line : Line) :
    (system.withLink core cache down up last).perform core (.write line) =
      system.withLink core
        { cache with cstate := .modified, data := some line } down up
        line := by
  rw [perform, setCache_withLink, withLink_caches_self]
  rfl

@[simp]
theorem processUpgradeReqToDirectory_withLink :
    (system.withLink core cache down up
        last).processUpgradeReqToDirectory core =
      system.withLink core { cache with cstate := .sharedUpgrading } down
        (up ++ [.upgradeReq]) last := by
  rw [processUpgradeReqToDirectory, withLink_caches_self, setCache_withLink,
    sendToDirectory_withLink]

end Local

/-- An exclusive operation in a cache that may write. -/
theorem perform_exclusive (system : System n Line) (core : Fin n)
    (cache : Llc Line) (down : List (ToCache Line))
    (up : List (ToDirectory Line)) (last : Line) {op : MemOp Line}
    (exclusive : op.exclusive = true) :
    ∃ data last', (system.withLink core cache down up last).perform core op =
        system.withLink core
          { cache with cstate := .modified, data := data } down up last' ∧
      (data = some last' ∨ data = cache.data ∧ last' = last) := by
  cases op with
  | read => cases exclusive
  | readEx => exact ⟨cache.data, last, perform_readEx .., Or.inr ⟨rfl, rfl⟩⟩
  | write line => exact ⟨some line, line, perform_write .., Or.inl rfl⟩

/-- The waiters of a cache that has the line. -/
theorem wakeUp_link {limited : Prop} {view : View} (core : Fin n)
    {down : List (ToCache Line)} :
    ∀ (waiters : List (MemOp Line)) (system : System n Line)
      (cache : Llc Line) (up : List (ToDirectory Line)) (last : Line),
      Link limited view { cache with waiters := [] } down up →
      cache.waiters = waiters → cache.cstate.readable = true →
      ∃ cache' up' last',
        wakeUp core waiters (system.withLink core cache down up last) =
          .ok (system.withLink core cache' down up' last') ∧
        Link limited view cache' down up' ∧
        (cache.data = some last → cache'.data = some last') ∧
        (last' = last ∨ cache'.cstate = .modified) ∧
        cache'.cstate ≠ .invalid ∧
        (cache.cstate = .modified → cache'.cstate = .modified) ∧
        (up' = up ∨ up' = up ++ [.upgradeReq]) := by
  intro waiters
  induction waiters with
  | nil =>
      intro system cache up last link idle readable
      refine ⟨cache, up, last, rfl, ?_, id, Or.inl rfl, ?_, id, Or.inl rfl⟩
      · rw [← idle] at link
        exact link
      · rintro invalid
        simp [invalid, CacheState.readable] at readable
  | cons op rest ih =>
      intro system cache up last link idle readable
      unfold wakeUp
      simp only [withLink_caches_self]
      by_cases exclusive : op.exclusive = true
      · by_cases shared : cache.cstate = .shared
        · rw [if_pos ⟨exclusive, shared⟩,
            processUpgradeReqToDirectory_withLink]
          refine ⟨_, _, _, rfl, ?_, id, Or.inl rfl, by simp, ?_, Or.inr rfl⟩
          · have upgraded := link.upgrade shared exclusive rest
            rw [← idle] at upgraded
            exact upgraded
          · simp [shared]
        · have writes : cache.cstate = .exclusive ∨
              cache.cstate = .modified := by
            cases same : cache.cstate with
            | invalid | sharedUpgrading =>
                simp [same, CacheState.readable] at readable
            | shared => exact absurd same shared
            | exclusive => exact Or.inl rfl
            | modified => exact Or.inr rfl
          have permitted : cache.cstate.writable = true ∨
              cache.cstate = .exclusive := by
            rcases writes with same | same
            · exact Or.inr same
            · exact Or.inl (by simp [same, CacheState.writable])
          rw [if_neg (by simp [shared]), if_neg (by simp [permitted]),
            if_neg (by simp [exclusive])]
          obtain ⟨data, last', performed, kept⟩ :=
            perform_exclusive system core cache down up last exclusive
          rw [performed, withLink_caches_self, setCache_withLink]
          obtain ⟨cache', up', final, run, linked, keeps, wrote, valid,
            modified, sent⟩ :=
            ih system
              { cache with cstate := .modified, data := data,
                           waiters := rest } up last'
              (link.store writes data) rfl rfl
          refine ⟨cache', up', final, run, linked, ?_, ?_, valid,
            fun _ => modified rfl, sent⟩
          · intro current
            refine keeps ?_
            rcases kept with new | ⟨old, same⟩
            · exact new
            · rw [same]
              exact old.trans current
          · exact Or.inr (modified rfl)
      · rw [if_neg (by simp [exclusive]), if_neg (by simp [exclusive]),
          if_neg (by simp [readable])]
        have isRead : op = .read := by
          cases op with
          | read => rfl
          | readEx | write => exact absurd rfl exclusive
        subst isRead
        rw [perform_read, withLink_caches_self, setCache_withLink]
        exact ih system { cache with waiters := rest } up
          last link rfl readable

end System

/-! ## What a cache can do -/

/-- The data that a cache has when it has received a reply. -/
def ToCache.dataWith (cache : Llc Line) : ToCache Line → Data Line
  | .exRep data | .shRep data => data
  | .upgradeRep | .invReq | .flushReq | .wbReq => cache.data

/-- What a step of a cache does with its link and the last write. -/
inductive CacheMove (cache : Llc Line) : List (ToCache Line) →
    List (ToDirectory Line) → Line → Llc Line → List (ToCache Line) →
    List (ToDirectory Line) → Line → Prop
  | load {down : List (ToCache Line)} {up : List (ToDirectory Line)}
      {last : Line} :
      CacheMove cache down up last cache down up last
  | store {down : List (ToCache Line)} {up : List (ToDirectory Line)}
      {last last' : Line} {data : Data Line} :
      cache.cstate = .exclusive ∨ cache.cstate = .modified →
      (data = some last' ∨ data = cache.data ∧ last' = last) →
      CacheMove cache down up last
        { cache with cstate := .modified, data := data } down up last'
  | wait {down : List (ToCache Line)} {up : List (ToDirectory Line)}
      {last : Line} {op : MemOp Line} :
      CacheMove cache down up last
        { cache with waiters := cache.waiters ++ [op] } down up last
  | request {down : List (ToCache Line)} {up : List (ToDirectory Line)}
      {last : Line} {op : MemOp Line} {msg : ToDirectory Line}
      {msgType : ReqType} :
      cache.cstate = .invalid → msg.reqType = some msgType →
      CacheMove cache down up last { cache with waiters := [op] } down
        (up ++ [msg]) last
  | upgrade {down : List (ToCache Line)} {up : List (ToDirectory Line)}
      {last : Line} {waiters : List (MemOp Line)} :
      cache.cstate = .shared →
      CacheMove cache down up last
        { cache with cstate := .sharedUpgrading, waiters := waiters } down
        (up ++ [.upgradeReq]) last
  | evict {down : List (ToCache Line)} {up : List (ToDirectory Line)}
      {last : Line} :
      cache.cstate ≠ .invalid →
      CacheMove cache down up last cache.drop down
        (up ++ [if cache.cstate = .modified then .flushRep cache.data
          else .invRep]) last
  | ignore {down : List (ToCache Line)} {up : List (ToDirectory Line)}
      {last : Line} {msg : ToCache Line} :
      msg.repType = none → cache.cstate = .invalid →
      CacheMove cache (msg :: down) up last cache down up last
  | invalidate {down : List (ToCache Line)} {up : List (ToDirectory Line)}
      {last : Line} :
      cache.cstate ≠ .invalid → cache.cstate ≠ .modified →
      CacheMove cache (.invReq :: down) up last cache.drop down
        (up ++ [.invRep]) last
  | flush {down : List (ToCache Line)} {up : List (ToDirectory Line)}
      {last : Line} :
      cache.cstate ≠ .invalid →
      CacheMove cache (.flushReq :: down) up last cache.drop down
        (up ++ [.flushRep cache.data]) last
  | writeBack {down : List (ToCache Line)} {up : List (ToDirectory Line)}
      {last : Line} :
      cache.cstate ≠ .invalid →
      CacheMove cache (.wbReq :: down) up last
        { cache with cstate :=
            if cache.cstate = .sharedUpgrading then .sharedUpgrading
            else .shared } down
        (up ++ [.wbRep (if cache.cstate = .sharedUpgrading then none
          else cache.data)]) last
  | fill {down : List (ToCache Line)} {up up' : List (ToDirectory Line)}
      {last last' : Line} {grant : ToCache Line} {cache' : Llc Line} :
      grant.repType ≠ none → cache'.cstate ≠ .invalid →
      (grant.dataWith cache = some last → cache'.data = some last') →
      (last' = last ∨ cache'.cstate = .modified) →
      (up' = up ∨ up' = up ++ [.upgradeReq]) →
      CacheMove cache (grant :: down) up last cache' down up' last'

namespace System

variable {limited : Prop} {view : View} {cache : Llc Line}
variable {down : List (ToCache Line)} {up : List (ToDirectory Line)}
variable {last : Line}

/-- An operation of a core. -/
theorem access_link (system : System n Line) (core : Fin n) (last : Line)
    (op : MemOp Line) (link : Link limited view cache down up) :
    ∃ cache' up' last',
      (system.withLink core cache down up last).processShmemReqFromPrevCache
          core op = .ok (system.withLink core cache' down up' last') ∧
      CacheMove cache down up last cache' down up' last' ∧
      Link limited view cache' down up' := by
  unfold processShmemReqFromPrevCache
  simp only [withLink_caches_self]
  by_cases exclusive : op.exclusive = true
  · rw [if_pos exclusive]
    by_cases writes : cache.cstate.writable = true ∨ cache.cstate = .exclusive
    · rw [if_pos writes]
      have may : cache.cstate = .exclusive ∨ cache.cstate = .modified := by
        cases same : cache.cstate <;>
          simp [same, CacheState.writable] at writes ⊢
      obtain ⟨data, last', performed, kept⟩ :=
        perform_exclusive system core cache down up last exclusive
      exact ⟨_, _, _, congrArg Except.ok performed, .store may kept,
        link.store may data⟩
    · rw [if_neg writes]
      unfold initiateDirectoryAccess
      simp only [withLink_caches_self, setCache_withLink, exclusive, if_true]
      by_cases idle : cache.waiters = []
      · rw [if_pos idle]
        by_cases shared : cache.cstate = .shared
        · rw [if_pos shared, processUpgradeReqToDirectory_withLink]
          simp only [idle, List.nil_append]
          exact ⟨_, _, _, rfl, .upgrade shared,
            link.upgrade shared exclusive []⟩
        · have invalid : cache.cstate = .invalid :=
            link.invalid_of_idle idle shared (by
              simpa [not_or] using writes)
          rw [if_neg shared, processExReqToDirectory, check_bind (by
            simpa using invalid), sendToDirectory_withLink]
          simp only [idle, List.nil_append]
          exact ⟨_, _, _, rfl, .request invalid rfl,
            link.request invalid idle rfl (by simp) fun _ => exclusive⟩
      · rw [if_neg idle]
        exact ⟨_, _, _, rfl, .wait, link.wait idle op⟩
  · rw [if_neg exclusive]
    have isRead : op = .read := by
      cases op with
      | read => rfl
      | readEx | write => exact absurd rfl exclusive
    subst isRead
    by_cases readable : cache.cstate.readable = true
    · rw [if_pos readable, perform_read]
      exact ⟨_, _, _, rfl, .load, link⟩
    · rw [if_neg readable]
      unfold initiateDirectoryAccess
      simp only [withLink_caches_self, setCache_withLink, exclusive]
      by_cases idle : cache.waiters = []
      · have invalid : cache.cstate = .invalid :=
          link.invalid_of_idle idle (by
            rintro same
            simp [same, CacheState.readable] at readable) (by
            cases same : cache.cstate <;>
              simp [same, CacheState.readable, CacheState.writable] at readable ⊢)
        rw [if_pos idle]
        simp only [Bool.false_eq_true, if_false, processShReqToDirectory,
          sendToDirectory_withLink, idle, List.nil_append]
        exact ⟨_, _, _, rfl, .request invalid rfl,
          link.request invalid idle rfl (by simp)
            fun other => absurd rfl other⟩
      · rw [if_neg idle]
        exact ⟨_, _, _, rfl, .wait, link.wait idle .read⟩

/-- Evicting the line. -/
theorem evict_link (system : System n Line) (core : Fin n) (last : Line)
    (link : Link limited view cache down up)
    (valid : cache.cstate = .shared ∨ cache.cstate = .exclusive ∨
      cache.cstate = .modified) :
    ∃ cache' up',
      (system.withLink core cache down up last).evict core =
        system.withLink core cache' down up' last ∧
      CacheMove cache down up last cache' down up' last ∧
      Link limited view cache' down up' := by
  refine ⟨cache.drop, _, ?_, .evict ?_, link.evict valid⟩
  · simp only [System.evict, withLink_caches_self, setCache_withLink,
      sendToDirectory_withLink]
    rfl
  · rcases valid with same | same | same <;> simp [same]

/-- A reply that makes the cache hold the line. -/
theorem fill_link (system : System n Line) (core : Fin n)
    {grant : ToCache Line}
    (link : Link limited view cache (grant :: down) up)
    (reply : grant.repType ≠ none) :
    ∃ cache' up' last',
      (system.withLink core cache down up last).handleMsgFromDramDirectory
          core grant = .ok (system.withLink core cache' down up' last') ∧
      CacheMove cache (grant :: down) up last cache' down up' last' ∧
      Link limited view cache' down up' := by
  obtain ⟨rfl, granted, kept, sharer, pending, consistent, queued⟩ :=
    link.of_reply reply
  have holds : ∀ {cstate : CacheState} (data : Data Line),
      Copy view false cstate → cstate ≠ .sharedUpgrading →
      Link limited view ⟨cstate, data, []⟩ down [] :=
    fun data copy other => .held sharer pending consistent copy kept
      .none (fun answered => absurd answered Bool.false_ne_true)
      (Or.inr ⟨other, rfl, queued, rfl⟩)
  cases grant with
  | invReq | flushReq | wbReq => exact granted.elim
  | shRep data =>
      obtain ⟨invalid, shared, waiting⟩ := granted
      obtain ⟨cache', up', last', run, linked, keeps, wrote, valid, -,
        sent⟩ := wakeUp_link core cache.waiters system
        { cache with cstate := .shared, data := data } [] last
        (holds data (by simp [Copy, shared]) (by simp)) rfl rfl
      refine ⟨cache', up', last', ?_,
        .fill reply valid keeps wrote sent, linked⟩
      simp only [handleMsgFromDramDirectory]
      rw [check_bind (by simpa using waiting), insertCacheBlock,
        check_bind (by simpa using invalid), withLink_caches_self,
        setCache_withLink]
      simpa using run
  | exRep data =>
      obtain ⟨invalid, notShared, waits⟩ := granted
      have reduce : ∀ result,
          wakeUp core cache.waiters (system.withLink core
              { cache with cstate := .exclusive, data := data } down
                [] last) = result →
          (system.withLink core cache down []
            last).handleMsgFromDramDirectory core (.exRep data) =
              result := by
        intro result run
        simp only [handleMsgFromDramDirectory]
        rw [check_bind (by simpa using waits.ne_nil),
          insertCacheBlock, check_bind (by simpa using invalid),
          withLink_caches_self, setCache_withLink]
        simpa using run
      by_cases modified : view.dstate = .modified
      · -- the first waiter writes before anything else happens
        rw [if_pos modified] at waits
        obtain ⟨op, rest, waiters, exclusive⟩ := waits
        have isExclusive := exclusive (by simp)
        obtain ⟨data', last₁, performed, kept'⟩ :=
          perform_exclusive system core
            { cache with cstate := .exclusive, data := data } down []
            last isExclusive
        obtain ⟨cache', up', last', run, linked, keeps, wrote, valid,
          stays, sent⟩ := wakeUp_link core rest system
          ⟨.modified, data', rest⟩ [] last₁
          (holds data' (by simp [Copy, modified]) (by simp)) rfl rfl
        refine ⟨cache', up', last', reduce _ ?_,
          .fill reply valid ?_ (Or.inr (stays rfl)) sent, linked⟩
        · rw [waiters] at performed ⊢
          unfold wakeUp
          simp only [withLink_caches_self, isExclusive]
          rw [if_neg (by simp), if_neg (by simp), if_neg (by simp),
            performed, withLink_caches_self, setCache_withLink]
          exact run
        · intro current
          refine keeps ?_
          rcases kept' with new | ⟨old, sameLast⟩
          · exact new
          · rw [sameLast]
            exact old.trans current
      · obtain ⟨cache', up', last', run, linked, keeps, wrote, valid,
          -, sent⟩ := wakeUp_link core cache.waiters system
          { cache with cstate := .exclusive, data := data } [] last
          (holds data (by simp [Copy, notShared, modified])
            (by simp)) rfl rfl
        exact ⟨cache', up', last', reduce _ run,
          .fill reply valid keeps wrote sent, linked⟩
  | upgradeRep =>
      obtain ⟨upgrading, modified, -, waits⟩ := granted
      obtain ⟨cache', up', last', run, linked, keeps, wrote, valid, -,
        sent⟩ := wakeUp_link core cache.waiters system
        { cache with cstate := .modified } [] last
        (holds cache.data (by simp [Copy, modified]) (by simp)) rfl
        rfl
      refine ⟨cache', up', last', ?_,
        .fill reply valid keeps wrote sent, linked⟩
      simp only [handleMsgFromDramDirectory]
      rw [check_bind (by simpa using waits.ne_nil),
        processUpgradeRepFromDramDirectory,
        check_bind (by simpa using upgrading), withLink_caches_self,
        setCache_withLink]
      simpa using run

/-- A cache receives a message. -/
theorem receive_link (system : System n Line) (core : Fin n) (last : Line)
    {msg : ToCache Line} (link : Link limited view cache (msg :: down) up) :
    ∃ cache' up' last',
      (system.withLink core cache down up last).handleMsgFromDramDirectory
          core msg = .ok (system.withLink core cache' down up' last') ∧
      CacheMove cache (msg :: down) up last cache' down up' last' ∧
      Link limited view cache' down up' := by
  by_cases reply : msg.repType = none
  swap
  · exact fill_link system core link reply
  by_cases invalid : cache.cstate = .invalid
  · refine ⟨cache, up, last, ?_, .ignore reply invalid,
      link.ignore reply invalid⟩
    cases msg with
    | exRep | shRep | upgradeRep => cases reply
    | invReq =>
        simp [handleMsgFromDramDirectory, processInvReqFromDramDirectory,
          invalid]
    | flushReq =>
        simp [handleMsgFromDramDirectory, processFlushReqFromDramDirectory,
          invalid]
    | wbReq =>
        simp [handleMsgFromDramDirectory, processWbReqFromDramDirectory,
          invalid]
  · cases msg with
    | exRep | shRep | upgradeRep => cases reply
    | invReq =>
        obtain ⟨clean, linked⟩ := link.invReq invalid
        refine ⟨cache.drop, _, last, ?_, .invalidate invalid clean, linked⟩
        simp only [handleMsgFromDramDirectory, processInvReqFromDramDirectory,
          withLink_caches_self, setCache_withLink, sendToDirectory_withLink]
        rw [if_neg invalid, check_bind clean]
        rfl
    | flushReq =>
        refine ⟨cache.drop, _, last, ?_, .flush invalid,
          link.flushReq invalid⟩
        simp only [handleMsgFromDramDirectory,
          processFlushReqFromDramDirectory, withLink_caches_self,
          setCache_withLink, sendToDirectory_withLink]
        rw [if_neg invalid]
        rfl
    | wbReq =>
        refine ⟨_, _, last, ?_, .writeBack invalid, link.wbReq invalid _⟩
        simp only [handleMsgFromDramDirectory, processWbReqFromDramDirectory,
          withLink_caches_self, setCache_withLink, sendToDirectory_withLink]
        rw [if_neg invalid]
        by_cases upgrading : cache.cstate = .sharedUpgrading
        · simp only [upgrading, if_true]
          rw [← upgrading]
        · simp only [upgrading, if_false]

end System

end ChipletSniper.Coherence
