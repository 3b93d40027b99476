import ChipletSniper.Library.Runs
import ChipletSniper.Threads.BarrierSync
import Mathlib.Algebra.Order.BigOperators.Group.Finset

/-!
# The barrier keeps cores together

Cores that are not in the barrier are below the barrier time, cores taken out
of it run and have not reached the next one, and a release therefore never
starts before the last one is over.
-/

namespace ChipletSniper.Threads

namespace BarrierServer

variable {n : Nat} {server : BarrierServer n}

/-- The invariant between the steps. The core of a thread that is about to
return from `synchronize` without waiting is exempt from its signal. -/
structure Inv (exempt : Option (Fin n)) (server : BarrierServer n) :
    Prop where
  positive : 0 < server.interval
  clock : ∀ {core}, server.acquire core = false →
    server.localClock core < server.nextBarrierTime
  held : ∀ {core}, server.Blocked core →
    ∃ thread, server.running core = some thread ∧
      server.coreThread core = some thread
  apart : ∀ {core}, core ∈ server.toRelease → server.acquire core = false
  nodup : server.toRelease.Nodup
  once : ∀ {first second}, server.running first ≠ none →
    server.running first = server.running second → first = second
  entered : ∀ {core}, server.Blocked core → server.inside core ≠ none
  waiting : ∀ {core time}, server.inside core = some time →
    server.acquire core = true → server.localClock core = time
  passed : ∀ {core time}, server.inside core = some time →
    server.acquire core = false → time < server.nextBarrierTime
  unsignalled : ∀ {core}, server.Blocked core → server.signals core = 0
  signalled : ∀ {core time}, server.inside core = some time →
    ¬ server.Blocked core → exempt ≠ some core → server.signals core = 1
  logged : ∀ advance ∈ server.advances, ∀ core,
    advance.before core ≠ none → advance.time ≤ advance.clocks core
  counted : server.nextBarrierTime =
    server.interval * (server.advances.length + 1)

variable {exempt : Option (Fin n)}

/-! ## Releases and hooks -/

/-- What releasing cores one by one leaves alone. -/
structure Frame (before after : BarrierServer n) : Prop where
  interval : after.interval = before.interval
  hostCores : after.hostCores = before.hostCores
  next : after.nextBarrierTime = before.nextBarrierTime
  clocks : after.localClock = before.localClock
  acquire : after.acquire = before.acquire
  coreThread : after.coreThread = before.coreThread
  inside : after.inside = before.inside
  advances : after.advances = before.advances
  running : after.running = before.running
  shrinks : ∀ core ∈ after.toRelease, core ∈ before.toRelease

theorem Frame.refl (server : BarrierServer n) : Frame server server :=
  ⟨rfl, rfl, rfl, rfl, rfl, rfl, rfl, rfl, rfl, fun _ => id⟩

theorem Frame.trans {first middle last : BarrierServer n}
    (earlier : Frame first middle) (later : Frame middle last) :
    Frame first last :=
  ⟨later.interval.trans earlier.interval,
    later.hostCores.trans earlier.hostCores, later.next.trans earlier.next,
    later.clocks.trans earlier.clocks, later.acquire.trans earlier.acquire,
    later.coreThread.trans earlier.coreThread,
    later.inside.trans earlier.inside, later.advances.trans earlier.advances,
    later.running.trans earlier.running,
    fun core member => earlier.shrinks core (later.shrinks core member)⟩

theorem Frame.blocked {before after : BarrierServer n}
    (frame : Frame before after) {core : Fin n}
    (blocked : after.Blocked core) :
    before.Blocked core := by
  rcases blocked with waits | released
  · exact .inl (frame.acquire ▸ waits)
  · exact .inr (frame.shrinks core released)

/-- The last core of the list is signalled. -/
theorem Inv.release (inv : Inv exempt server) {core : Fin n}
    {rest : List (Fin n)} (split : server.toRelease = rest ++ [core]) :
    Inv exempt
      { server with
        toRelease := rest
        signals := Function.update server.signals core
          (server.signals core + 1) } := by
  have nodup := inv.nodup
  rw [split] at nodup
  have inside : ∀ {other}, other ∈ rest → other ∈ server.toRelease := by
    intro other member
    rw [split]
    exact List.mem_append_left _ member
  have last : core ∈ server.toRelease := by simp [split]
  have removed : core ∉ rest := fun member =>
    (List.disjoint_of_nodup_append nodup) member (List.mem_singleton_self core)
  have still : ∀ {other}, other ≠ core → ¬ (server.acquire other = true ∨
      other ∈ rest) → ¬ server.Blocked other := by
    rintro other different free (waits | released)
    · exact free (.inl waits)
    · rw [split] at released
      rcases List.mem_append.mp released with before | same
      · exact free (.inr before)
      · exact different (List.mem_singleton.mp same)
  refine
    { inv with
      held := fun blocked => inv.held (blocked.imp_right inside)
      apart := fun member => inv.apart (inside member)
      nodup := nodup.of_append_left
      entered := fun blocked => inv.entered (blocked.imp_right inside)
      unsignalled := ?_
      signalled := ?_ }
  · rintro other blocked
    have different : other ≠ core := by
      rintro rfl
      rcases blocked with waits | member
      · have quiet := inv.apart last
        have waits : server.acquire other = true := waits
        rw [quiet] at waits
        cases waits
      · exact removed member
    refine (Function.update_of_ne different _ _).trans ?_
    exact inv.unsignalled (blocked.imp_right inside)
  · intro other time called free spared
    by_cases same : other = core
    · subst same
      refine (Function.update_self _ _ _).trans ?_
      rw [inv.unsignalled (.inr last)]
    · refine (Function.update_of_ne same _ _).trans ?_
      exact inv.signalled called (still same free) spared

theorem Inv.doRelease (inv : Inv exempt server) (count : Nat) :
    Inv exempt (BarrierServer.doRelease count server) ∧
      Frame server (BarrierServer.doRelease count server) := by
  induction count generalizing server with
  | zero => exact ⟨inv, .refl server⟩
  | succ count ih =>
      unfold BarrierServer.doRelease
      cases found : server.toRelease.getLast? with
      | none => exact ⟨inv, .refl server⟩
      | some core =>
          have split : server.toRelease =
              server.toRelease.dropLast ++ [core] := by
            have nonempty : server.toRelease ≠ [] := by
              intro empty
              simp [empty] at found
            have last := List.getLast?_eq_some_getLast nonempty
            rw [found, Option.some.injEq] at last
            rw [last]
            exact (List.dropLast_append_getLast nonempty).symm
          obtain ⟨kept, frame⟩ := ih (inv.release split)
          refine ⟨kept, Frame.trans ?_ frame⟩
          refine ⟨rfl, rfl, rfl, rfl, rfl, rfl, rfl, rfl, rfl, ?_⟩
          intro other member
          exact List.dropLast_subset _ member

/-- A thread that is not in the barrier has no clock to reset. -/
theorem Inv.releaseThread (inv : Inv exempt server) {thread : ThreadId}
    (free : ∀ core, server.Blocked core → server.running core ≠ some thread) :
    Inv exempt (server.releaseThread thread) ∧
      Frame server (server.releaseThread thread) := by
  have same : (fun core =>
      if server.acquire core = true ∧ server.coreThread core = some thread
      then 0 else server.localClock core) = server.localClock := by
    funext core
    refine if_neg ?_
    rintro ⟨waits, mine⟩
    obtain ⟨other, running, entered⟩ := inv.held (.inl waits)
    refine free core (.inl waits) (running.trans ?_)
    rw [← entered, mine]
  unfold BarrierServer.releaseThread
  rw [same]
  exact inv.doRelease 1

theorem Inv.releaseThreads (inv : Inv exempt server)
    {threads : List ThreadId}
    (free : ∀ thread ∈ threads, ∀ core, server.Blocked core →
      server.running core ≠ some thread) :
    Inv exempt (threads.foldl BarrierServer.releaseThread server) ∧
      Frame server (threads.foldl BarrierServer.releaseThread server) := by
  induction threads generalizing server with
  | nil => exact ⟨inv, .refl server⟩
  | cons thread rest ih =>
      obtain ⟨kept, frame⟩ :=
        inv.releaseThread (free thread List.mem_cons_self)
      have later : ∀ other ∈ rest, ∀ core,
          (server.releaseThread thread).Blocked core →
            (server.releaseThread thread).running core ≠ some other := by
        intro other member core blocked
        rw [frame.running]
        exact free other (List.mem_cons_of_mem thread member) core
          (frame.blocked blocked)
      obtain ⟨final, also⟩ := ih kept later
      exact ⟨final, frame.trans also⟩

theorem Inv.hooked (inv : Inv exempt server) {hook : Hook n}
    (legal : server.Legal hook) :
    Inv exempt (server.hooked hook) ∧
      Frame { server with running := hook.running } (server.hooked hook) := by
  have changed : Inv exempt { server with running := hook.running } := by
    refine { inv with held := ?_, once := ?_ }
    · intro core blocked
      obtain ⟨thread, running, entered⟩ := inv.held blocked
      exact ⟨thread, (legal.kept core blocked).trans running, entered⟩
    · intro first second runs same
      exact legal.once first second runs same
  refine changed.releaseThreads ?_
  intro thread member core blocked same
  refine legal.migrated thread member core blocked ?_
  rw [← legal.kept core blocked]
  exact same

/-! ## The loop of `barrierRelease` -/

theorem isBarrierReached_iff :
    server.isBarrierReached = true ↔
      (∀ core, server.running core ≠ none →
        server.nextBarrierTime ≤ server.localClock core) ∧
      ∃ core, server.running core ≠ none := by
  simp only [isBarrierReached, Bool.and_eq_true, List.all_eq_true,
    List.mem_finRange, true_implies, Bool.or_eq_true, Option.isNone_iff_eq_none,
    decide_eq_true_eq, List.any_eq_true, true_and, Option.isSome_iff_ne_none]
  refine and_congr_left fun _ => forall_congr' fun core => ?_
  exact or_iff_not_imp_left

theorem mem_leaving {core : Fin n} :
    core ∈ server.leaving ↔
      server.localClock core < server.nextBarrierTime ∧
        server.acquire core = true := by
  simp [leaving]

theorem Inv.advanceTime (inv : Inv exempt server)
    {before : Fin n → Option ThreadId}
    (reached : ∀ core, before core ≠ none →
      server.nextBarrierTime ≤ server.localClock core) :
    Inv exempt (server.advanceTime before) := by
  have later : server.nextBarrierTime <
      (server.advanceTime before).nextBarrierTime :=
    Nat.lt_add_of_pos_right inv.positive
  refine { inv with clock := ?_, passed := ?_, logged := ?_, counted := ?_ }
  · intro core free
    exact Nat.lt_trans (inv.clock free) later
  · intro core time called free
    exact Nat.lt_trans (inv.passed called free) later
  · intro advance member core runs
    rcases List.mem_append.mp member with earlier | added
    · exact inv.logged advance earlier core runs
    · obtain rfl := List.mem_singleton.mp added
      exact reached core runs
  · calc server.nextBarrierTime + server.interval
        = server.interval * (server.advances.length + 1) + server.interval := by
          rw [← inv.counted]
      _ = server.interval * (server.advances.length + 1 + 1) :=
          (Nat.mul_succ _ _).symm
      _ = _ := by simp [BarrierServer.advanceTime]

/-- The cores below the barrier time are taken out. Only the caller, which
does not wait, is not put on the list. -/
theorem Inv.releaseCores (inv : Inv none server)
    (empty : server.toRelease = []) {caller : Option ThreadId}
    (mine : ∀ core ∈ server.leaving,
      server.coreThread core = caller → exempt = some core) :
    Inv exempt (server.releaseCores caller) := by
  have listed : ∀ {core}, core ∈ (server.releaseCores caller).toRelease ↔
      core ∈ server.leaving ∧ server.coreThread core ≠ caller := by
    intro core
    simp [BarrierServer.releaseCores, empty]
  have waits : ∀ {core}, (server.releaseCores caller).acquire core = true ↔
      server.acquire core = true ∧ core ∉ server.leaving := by
    intro core
    simp [BarrierServer.releaseCores]
  have blocked : ∀ {core}, (server.releaseCores caller).Blocked core →
      server.Blocked core := by
    rintro core (stays | taken)
    · exact .inl (waits.mp stays).1
    · exact .inl (mem_leaving.mp (listed.mp taken).1).2
  have free : ∀ {core}, (server.releaseCores caller).acquire core = false →
      server.acquire core = false ∨ core ∈ server.leaving := by
    intro core out
    by_contra both
    rw [not_or] at both
    have stays := waits.mpr ⟨by simpa using both.1, both.2⟩
    rw [out] at stays
    cases stays
  refine
    { inv with
      clock := ?_
      held := fun stays => inv.held (blocked stays)
      apart := ?_
      nodup := ?_
      entered := fun stays => inv.entered (blocked stays)
      waiting := fun called stays => inv.waiting called (waits.mp stays).1
      passed := ?_
      unsignalled := fun stays => inv.unsignalled (blocked stays)
      signalled := ?_ }
  · intro core out
    rcases free out with before | leaves
    · exact inv.clock before
    · exact (mem_leaving.mp leaves).1
  · intro core taken
    have leaves := (listed.mp taken).1
    cases stays : (server.releaseCores caller).acquire core with
    | false => rfl
    | true => exact absurd leaves (waits.mp stays).2
  · have distinct : (server.leaving.filter fun core =>
        decide (server.coreThread core ≠ caller)).Nodup :=
      ((List.nodup_finRange n).filter _).filter _
    simpa [BarrierServer.releaseCores, empty] using distinct
  · intro core time called out
    rcases free out with before | leaves
    · exact inv.passed called before
    · have low := mem_leaving.mp leaves
      rw [← inv.waiting called low.2]
      exact low.1
  · intro core time called out spared
    by_cases before : server.Blocked core
    · rcases before with stays | taken
      · have leaves : core ∈ server.leaving := by
          by_contra notLeaving
          exact out (.inl (waits.mpr ⟨stays, notLeaving⟩))
        refine absurd ?_ spared
        refine mine core leaves ?_
        by_contra other
        exact out (.inr (listed.mpr ⟨leaves, other⟩))
      · rw [empty] at taken
        cases taken
    · exact inv.signalled called before (by simp)

theorem blocked_releaseCores {caller : Option ThreadId} {core : Fin n} :
    (server.releaseCores caller).Blocked core ↔
      server.acquire core = true ∧ core ∉ server.leaving ∨
        core ∈ server.toRelease ∨
          core ∈ server.leaving ∧ server.coreThread core ≠ caller := by
  simp [Blocked, BarrierServer.releaseCores]

theorem mustWait_iff {caller : Option ThreadId} :
    server.mustWait caller = true ↔
      ∀ core ∈ server.leaving, server.coreThread core ≠ caller := by
  simp [mustWait]

theorem mustWait_eq_false {caller : Option ThreadId} :
    server.mustWait caller = false ↔
      ∃ core ∈ server.leaving, server.coreThread core = caller := by
  simp [mustWait]

/-- What the loop has achieved when it ends. -/
def Ended (server : BarrierServer n) (exempt : Option (Fin n))
    (untilRelease : Bool) : Round n → Prop
  | .returned after => untilRelease = true ∧ Inv none after
  | .resumed after mustWait =>
      Inv exempt after ∧ after.inside = server.inside ∧
        (mustWait = true → Inv none after) ∧
        (mustWait = false → ∀ core, exempt = some core → ¬ after.Blocked core)

theorem Inv.globalTime (inv : Inv exempt server) (time : Time) :
    Inv exempt { server with globalTime := time } :=
  { inv with }

/-- What one round leaves alone. -/
structure Advanced (before after : BarrierServer n) : Prop where
  interval : after.interval = before.interval
  next : after.nextBarrierTime = before.nextBarrierTime + before.interval
  clocks : after.localClock = before.localClock
  acquire : after.acquire = before.acquire
  coreThread : after.coreThread = before.coreThread
  inside : after.inside = before.inside
  listed : after.toRelease = []

/-- One round of the loop: the hook and the advance of the time. -/
theorem Inv.nextRound (inv : Inv none server) (empty : server.toRelease = [])
    {hook : Hook n} (legal : server.Legal hook)
    {before : Fin n → Option ThreadId}
    (reached : ∀ core, before core ≠ none →
      server.nextBarrierTime ≤ server.localClock core) :
    Inv none (server.nextRound before hook) ∧
      Advanced server (server.nextRound before hook) := by
  obtain ⟨kept, frame⟩ :=
    (inv.globalTime server.nextBarrierTime).hooked
      (⟨legal.kept, legal.migrated, legal.once⟩ :
        Legal { server with globalTime := server.nextBarrierTime } hook)
  constructor
  · refine kept.advanceTime fun core runs => ?_
    rw [frame.next, frame.clocks]
    exact reached core runs
  · refine ⟨frame.interval, ?_, frame.clocks, frame.acquire, frame.coreThread,
      frame.inside, ?_⟩
    · exact congrArg₂ (· + ·) frame.next frame.interval
    · refine List.eq_nil_iff_forall_not_mem.mpr fun core member => ?_
      have listed : core ∈ server.toRelease := frame.shrinks core member
      rw [empty] at listed
      cases listed

theorem releaseCores_of_leaving_nil (caller : Option ThreadId)
    (none : server.leaving = []) :
    server.releaseCores caller = server := by
  simp [releaseCores, none]

/-- A core that ran when the release began stays in the barrier until it is
taken out. -/
theorem Inv.reached_stays (inv : Inv none server)
    {after : BarrierServer n} (advanced : Advanced server after)
    (stays : after.leaving = []) {core : Fin n}
    (reached : server.nextBarrierTime ≤ server.localClock core) :
    after.nextBarrierTime ≤ after.localClock core := by
  have waits : server.acquire core = true := by
    cases free : server.acquire core with
    | true => rfl
    | false => exact absurd (inv.clock free) (Nat.not_lt.mpr reached)
  by_contra low
  have leaves : core ∈ after.leaving := by
    refine mem_leaving.mpr ⟨Nat.lt_of_not_le low, ?_⟩
    rw [advanced.acquire, waits]
  rw [stays] at leaves
  cases leaves

theorem Inv.releaseLoop (inv : Inv none server) (empty : server.toRelease = [])
    {caller : Option ThreadId} {untilRelease : Bool}
    {before : Fin n → Option ThreadId} {hooks : Nat → Hook n}
    (mine : ∀ core, server.acquire core = true →
      server.coreThread core = caller → exempt = some core)
    (reached : ∀ core, before core ≠ none →
      server.nextBarrierTime ≤ server.localClock core)
    {bound round : Nat} {result : Round n}
    (looped : BarrierServer.releaseLoop caller untilRelease before hooks bound
      round server = .ok result) :
    server.Ended exempt untilRelease result := by
  induction bound generalizing round server with
  | zero => cases looped
  | succ bound ih =>
      unfold BarrierServer.releaseLoop at looped
      split at looped
      · cases looped
      next legal =>
        have legal := not_not.mp legal
        obtain ⟨kept, advanced⟩ := inv.nextRound empty legal reached
        have callers : ∀ core,
            (server.nextRound before (hooks round)).acquire core = true →
            (server.nextRound before (hooks round)).coreThread core = caller →
              exempt = some core := by
          intro core waits entered
          rw [advanced.acquire] at waits
          rw [advanced.coreThread] at entered
          exact mine core waits entered
        split at looped
        next woken =>
          cases looped
          exact ⟨(Bool.and_eq_true_iff.mp woken).1,
            ((inv.globalTime server.nextBarrierTime).hooked
              ⟨legal.kept, legal.migrated, legal.once⟩).1⟩
        split at looped
        · cases looped
        split at looped
        next stays =>
          rw [releaseCores_of_leaving_nil caller stays] at looped
          have ended := ih kept advanced.listed callers
            (fun core runs =>
              inv.reached_stays advanced stays (reached core runs)) looped
          cases result with
          | returned after => exact ended
          | resumed after mustWait =>
              exact ⟨ended.1, ended.2.1.trans advanced.inside, ended.2.2⟩
        · cases looped
          refine ⟨?_, advanced.inside, ?_, ?_⟩
          · exact kept.releaseCores advanced.listed fun core leaves =>
              callers core (mem_leaving.mp leaves).2
          · intro waits
            refine kept.releaseCores advanced.listed fun core leaves entered => ?_
            exact absurd entered (mustWait_iff.mp waits core leaves)
          · intro returns core spared blocked
            obtain ⟨own, leaves, entered⟩ := mustWait_eq_false.mp returns
            have same := callers own (mem_leaving.mp leaves).2 entered
            rw [spared, Option.some.injEq] at same
            subst same
            rcases blocked_releaseCores.mp blocked with stays | old | taken
            · exact stays.2 leaves
            · rw [advanced.listed] at old
              cases old
            · exact taken.2 entered

/-- A core in the barrier bounds the rounds: the time advances until the core
is taken out. -/
theorem Inv.releaseLoop_ends (inv : Inv none server)
    (empty : server.toRelease = []) {core : Fin n}
    (waits : server.acquire core = true)
    (reached : server.nextBarrierTime ≤ server.localClock core)
    {caller : Option ThreadId} {untilRelease : Bool}
    {before : Fin n → Option ThreadId} {hooks : Nat → Hook n}
    (others : ∀ core, before core ≠ none →
      server.nextBarrierTime ≤ server.localClock core)
    {bound round : Nat}
    (enough : server.localClock core <
      server.nextBarrierTime + bound * server.interval) :
    BarrierServer.releaseLoop caller untilRelease before hooks bound round
      server ≠ .error .rounds := by
  induction bound generalizing round server with
  | zero =>
      rw [Nat.zero_mul] at enough
      exact absurd reached (Nat.not_le.mpr enough)
  | succ bound ih =>
      unfold BarrierServer.releaseLoop
      split
      · nofun
      next legal =>
        obtain ⟨kept, advanced⟩ :=
          inv.nextRound empty (not_not.mp legal) others
        split
        · nofun
        split
        · nofun
        split
        next stays =>
          rw [releaseCores_of_leaving_nil caller stays]
          refine ih kept advanced.listed ?_ ?_ ?_ ?_
          · rw [advanced.acquire, waits]
          · exact inv.reached_stays advanced stays reached
          · exact fun other runs =>
              inv.reached_stays advanced stays (others other runs)
          · rw [advanced.clocks, advanced.next, advanced.interval]
            calc server.localClock core
                < server.nextBarrierTime + (bound + 1) * server.interval :=
                  enough
              _ = server.nextBarrierTime + server.interval +
                    bound * server.interval := by
                  rw [Nat.succ_mul, Nat.add_assoc, Nat.add_comm server.interval]
        · nofun

theorem releaseLoop_ne_unreleased {caller : Option ThreadId}
    {untilRelease : Bool} {before : Fin n → Option ThreadId}
    {hooks : Nat → Hook n} {bound round : Nat} :
    server.releaseLoop caller untilRelease before hooks bound round ≠
      .error .unreleased := by
  induction bound generalizing round server with
  | zero => nofun
  | succ bound ih =>
      unfold BarrierServer.releaseLoop
      split
      · nofun
      split
      · nofun
      split
      · nofun
      split
      · exact ih
      · nofun

/-! ## The calls -/

/-- A core that was taken out is below the barrier time, so a barrier that is
reached has none. -/
theorem Inv.all_released (inv : Inv exempt server)
    (reached : ∀ core, server.running core ≠ none →
      server.nextBarrierTime ≤ server.localClock core) :
    server.toRelease = [] := by
  refine List.eq_nil_iff_forall_not_mem.mpr fun core listed => ?_
  obtain ⟨thread, running, _⟩ := inv.held (.inr listed)
  have low := inv.clock (inv.apart listed)
  refine absurd (reached core ?_) (Nat.not_le.mpr low)
  rw [running]
  nofun

/-- The order in which cores are released does not matter. -/
theorem Inv.shuffle (inv : Inv exempt server) {order : List (Fin n)}
    (same : order.Perm server.toRelease) :
    Inv exempt { server with toRelease := order } := by
  have blocked : ∀ {core}, Blocked { server with toRelease := order } core ↔
      server.Blocked core :=
    or_congr_right same.mem_iff
  exact
    { inv with
      held := fun stays => inv.held (blocked.mp stays)
      apart := fun listed => inv.apart (same.mem_iff.mp listed)
      nodup := same.nodup_iff.mpr inv.nodup
      entered := fun stays => inv.entered (blocked.mp stays)
      unsignalled := fun stays => inv.unsignalled (blocked.mp stays)
      signalled := fun called free =>
        inv.signalled called (mt blocked.mpr free) }

theorem Inv.exempting (inv : Inv none server) : Inv exempt server :=
  { inv with signalled := fun called free _ => inv.signalled called free nofun }

/-- What a release achieves. -/
structure Released (server : BarrierServer n) (exempt : Option (Fin n))
    (untilRelease : Bool) (after : BarrierServer n) (mustWait : Bool) :
    Prop where
  inv : Inv exempt after
  waits : mustWait = true → Inv none after
  inside : untilRelease = false → after.inside = server.inside
  returns : untilRelease = false → mustWait = false →
    ∀ core, exempt = some core → ¬ after.Blocked core

theorem Inv.barrierRelease (inv : Inv none server)
    (reached : ∀ core, server.running core ≠ none →
      server.nextBarrierTime ≤ server.localClock core)
    {caller : Option ThreadId} {untilRelease : Bool} {choices : Choices n}
    (mine : ∀ core, server.acquire core = true →
      server.coreThread core = caller → exempt = some core)
    {after : BarrierServer n} {mustWait : Bool}
    (released : server.barrierRelease caller untilRelease choices =
      .ok (after, mustWait)) :
    server.Released exempt untilRelease after mustWait := by
  have empty := inv.all_released reached
  simp only [BarrierServer.barrierRelease, empty, ne_eq, not_true_eq_false,
    if_false] at released
  obtain ⟨round, looped, ended⟩ := Library.bind_eq_ok.mp released
  have result := inv.releaseLoop empty mine reached looped
  cases round with
  | returned last =>
      cases ended
      obtain ⟨continues, kept⟩ := result
      rw [continues]
      exact ⟨kept.exempting, nofun, nofun, nofun⟩
  | resumed last wait =>
      obtain ⟨kept, inside, waits, returns⟩ := result
      dsimp only at ended
      split at ended
      next same =>
        have same := List.isPerm_iff.mp same
        cases ended
        have frame := ((kept.shuffle same).doRelease last.hostCores).2
        refine ⟨((kept.shuffle same).doRelease _).1, fun stays =>
          (((waits stays).shuffle same).doRelease _).1, fun _ =>
          frame.inside.trans inside, fun _ stays core spared blocked => ?_⟩
        have before : Blocked { last with
            toRelease := choices.shuffle last.toRelease } core :=
          frame.blocked blocked
        exact returns stays core spared (before.imp_right same.mem_iff.mp)
      · cases ended

/-- A release fails only where its loop does. -/
theorem Inv.barrierRelease_ne (inv : Inv none server)
    (reached : ∀ core, server.running core ≠ none →
      server.nextBarrierTime ≤ server.localClock core)
    {caller : Option ThreadId} {untilRelease : Bool} {choices : Choices n}
    {stop : Stop} (inside : stop ≠ .outside)
    (looped : server.releaseLoop caller untilRelease server.running
      choices.hooks choices.bound 0 ≠ .error stop) :
    server.barrierRelease caller untilRelease choices ≠ .error stop := by
  intro failed
  simp only [BarrierServer.barrierRelease, inv.all_released reached, ne_eq,
    not_true_eq_false, if_false] at failed
  rcases Library.bind_eq_error.mp failed with stopped | ⟨round, _, ended⟩
  · exact looped stopped
  · cases round with
    | returned last => cases ended
    | resumed last wait =>
        dsimp only at ended
        split at ended
        · cases ended
        · cases ended
          exact inside rfl

/-- A waiting core is in the barrier for a thread that is not `none`. -/
theorem Inv.no_caller (inv : Inv none server) (core : Fin n)
    (waits : server.acquire core = true)
    (nobody : server.coreThread core = none) :
    none = some core := by
  obtain ⟨thread, _, entered⟩ := inv.held (.inl waits)
  rw [nobody] at entered
  cases entered

theorem Inv.signal (inv : Inv none server) {choices : Choices n}
    {after : BarrierServer n} (signalled : server.signal choices = .ok after) :
    Inv none after := by
  unfold BarrierServer.signal at signalled
  split at signalled
  next reached =>
    obtain ⟨⟨last, wait⟩, released, same⟩ := Library.map_eq_ok.mp signalled
    cases same
    exact (inv.barrierRelease (isBarrierReached_iff.mp reached).1
      inv.no_caller released).inv
  · cases signalled
    exact inv

theorem Inv.signal_ne (inv : Inv none server) {choices : Choices n}
    {stop : Stop} (inside : stop ≠ .outside)
    (looped : server.isBarrierReached = true →
      server.releaseLoop none false server.running choices.hooks
        choices.bound 0 ≠ .error stop) :
    server.signal choices ≠ .error stop := by
  unfold BarrierServer.signal
  split
  next reached =>
    intro failed
    have released := Library.map_eq_error.mp failed
    exact inv.barrierRelease_ne (isBarrierReached_iff.mp reached).1 inside
      (looped reached) released
  · nofun

/-- What the entering core has afterwards. -/
theorem enter_self (server : BarrierServer n) (core : Fin n)
    (thread : ThreadId) (time : Time) :
    (server.enter core thread time).acquire core = true ∧
    (server.enter core thread time).coreThread core = some thread ∧
    (server.enter core thread time).localClock core = time ∧
    (server.enter core thread time).inside core = some time ∧
    (server.enter core thread time).signals core = 0 := by
  simp [BarrierServer.enter]

theorem enter_of_ne (server : BarrierServer n) {core other : Fin n}
    (different : other ≠ core) (thread : ThreadId) (time : Time) :
    (server.enter core thread time).acquire other = server.acquire other ∧
    (server.enter core thread time).coreThread other =
      server.coreThread other ∧
    (server.enter core thread time).localClock other =
      server.localClock other ∧
    (server.enter core thread time).inside other = server.inside other ∧
    (server.enter core thread time).signals other = server.signals other := by
  simp [BarrierServer.enter, different]

/-- A thread that is not in the barrier enters it. -/
theorem Inv.enter (inv : Inv none server) {core : Fin n} {thread : ThreadId}
    {time : Time} (running : server.running core = some thread)
    (outside : server.inside core = none) :
    Inv none (server.enter core thread time) := by
  have unlisted : core ∉ server.toRelease := fun listed =>
    inv.entered (.inr listed) outside
  obtain ⟨waits, mine, clock, called, signals⟩ :=
    enter_self server core thread time
  have blocked : ∀ {other}, other ≠ core →
      ((server.enter core thread time).Blocked other ↔
        server.Blocked other) := by
    intro other different
    obtain ⟨same, _⟩ := enter_of_ne server different thread time
    exact or_congr (by rw [same]) Iff.rfl
  refine
    { inv with
      clock := ?_
      held := ?_
      apart := ?_
      entered := ?_
      waiting := ?_
      passed := ?_
      unsignalled := ?_
      signalled := ?_ }
  all_goals
    intro other
    by_cases same : other = core
  · subst same
    intro free
    rw [waits] at free
    cases free
  · obtain ⟨acquire, _, local', _⟩ :=
      enter_of_ne server same thread time
    rw [acquire, local']
    exact inv.clock
  · subst same
    exact fun _ => ⟨thread, running, mine⟩
  · obtain ⟨_, entered, _⟩ := enter_of_ne server same thread time
    rw [blocked same, entered]
    exact inv.held
  · subst same
    exact fun listed => absurd listed unlisted
  · obtain ⟨acquire, _⟩ := enter_of_ne server same thread time
    rw [acquire]
    exact inv.apart
  · subst same
    rw [called]
    nofun
  · obtain ⟨_, _, _, inside, _⟩ :=
      enter_of_ne server same thread time
    rw [blocked same, inside]
    exact inv.entered
  · subst same
    intro entered _
    rw [called, Option.some.injEq] at entered
    rw [clock, entered]
  · obtain ⟨acquire, _, local', inside, _⟩ :=
      enter_of_ne server same thread time
    rw [acquire, local', inside]
    exact inv.waiting
  · subst same
    intro _ free
    rw [waits] at free
    cases free
  · obtain ⟨acquire, _, _, inside, _⟩ :=
      enter_of_ne server same thread time
    rw [acquire, inside]
    exact inv.passed
  · subst same
    exact fun _ => signals
  · obtain ⟨_, _, _, _, count⟩ :=
      enter_of_ne server same thread time
    rw [blocked same, count]
    exact inv.unsignalled
  · subst same
    exact fun _ free => absurd (.inl waits) free
  · obtain ⟨_, _, _, inside, count⟩ :=
      enter_of_ne server same thread time
    rw [blocked same, inside, count]
    exact inv.signalled

/-- A thread that is not blocked returns from `synchronize`. -/
theorem Inv.leave (inv : Inv exempt server) {core : Fin n}
    (mine : ∀ other, exempt = some other → other = core)
    (free : ¬ server.Blocked core) :
    Inv none (server.leave core) := by
  have others : ∀ {other time}, (server.leave core).inside other = some time →
      other ≠ core ∧ server.inside other = some time := by
    intro other time called
    by_cases same : other = core
    · subst same
      simp [BarrierServer.leave] at called
    · exact ⟨same, by simpa [BarrierServer.leave, same] using called⟩
  refine
    { inv with
      entered := ?_
      waiting := fun called => inv.waiting (others called).2
      passed := fun called => inv.passed (others called).2
      signalled := ?_ }
  · intro other blocked
    have different : other ≠ core := by
      rintro rfl
      exact free blocked
    have same : (server.leave core).inside other = server.inside other := by
      simp [BarrierServer.leave, different]
    rw [same]
    exact inv.entered blocked
  · intro other time called out _
    obtain ⟨different, called⟩ := others called
    exact inv.signalled called out fun spared => different (mine other spared)

/-! ## Steps -/

/-- The state in which `synchronize` decides whether the barrier is reached. -/
theorem Inv.entering (inv : Inv none server) {core : Fin n}
    {thread : ThreadId} (time : Time)
    (running : server.running core = some thread)
    (outside : server.inside core = none) :
    Inv none ((BarrierServer.doRelease 1 server).enter core thread time) ∧
      Frame server (BarrierServer.doRelease 1 server) := by
  obtain ⟨kept, frame⟩ := inv.doRelease 1
  refine ⟨kept.enter ?_ ?_, frame⟩
  · rw [frame.running, running]
  · rw [frame.inside, outside]

theorem Inv.synchronize (inv : Inv none server) {core : Fin n}
    {thread : ThreadId} {time : Time}
    (running : server.running core = some thread)
    (outside : server.inside core = none) {choices : Choices n}
    {after : BarrierServer n} {returned : Bool}
    (called : server.synchronize core thread time choices =
      .ok (after, returned)) :
    Inv none after ∧
      (returned = true → time < after.nextBarrierTime) := by
  unfold BarrierServer.synchronize at called
  split at called
  next early =>
    cases called
    exact ⟨inv, fun _ => early⟩
  obtain ⟨entered, frame⟩ := inv.entering time running outside
  dsimp only at called
  split at called
  next reached =>
    obtain ⟨⟨last, wait⟩, released, same⟩ := Library.bind_eq_ok.mp called
    have mine : ∀ other,
        ((BarrierServer.doRelease 1 server).enter core thread time).acquire
          other = true →
        ((BarrierServer.doRelease 1 server).enter core thread time).coreThread
          other = some thread → some core = some other := by
      intro other waits own
      obtain ⟨mover, runs, placed⟩ := entered.held (.inl waits)
      rw [own] at placed
      cases placed
      refine congrArg some (entered.once ?_ ?_).symm
      · rw [runs]
        nofun
      · refine runs.trans ?_
        rw [← running, ← frame.running]
        rfl
    have result := entered.barrierRelease
      (isBarrierReached_iff.mp reached).1 mine released
    cases wait with
    | true =>
        cases same
        exact ⟨result.waits rfl, nofun⟩
    | false =>
        cases same
        have free := result.returns rfl rfl core rfl
        have inside : last.inside core = some time := by
          rw [result.inside rfl]
          exact (enter_self _ core thread time).2.2.2.1
        refine ⟨result.inv.leave (fun other same =>
          (Option.some.inj same).symm) free, fun _ => ?_⟩
        refine result.inv.passed inside ?_
        exact Bool.eq_false_iff.mpr fun waits => free (.inl waits)
  · cases called
    exact ⟨entered, nofun⟩

theorem Inv.advance (inv : Inv none server)
    (idle : ∀ core, server.running core = none) {choices : Choices n}
    {after : BarrierServer n} (advanced : server.advance choices = .ok after) :
    Inv none after := by
  obtain ⟨⟨last, wait⟩, released, same⟩ := Library.map_eq_ok.mp advanced
  cases same
  exact (inv.barrierRelease (fun core runs => absurd (idle core) runs)
    inv.no_caller released).inv

/-- A stall or an exit up to the test whether the barrier is reached. -/
theorem Inv.stopping (inv : Inv none server) {thread : ThreadId}
    {change : Hook n} (legal : server.Legal change)
    (free : ∀ core, server.Blocked core → server.running core ≠ some thread) :
    Inv none ((server.hooked change).releaseThread thread) ∧
      ((server.hooked change).releaseThread thread).localClock =
        server.localClock := by
  obtain ⟨kept, frame⟩ := inv.hooked legal
  have still : ∀ core, (server.hooked change).Blocked core →
      (server.hooked change).running core ≠ some thread := by
    intro core stays
    have blocked : server.Blocked core := frame.blocked stays
    rw [frame.running]
    have same := legal.kept core blocked
    exact fun stopped => free core blocked (same.symm.trans stopped)
  obtain ⟨final, also⟩ := kept.releaseThread still
  exact ⟨final, also.clocks.trans frame.clocks⟩

variable {next : BarrierServer n}

/-- One step keeps the invariant, and a call returns below the barrier time. -/
theorem Inv.step (inv : Inv none server) {action : Action n}
    {returned : Option (Fin n × Time)}
    (stepped : server.step action = .ok (next, returned)) :
    Inv none next ∧
      ∀ core time, returned = some (core, time) →
        time < next.nextBarrierTime := by
  cases action with
  | synchronize core time choices =>
      simp only [BarrierServer.step] at stepped
      split at stepped
      next thread running outside =>
        obtain ⟨⟨after, done⟩, called, same⟩ := Library.bind_eq_ok.mp stepped
        obtain ⟨kept, below⟩ := inv.synchronize running outside called
        cases done with
        | true =>
            cases same
            refine ⟨kept, ?_⟩
            rintro _ _ ⟨⟩
            exact below rfl
        | false =>
            cases same
            exact ⟨kept, nofun⟩
      · cases stepped
  | stop thread change choices =>
      simp only [BarrierServer.step] at stepped
      split at stepped
      next able =>
        obtain ⟨after, signalled, same⟩ := Library.bind_eq_ok.mp stepped
        cases same
        exact ⟨(inv.stopping able.1 able.2).1.signal signalled, nofun⟩
      · cases stepped
  | resume change =>
      simp only [BarrierServer.step] at stepped
      split at stepped
      next legal =>
        cases stepped
        exact ⟨(inv.hooked legal).1, nofun⟩
      · cases stepped
  | advance choices =>
      simp only [BarrierServer.step] at stepped
      split at stepped
      next idle =>
        obtain ⟨after, advanced, same⟩ := Library.bind_eq_ok.mp stepped
        cases same
        exact ⟨inv.advance idle advanced, nofun⟩
      · cases stepped
  | leave core =>
      simp only [BarrierServer.step] at stepped
      split at stepped
      · cases stepped
      next time called =>
        split at stepped
        · cases stepped
        next free =>
          cases stepped
          refine ⟨inv.leave nofun free, ?_⟩
          rintro _ _ ⟨⟩
          refine inv.passed called ?_
          exact Bool.eq_false_iff.mpr fun waits => free (.inl waits)

/-- The release of a barrier that is reached ends, and how many rounds it may
take depends on the clock of a core that has reached it. -/
theorem Inv.reached_ends (inv : Inv none server)
    (reached : server.isBarrierReached = true) {bound : Nat}
    (enough : ∀ core, server.localClock core < bound)
    {caller : Option ThreadId} {hooks : Nat → Hook n} :
    server.releaseLoop caller false server.running hooks bound 0 ≠
      .error .rounds := by
  obtain ⟨others, core, runs⟩ := isBarrierReached_iff.mp reached
  have waits : server.acquire core = true := by
    cases free : server.acquire core with
    | true => rfl
    | false => exact absurd (inv.clock free) (Nat.not_lt.mpr (others core runs))
  refine inv.releaseLoop_ends (inv.all_released others) waits
    (others core runs) others ?_
  calc server.localClock core
      < bound := enough core
    _ ≤ bound * server.interval := Nat.le_mul_of_pos_right _ inv.positive
    _ ≤ server.nextBarrierTime + bound * server.interval :=
      Nat.le_add_left _ _

/-- What a step may fail with when its releases do not fail with it. -/
theorem Inv.step_ne (inv : Inv none server) {action : Action n} {stop : Stop}
    (inside : stop ≠ .outside)
    (synchronized : ∀ core thread time choices,
      action = .synchronize core time choices →
      server.running core = some thread → server.inside core = none →
      ((BarrierServer.doRelease 1 server).enter core thread
        time).isBarrierReached = true →
      ((BarrierServer.doRelease 1 server).enter core thread time).releaseLoop
        (some thread) false
        ((BarrierServer.doRelease 1 server).enter core thread time).running
        choices.hooks choices.bound 0 ≠ .error stop)
    (stopped : ∀ thread change choices,
      action = .stop thread change choices → server.Legal change →
      (∀ core, server.Blocked core → server.running core ≠ some thread) →
      ((server.hooked change).releaseThread thread).isBarrierReached = true →
      ((server.hooked change).releaseThread thread).releaseLoop none false
        ((server.hooked change).releaseThread thread).running choices.hooks
        choices.bound 0 ≠ .error stop)
    (advanced : ∀ choices, action = .advance choices →
      server.releaseLoop none true server.running choices.hooks
        choices.bound 0 ≠ .error stop) :
    server.step action ≠ .error stop := by
  have outside : (Except.error Stop.outside :
      Except Stop (BarrierServer n × Option (Fin n × Time))) ≠
      .error stop := by
    rintro ⟨⟩
    exact inside rfl
  cases action with
  | synchronize core time choices =>
      simp only [BarrierServer.step]
      split
      next thread running free =>
        intro failed
        rcases Library.bind_eq_error.mp failed with called | ⟨_, _, ended⟩
        · unfold BarrierServer.synchronize at called
          split at called
          · cases called
          dsimp only at called
          split at called
          next reached =>
            rcases Library.bind_eq_error.mp called with released | ⟨_, _, ended⟩
            · exact (inv.entering time running free).1.barrierRelease_ne
                (isBarrierReached_iff.mp reached).1 inside
                (synchronized core thread time choices rfl running free reached)
                released
            · cases ended
          · cases called
        · cases ended
      · exact outside
  | stop thread change choices =>
      simp only [BarrierServer.step]
      split
      next able =>
        intro failed
        rcases Library.bind_eq_error.mp failed with called | ⟨_, _, ended⟩
        · exact (inv.stopping able.1 able.2).1.signal_ne inside
            (stopped thread change choices rfl able.1 able.2) called
        · cases ended
      · exact outside
  | resume change =>
      simp only [BarrierServer.step]
      split
      · nofun
      · exact outside
  | advance choices =>
      simp only [BarrierServer.step]
      split
      next idle =>
        intro failed
        rcases Library.bind_eq_error.mp failed with called | ⟨_, _, ended⟩
        · exact inv.barrierRelease_ne
            (fun core runs => absurd (idle core) runs) inside
            (advanced choices rfl) (Library.map_eq_error.mp called)
        · cases ended
      · exact outside
  | leave core =>
      simp only [BarrierServer.step]
      split
      · exact outside
      · split
        · exact outside
        · nofun

theorem Inv.never_unreleased (inv : Inv none server) (action : Action n) :
    server.step action ≠ .error .unreleased :=
  inv.step_ne nofun (fun _ _ _ _ _ _ _ _ => releaseLoop_ne_unreleased)
    (fun _ _ _ _ _ _ _ => releaseLoop_ne_unreleased)
    (fun _ _ => releaseLoop_ne_unreleased)

/-- A bound on all the clocks of the cores. -/
def clockBound (server : BarrierServer n) : Time :=
  ∑ core, server.localClock core + 1

theorem localClock_lt_clockBound (core : Fin n) :
    server.localClock core < server.clockBound :=
  Nat.lt_succ_of_le
    (Finset.single_le_sum (fun _ _ => Nat.zero_le _) (Finset.mem_univ core))

theorem Inv.synchronize_ends (inv : Inv none server) (core : Fin n)
    (time : Time) {choices : Choices n}
    (enough : server.clockBound + time < choices.bound) :
    server.step (.synchronize core time choices) ≠ .error .rounds := by
  refine inv.step_ne nofun ?_ nofun nofun
  rintro _ thread _ _ ⟨⟩ running free reached
  obtain ⟨entered, frame⟩ := inv.entering time running free
  refine entered.reached_ends reached fun other => ?_
  by_cases same : other = core
  · subst same
    rw [(enter_self _ other thread time).2.2.1]
    exact Nat.lt_of_le_of_lt (Nat.le_add_left _ _) enough
  · rw [(enter_of_ne _ same thread time).2.2.1, frame.clocks]
    calc server.localClock other
        < server.clockBound := localClock_lt_clockBound other
      _ ≤ server.clockBound + time := Nat.le_add_right _ _
      _ < choices.bound := enough

theorem Inv.stop_ends (inv : Inv none server) (thread : ThreadId)
    (change : Hook n) {choices : Choices n}
    (enough : server.clockBound ≤ choices.bound) :
    server.step (.stop thread change choices) ≠ .error .rounds := by
  refine inv.step_ne nofun nofun ?_ nofun
  rintro _ _ _ ⟨⟩ legal free reached
  obtain ⟨kept, clocks⟩ := inv.stopping legal free
  refine kept.reached_ends reached fun core => ?_
  rw [clocks]
  exact Nat.lt_of_lt_of_le (localClock_lt_clockBound core) enough

/-! ## Runs -/

theorem inv_initial {interval : Time} (positive : 0 < interval)
    (hostCores : Nat) :
    Inv none (initial n interval hostCores) where
  positive := positive
  clock := fun _ => positive
  held := by rintro _ (waits | listed) <;> cases ‹_›
  apart := nofun
  nodup := .nil
  once := fun runs => absurd rfl runs
  entered := by rintro _ (waits | listed) <;> cases ‹_›
  waiting := nofun
  passed := nofun
  unsignalled := by rintro _ (waits | listed) <;> cases ‹_›
  signalled := nofun
  logged := nofun
  counted := (Nat.mul_one interval).symm

def run (actions : List (Action n)) (server : BarrierServer n) :
    Except Stop (BarrierServer n) :=
  actions.foldlM (fun server action => (server.step action).map Prod.fst) server

theorem inv_run {interval hostCores : Nat} (positive : 0 < interval)
    {actions : List (Action n)}
    (reached : run actions (initial n interval hostCores) = .ok server) :
    Inv none server := by
  refine Library.foldlM_induction (fun _ server => Inv none server) ?_
    (inv_initial positive hostCores) reached
  intro action rest before after inv stepped
  obtain ⟨⟨last, returned⟩, taken, rfl⟩ := Library.map_eq_ok.mp stepped
  exact (inv.step taken).1

/-- What the barrier guarantees in a state and for the steps from it. -/
structure Lawful (server : BarrierServer n) : Prop where
  below : ∀ {core}, server.acquire core = false →
    server.localClock core < server.nextBarrierTime
  returns_below : ∀ {action next core time},
    server.step action = .ok (next, some (core, time)) →
      time < next.nextBarrierTime
  advances_reached : ∀ advance ∈ server.advances, ∀ core,
    advance.before core ≠ none → advance.time ≤ advance.clocks core
  advances_counted : server.nextBarrierTime =
    server.interval * (server.advances.length + 1)
  never_unreleased : ∀ action, server.step action ≠ .error .unreleased
  listed : server.toRelease.Nodup ∧ ∀ core ∈ server.toRelease,
    server.acquire core = false ∧ server.inside core ≠ none
  signalled_once : ∀ {core time}, server.inside core = some time →
    server.signals core =
      if server.acquire core = true ∨ core ∈ server.toRelease then 0 else 1
  synchronize_ends : ∀ core time, ∃ bound, ∀ choices : Choices n,
    bound ≤ choices.bound →
      server.step (.synchronize core time choices) ≠ .error .rounds
  stop_ends : ∃ bound, ∀ thread change, ∀ choices : Choices n,
    bound ≤ choices.bound →
      server.step (.stop thread change choices) ≠ .error .rounds

theorem Inv.lawful (inv : Inv none server) : server.Lawful where
  below := inv.clock
  returns_below := fun stepped => (inv.step stepped).2 _ _ rfl
  advances_reached := inv.logged
  advances_counted := inv.counted
  never_unreleased := inv.never_unreleased
  listed := ⟨inv.nodup, fun core member =>
    ⟨inv.apart member, inv.entered (.inr member)⟩⟩
  signalled_once := by
    intro core time called
    split
    next blocked => exact inv.unsignalled blocked
    next free => exact inv.signalled called free nofun
  synchronize_ends := fun core time =>
    ⟨_, fun _ enough => inv.synchronize_ends core time enough⟩
  stop_ends := ⟨_, fun thread change _ enough =>
    inv.stop_ends thread change enough⟩

/-- The barrier keeps the cores together in every run. -/
theorem barrier_keeps_together {n interval hostCores : Nat}
    (positive : 0 < interval) (actions : List (Action n))
    (server : BarrierServer n)
    (reached : run actions (initial n interval hostCores) = .ok server) :
    server.Lawful :=
  (inv_run positive reached).lawful

/-- The threads 0 and 1 are placed on the cores 0 and 1. -/
def bothRunning : Hook 2 where
  running := fun core => some core.val
  migrated := []

/-- Both cores synchronize, core 0 two intervals ahead; core 1 releases the
barrier and does not wait. -/
theorem barrier_keeps_together_released :
    ∃ server, run [.resume bothRunning,
        .synchronize 0 250 ⟨fun _ => bothRunning, id, 5⟩,
        .synchronize 1 120 ⟨fun _ => bothRunning, id, 5⟩]
        (initial 2 100 1) = .ok server ∧
      server.nextBarrierTime = 200 ∧ server.acquire 0 = true ∧
      server.inside 1 = none ∧ server.Lawful := by
  have reached : (run [.resume bothRunning,
        .synchronize 0 250 ⟨fun _ => bothRunning, id, 5⟩,
        .synchronize 1 120 ⟨fun _ => bothRunning, id, 5⟩]
        (initial 2 100 1)).map (fun server => (server.nextBarrierTime,
          server.acquire 0, server.inside 1)) = .ok (200, true, none) := by
    decide +kernel
  obtain ⟨server, ran, seen⟩ := Library.map_eq_ok.mp reached
  simp only [Prod.mk.injEq] at seen
  exact ⟨server, ran, seen.1, seen.2.1, seen.2.2,
    barrier_keeps_together (by decide) _ server ran⟩

/-- The hook of the first round resumes thread 1, and the time advances
although core 1, which now runs, has not reached it. The thread that releases
the barrier is taken out without a signal. -/
theorem advances_past_resumed_core :
    ∃ server, run [
        .resume ⟨fun core => if core = 0 then some 0 else none, [], false, true⟩,
        .synchronize 0 150 ⟨fun _ => bothRunning, id, 5⟩]
        (initial 2 100 1) = .ok server ∧
      (∃ advance ∈ server.advances, ∃ core,
        advance.running core ≠ none ∧ advance.clocks core < advance.time) ∧
      server.acquire 0 = false ∧ server.inside 0 = none ∧
      server.signals 0 = 0 := by
  have reached : (run [
        .resume ⟨fun core => if core = 0 then some 0 else none, [], false, true⟩,
        .synchronize 0 150 ⟨fun _ => bothRunning, id, 5⟩]
        (initial 2 100 1)).map (fun server => (server.advances.map
          (fun advance => (advance.running 1, advance.clocks 1, advance.time)),
          server.acquire 0, server.inside 0, server.signals 0)) =
        .ok ([(some 1, 0, 100)], false, none, 0) := by
    decide +kernel
  obtain ⟨server, ran, seen⟩ := Library.map_eq_ok.mp reached
  simp only [Prod.mk.injEq] at seen
  obtain ⟨logged, taken, returned, quiet⟩ := seen
  obtain ⟨advance, member, same⟩ := List.mem_map.mp
    (logged ▸ List.mem_singleton_self (some 1, 0, 100))
  simp only [Prod.mk.injEq] at same
  refine ⟨server, ran, ⟨advance, member, 1, ?_, ?_⟩, taken, returned, quiet⟩
  · rw [same.1]
    nofun
  · rw [same.2.1, same.2.2]
    decide

end BarrierServer

end ChipletSniper.Threads
