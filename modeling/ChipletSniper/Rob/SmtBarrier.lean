import ChipletSniper.Library.Runs
import ChipletSniper.Rob.SmtTimer

/-!
# The search of the SMT barrier ends

The search of `barrierRelease` ends once it sees a running thread, and the
limit reaches every thread in the barrier before it overflows. What makes the
barrier safe is that a thread in it runs.
-/

namespace ChipletSniper.Rob

open Threads (ThreadId)

namespace SmtTimer

variable {k : Nat}

def Running (timer : SmtTimer k) (slot : Fin k) : Prop :=
  (timer.threads slot).running = true

def InBarrier (timer : SmtTimer k) (slot : Fin k) : Prop :=
  (timer.threads slot).inBarrier = true

instance (timer : SmtTimer k) (slot : Fin k) : Decidable (timer.Running slot) :=
  inferInstanceAs (Decidable (_ = _))

instance (timer : SmtTimer k) (slot : Fin k) :
    Decidable (timer.InBarrier slot) :=
  inferInstanceAs (Decidable (_ = _))

/-- Threads were only taken out of the barrier. -/
structure Lowers (before after : SmtTimer k) : Prop where
  running : ∀ {slot}, after.Running slot ↔ before.Running slot
  inBarrier : ∀ {slot}, after.InBarrier slot → before.InBarrier slot

theorem Lowers.refl (timer : SmtTimer k) : Lowers timer timer :=
  ⟨.rfl, id⟩

theorem Lowers.trans {first middle last : SmtTimer k}
    (earlier : Lowers first middle) (later : Lowers middle last) :
    Lowers first last :=
  ⟨later.running.trans earlier.running,
    fun waits => earlier.inBarrier (later.inBarrier waits)⟩

theorem running_setBarrier (timer : SmtTimer k) (slot other : Fin k)
    (inBarrier : Bool) :
    (timer.setBarrier slot inBarrier).Running other ↔ timer.Running other := by
  by_cases same : other = slot
  · simp [Running, setBarrier, setThread, same]
  · simp [Running, setBarrier, setThread, same]

theorem inBarrier_setBarrier (timer : SmtTimer k) (slot other : Fin k)
    (inBarrier : Bool) :
    (timer.setBarrier slot inBarrier).InBarrier other ↔
      if other = slot then inBarrier = true else timer.InBarrier other := by
  by_cases same : other = slot
  · simp [InBarrier, setBarrier, setThread, same]
  · simp [InBarrier, setBarrier, setThread, same]

theorem lowers_setBarrier (timer : SmtTimer k) (slot : Fin k) :
    Lowers timer (timer.setBarrier slot false) := by
  refine ⟨running_setBarrier timer slot _ false, fun {other} waits => ?_⟩
  rw [inBarrier_setBarrier] at waits
  split at waits
  · cases waits
  · exact waits

end SmtTimer

/-! ## The loops -/

namespace Release

open SmtTimer

variable {k : Nat} {load : SmtLoad k} {releaseAll : Bool}
variable {me : Option (Fin k)} {limit : Nat}

theorem lowers_release (state : Release k) (slot : Fin k) :
    Lowers state.timer (state.release me slot).timer := by
  unfold release
  split
  · exact .refl _
  · exact lowers_setBarrier _ slot

theorem lowers_count (state : Release k) (running : Bool) :
    Lowers state.timer (state.count running).timer := by
  unfold count
  split
  · exact .refl _
  · exact .refl _

theorem lowers_execute (state : Release k) (slot : Fin k) :
    Lowers state.timer (state.execute slot).timer :=
  ⟨.rfl, id⟩

theorem numRunning_release (state : Release k) (slot : Fin k) :
    (state.release me slot).numRunning = state.numRunning := by
  unfold release
  split <;> rfl

theorem numRunning_count (state : Release k) (running : Bool) :
    (state.count running).numRunning =
      state.numRunning + if running then 1 else 0 := by
  unfold count
  split <;> rfl

/-- A turn of the first loop for a thread in the barrier. -/
theorem lowers_counted (state : Release k) (running : Bool) (slot : Fin k) :
    Lowers state.timer ((state.count running).release me slot).timer :=
  (lowers_count state running).trans (lowers_release _ slot)

theorem lowers_releaseWanted (slots : List (Fin k)) (state : Release k) :
    Lowers state.timer (state.releaseWanted load releaseAll me slots).timer := by
  induction slots generalizing state with
  | nil => exact .refl _
  | cons slot rest ih =>
      unfold releaseWanted
      dsimp only
      split
      · exact (lowers_count state _).trans (ih _)
      split
      · exact ih state
      split
      · exact (lowers_counted state _ slot).trans (ih _)
      · exact (lowers_counted state _ slot).trans (lowers_execute _ slot)

theorem lowers_releaseLowest (slots : List (Fin k)) (state : Release k) :
    Lowers state.timer
      (state.releaseLowest load releaseAll me limit slots).timer := by
  induction slots generalizing state with
  | nil => exact .refl _
  | cons slot rest ih =>
      unfold releaseLowest
      dsimp only
      split
      · split
        · exact (lowers_counted state true slot).trans (ih _)
        · exact (lowers_counted state true slot).trans
            (lowers_execute _ slot)
      · exact ih state

theorem lowers_search {turns : Nat} {state found : Release k}
    (run : state.search load releaseAll me turns limit = some found) :
    Lowers state.timer found.timer := by
  induction turns generalizing state limit with
  | zero => cases run
  | succ turns ih =>
      unfold search at run
      split at run
      · exact (lowers_releaseLowest _ state).trans (ih run)
      · cases run
        exact .refl _

theorem numRunning_releaseWanted (slots : List (Fin k)) (state : Release k) :
    state.numRunning ≤
      (state.releaseWanted load releaseAll me slots).numRunning := by
  induction slots generalizing state with
  | nil => exact Nat.le_refl _
  | cons slot rest ih =>
      have counted : ∀ running,
          state.numRunning ≤ (state.count running).numRunning := by
        intro running
        rw [numRunning_count]
        exact Nat.le_add_right _ _
      have released : ∀ running, state.numRunning ≤
          ((state.count running).release me slot).numRunning := by
        intro running
        rw [numRunning_release]
        exact counted running
      unfold releaseWanted
      dsimp only
      split
      · exact (counted _).trans (ih _)
      split
      · exact ih state
      split
      · exact (released _).trans (ih _)
      · exact released _

theorem numRunning_releaseLowest (slots : List (Fin k)) (state : Release k) :
    state.numRunning ≤
      (state.releaseLowest load releaseAll me limit slots).numRunning := by
  induction slots generalizing state with
  | nil => exact Nat.le_refl _
  | cons slot rest ih =>
      have released : state.numRunning ≤
          ((state.count true).release me slot).numRunning := by
        rw [numRunning_release, numRunning_count]
        exact Nat.le_add_right _ _
      unfold releaseLowest
      dsimp only
      split
      · split
        · exact released.trans (ih _)
        · exact released
      · exact ih state

/-- Unless a running thread was counted, the running threads that were in the
barrier still are. -/
theorem releaseWanted_stays (slots : List (Fin k)) {state : Release k}
    (nobody : (state.releaseWanted load releaseAll me slots).numRunning = 0)
    {slot : Fin k} (running : state.timer.Running slot)
    (waits : state.timer.InBarrier slot) :
    (state.releaseWanted load releaseAll me slots).timer.InBarrier slot := by
  induction slots generalizing state with
  | nil => exact waits
  | cons first rest ih =>
      have apart : ∀ result : Release k, result.numRunning = 0 →
          ((state.count (state.timer.threads first).running).release me
            first).numRunning ≤ result.numRunning → slot ≠ first := by
        rintro result none more rfl
        have runs : (state.timer.threads slot).running = true := running
        rw [numRunning_release, numRunning_count, if_pos runs, none] at more
        exact absurd more (by omega)
      have still : slot ≠ first →
          ((state.count (state.timer.threads first).running).release me
            first).timer.InBarrier slot := by
        intro different
        unfold release count
        split
        · split <;> exact waits
        · rw [inBarrier_setBarrier, if_neg different]
          split <;> exact waits
      unfold releaseWanted at nobody ⊢
      dsimp only at nobody ⊢
      split at nobody
      next outside =>
        rw [if_pos outside]
        refine ih nobody ?_ ?_
        · exact (lowers_count state _).running.mpr running
        · unfold count
          split <;> exact waits
      next inside =>
        rw [if_neg inside]
        split at nobody
        next enough =>
          rw [if_pos enough]
          exact ih nobody running waits
        next wanted =>
          rw [if_neg wanted]
          split at nobody
          next all =>
            rw [if_pos all]
            refine ih nobody ?_ ?_
            · exact (lowers_counted state _ first).running.mpr running
            · exact still (apart _ nobody (numRunning_releaseWanted rest _))
          next single =>
            rw [if_neg single]
            exact still (apart _ nobody (Nat.le_refl _))

/-- If all are released, every running thread outside the barrier is
counted. -/
theorem releaseWanted_counts {slots : List (Fin k)} {state : Release k}
    {slot : Fin k} (member : slot ∈ slots) (running : state.timer.Running slot)
    (outside : ¬ state.timer.InBarrier slot) :
    0 < (state.releaseWanted load true me slots).numRunning := by
  induction slots generalizing state with
  | nil => cases member
  | cons first rest ih =>
      unfold releaseWanted
      dsimp only
      rcases List.mem_cons.mp member with rfl | later
      · have free : (state.timer.threads slot).inBarrier = false :=
          Bool.eq_false_iff.mpr outside
        have runs : (state.timer.threads slot).running = true := running
        rw [if_pos free]
        refine Nat.lt_of_lt_of_le ?_ (numRunning_releaseWanted rest _)
        rw [numRunning_count, if_pos runs]
        exact Nat.succ_pos _
      · split
        · exact ih later
            ((lowers_count state _).running.mpr running)
            fun waits => outside ((lowers_count state _).inBarrier waits)
        split
        · exact ih later running outside
        · exact ih later
            ((lowers_counted state _ first).running.mpr running)
            fun waits => outside ((lowers_counted state _ first).inBarrier waits)

/-- A running thread in the barrier below the limit. -/
def Found (load : SmtLoad k) (limit : Nat) (state : Release k)
    (slot : Fin k) : Prop :=
  state.timer.InBarrier slot ∧ state.timer.Running slot ∧
    load.threadNumSurplusInstructions slot < limit

theorem releaseLowest_found {slots : List (Fin k)} {state : Release k}
    {slot : Fin k} (member : slot ∈ slots)
    (found : Found load limit state slot) :
    0 < (state.releaseLowest load releaseAll me limit slots).numRunning := by
  induction slots with
  | nil => cases member
  | cons first rest ih =>
      have released :
          0 < ((state.count true).release me first).numRunning := by
        rw [numRunning_release, numRunning_count]
        exact Nat.succ_pos _
      unfold releaseLowest
      dsimp only
      split
      · split
        · exact released.trans_le (numRunning_releaseLowest rest _)
        · exact released
      next away =>
        rcases List.mem_cons.mp member with rfl | later
        · exact absurd found away
        · exact ih later

theorem releaseLowest_none {slots : List (Fin k)} {state : Release k}
    (nobody : ∀ slot ∈ slots, ¬ Found load limit state slot) :
    state.releaseLowest load releaseAll me limit slots = state := by
  induction slots with
  | nil => rfl
  | cons first rest ih =>
      unfold releaseLowest
      dsimp only
      refine (if_neg (nobody first List.mem_cons_self)).trans ?_
      exact ih fun slot member =>
        nobody slot (List.mem_cons_of_mem first member)

theorem search_counted {turns : Nat} {state : Release k}
    (counted : state.numRunning ≠ 0) :
    state.search load releaseAll me (turns + 1) limit = some state :=
  if_neg counted

theorem search_turn {turns : Nat} {state : Release k}
    (nobody : state.numRunning = 0) :
    state.search load releaseAll me (turns + 1) limit =
      (state.releaseLowest load releaseAll me limit (List.finRange k)).search
        load releaseAll me turns (limit * 2 % 2 ^ 64) :=
  if_pos nobody

theorem search_below {turns : Nat} {state : Release k}
    (nobody : state.numRunning = 0)
    (below : ∃ slot, Found load limit state slot) :
    (state.search load releaseAll me (turns + 2) limit).isSome = true := by
  obtain ⟨slot, found⟩ := below
  have positive :
      0 < (state.releaseLowest load releaseAll me limit
        (List.finRange k)).numRunning :=
    releaseLowest_found (List.mem_finRange slot) found
  rw [search_turn nobody, search_counted positive.ne']
  rfl

/-- The limit doubles until it is above the surplus of some thread. -/
theorem search_found {state : Release k} {slot : Fin k} (left : Nat)
    {exponent : Nat} (last : exponent + left = 63) (more : Nat)
    (found : Found load (2 ^ 63) state slot) :
    (state.search load releaseAll me (left + more + 2)
      (2 ^ exponent)).isSome = true := by
  by_cases counted : state.numRunning ≠ 0
  · rw [search_counted counted]
    rfl
  have nobody := not_not.mp counted
  induction left generalizing exponent with
  | zero =>
      obtain rfl : exponent = 63 := last
      exact search_below nobody ⟨slot, found⟩
  | succ left ih =>
      by_cases here : ∃ slot, Found load (2 ^ exponent) state slot
      · exact search_below nobody here
      · have doubled : 2 ^ exponent * 2 % 2 ^ 64 = 2 ^ (exponent + 1) := by
          rw [← Nat.pow_succ]
          exact Nat.mod_eq_of_lt
            (Nat.pow_lt_pow_right (Nat.lt_succ_self 1) (by omega))
        rw [show left + 1 + more = left + more + 1 by omega,
          search_turn nobody, doubled,
          releaseLowest_none fun slot _ below => here ⟨slot, below⟩]
        exact ih (by omega)

/-! ## Without a running thread -/

theorem releaseWanted_nobody {slots : List (Fin k)} {state : Release k}
    (nobody : ∀ slot, ¬ state.timer.Running slot) :
    (state.releaseWanted load releaseAll me slots).numRunning =
      state.numRunning := by
  induction slots generalizing state with
  | nil => rfl
  | cons first rest ih =>
      have idle : (state.timer.threads first).running = false :=
        Bool.eq_false_iff.mpr (nobody first)
      have counted : state.count (state.timer.threads first).running = state :=
        by rw [idle]; rfl
      have released : ∀ slot,
          ¬ (state.release me first).timer.Running slot := fun slot running =>
        nobody slot ((lowers_release state first).running.mp running)
      unfold releaseWanted
      dsimp only
      rw [counted]
      split
      · exact ih nobody
      split
      · exact ih nobody
      split
      · exact (ih released).trans
          (numRunning_release state first)
      · exact numRunning_release state first

theorem search_nobody (turns : Nat) {state : Release k}
    (nobody : ∀ slot, ¬ state.timer.Running slot)
    (none : state.numRunning = 0) :
    state.search load releaseAll me turns limit = .none := by
  induction turns generalizing limit with
  | zero => rfl
  | succ turns ih =>
      rw [search_turn none,
        releaseLowest_none fun slot _ found => nobody slot found.2.1]
      exact ih

end Release

/-! ## The release -/

namespace SmtTimer

variable {k : Nat} {load : SmtLoad k} {releaseAll : Bool}
variable {me : Option (Fin k)} {turns : Nat}

theorem lowers_wanted (timer : SmtTimer k) :
    Lowers timer (timer.wanted load releaseAll me).timer := by
  have marked : Lowers timer { timer with executeThread := me } := ⟨.rfl, id⟩
  exact marked.trans
    (Release.lowers_releaseWanted _ ⟨{ timer with executeThread := me }, 0, _⟩)

theorem lowers_barrierRelease {timer after : SmtTimer k} {releaseMe : Bool}
    (released : timer.barrierRelease turns load releaseAll me =
      .ok (releaseMe, after)) :
    Lowers timer after := by
  unfold barrierRelease at released
  split at released
  · cases released
  next state found =>
    cases released
    exact timer.lowers_wanted.trans (Release.lowers_search found)

/-- With a running thread in the barrier, or a running thread when all are
released, the search ends. -/
theorem barrierRelease_ends {timer : SmtTimer k} {slot : Fin k}
    (enough : 65 ≤ turns) (running : timer.Running slot)
    (waits : releaseAll = true ∨ timer.InBarrier slot) :
    ∃ released, timer.barrierRelease turns load releaseAll me =
      .ok released := by
  have ended :
      ((timer.wanted load releaseAll me).search load releaseAll me turns
        1).isSome = true := by
    obtain ⟨more, rfl⟩ := Nat.exists_eq_add_of_le enough
    rw [show 65 + more = 63 + more + 2 by omega]
    by_cases counted : (timer.wanted load releaseAll me).numRunning ≠ 0
    · rw [Release.search_counted counted]
      rfl
    · have nobody := not_not.mp counted
      have inside : timer.InBarrier slot := by
        by_contra outside
        obtain rfl := waits.resolve_right outside
        have positive : 0 < (timer.wanted load true me).numRunning :=
          Release.releaseWanted_counts (List.mem_finRange slot) running outside
        exact positive.ne' nobody
      have inSearch : Release.Found load (2 ^ 63)
          (timer.wanted load releaseAll me) slot := by
        refine ⟨?_, timer.lowers_wanted.running.mpr running, ?_⟩
        · exact Release.releaseWanted_stays _ nobody running inside
        · exact (load.queued slot).trans_le
            (Nat.pow_le_pow_right (Nat.succ_pos 1) (by decide))
      exact Release.search_found 63 (Nat.zero_add 63) more inSearch
  obtain ⟨state, found⟩ := Option.isSome_iff_exists.mp ended
  refine ⟨(state.releaseMe, state.timer), ?_⟩
  unfold barrierRelease
  rw [found]

theorem barrierRelease_endless {timer : SmtTimer k}
    (nobody : ∀ slot, ¬ timer.Running slot) :
    timer.barrierRelease turns load releaseAll me = .error .endless := by
  unfold barrierRelease
  have endless : (timer.wanted load releaseAll me).search load releaseAll me
      turns 1 = none :=
    Release.search_nobody turns
      (fun slot running => nobody slot (timer.lowers_wanted.running.mp running))
      (Release.releaseWanted_nobody nobody)
  rw [endless]

end SmtTimer

end ChipletSniper.Rob
