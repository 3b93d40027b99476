import ChipletSniper.Rob.SmtBarrier

/-!
# Runs of the SMT timer

A release ends exactly when some thread is marked as running. The hooks keep a
running thread in the barrier, but the thread that executed a cycle can be the
last one and be gone by its end.
-/

namespace ChipletSniper.Rob.SmtTimer

open Library
open Threads (ThreadId)

variable {k : Nat} {timer : SmtTimer k} {load : SmtLoad k} {turns : Nat}

def SomeRunning (timer : SmtTimer k) : Prop :=
  ∃ slot, timer.Running slot

theorem isBarrierReached_iff :
    timer.isBarrierReached = true ↔
      timer.inSync = false ∧
        (∀ slot, timer.Running slot → timer.InBarrier slot) ∧
        ∃ slot, timer.InBarrier slot := by
  simp [isBarrierReached, Running, InBarrier, and_assoc,
    Decidable.imp_iff_not_or]

/-! ## One event -/

/-- A release where every running thread is in the barrier or all are
released ends exactly when some thread is running. -/
theorem barrierRelease_cases (load : SmtLoad k) (me : Option (Fin k))
    {releaseAll : Bool} (enough : 65 ≤ turns)
    (inside : ∀ slot, timer.Running slot →
      releaseAll = true ∨ timer.InBarrier slot) :
    (timer.SomeRunning ∧ ∃ released,
      timer.barrierRelease turns load releaseAll me = .ok released) ∨
    (¬ timer.SomeRunning ∧
      timer.barrierRelease turns load releaseAll me = .error .endless) := by
  by_cases running : timer.SomeRunning
  · obtain ⟨slot, runs⟩ := running
    exact .inl ⟨⟨slot, runs⟩, barrierRelease_ends enough runs (inside slot runs)⟩
  · exact .inr ⟨running, barrierRelease_endless fun slot runs =>
      running ⟨slot, runs⟩⟩

theorem finish_ends_iff {thread : ThreadId} {slot : Fin k}
    (enough : 65 ≤ turns) :
    timer.finish turns thread slot load ≠ .error .endless ↔
      timer.SomeRunning := by
  unfold finish
  rcases barrierRelease_cases load (some slot) enough fun _ _ => .inl rfl with
    ⟨running, released, ended⟩ | ⟨nobody, endless⟩
  · rw [ended]
    exact ⟨fun _ => running, fun _ stuck => by cases stuck⟩
  · rw [endless]
    exact ⟨fun ends => absurd rfl ends, fun running => absurd running nobody⟩

theorem proceed_ends_iff {thread : ThreadId} {slot : Fin k}
    (enough : 65 ≤ turns) :
    timer.proceed turns thread slot load ≠ .error .endless ↔
      (timer.executeThread = some slot → timer.client slot = false →
        timer.SomeRunning) := by
  unfold proceed
  split
  next executes =>
    dsimp only
    split
    next waits =>
      refine ⟨fun _ _ alone => ?_, fun _ stuck => by cases stuck⟩
      rw [waits] at alone
      cases alone
    next alone =>
      refine (finish_ends_iff enough).trans
        ⟨fun running _ _ => running, fun running => ?_⟩
      exact running executes (Bool.eq_false_iff.mpr alone)
  next other =>
    exact ⟨fun _ executes => absurd executes other,
      fun _ stuck => by cases stuck⟩

theorem signalBarrier_ends_iff (enough : 65 ≤ turns) :
    timer.signalBarrier turns load ≠ .error .endless ↔
      (timer.inSync = false → (∃ slot, timer.InBarrier slot) →
        timer.SomeRunning) := by
  unfold signalBarrier
  split
  next reached =>
    obtain ⟨free, inside, waits⟩ := isBarrierReached_iff.mp reached
    rcases barrierRelease_cases load none enough fun slot running =>
        .inr (inside slot running) with
      ⟨running, released, ended⟩ | ⟨nobody, endless⟩
    · rw [ended]
      exact ⟨fun _ _ _ => running, fun _ stuck => by cases stuck⟩
    · rw [endless]
      exact ⟨fun ends => absurd rfl ends,
        fun running => absurd (running free waits) nobody⟩
  next away =>
    refine ⟨fun _ free waits => ?_, fun _ stuck => by cases stuck⟩
    by_contra nobody
    exact away (isBarrierReached_iff.mpr
      ⟨free, fun slot running => absurd ⟨slot, running⟩ nobody, waits⟩)

/-- The caller is in the barrier when it is looked at. -/
theorem inBarrier_entered (slot : Fin k) :
    (timer.setBarrier slot true).InBarrier slot := by
  rw [inBarrier_setBarrier, if_pos rfl]

theorem someRunning_setBarrier {slot : Fin k} {inBarrier : Bool} :
    (timer.setBarrier slot inBarrier).SomeRunning ↔ timer.SomeRunning :=
  exists_congr fun other => running_setBarrier timer slot other inBarrier

theorem Lowers.someRunning {before after : SmtTimer k}
    (lowers : Lowers before after) : after.SomeRunning ↔ before.SomeRunning :=
  exists_congr fun _ => lowers.running

theorem barrier_ends_iff {thread : ThreadId} {slot : Fin k}
    {before after : SmtLoad k} (enough : 65 ≤ turns) :
    timer.barrier turns thread slot before after ≠ .error .endless ↔
      ((timer.threads slot).thread ≠ none → timer.inSync = false →
        timer.SomeRunning) := by
  unfold barrier
  split
  next empty =>
    exact ⟨fun _ present => absurd empty present, fun _ stuck => by cases stuck⟩
  next present =>
    dsimp only
    split
    next reached =>
      obtain ⟨free, inside, -⟩ := isBarrierReached_iff.mp reached
      rcases barrierRelease_cases before (some slot) enough
          fun other running => .inr (inside other running) with
        ⟨running, ⟨releaseMe, released⟩, ended⟩ | ⟨nobody, endless⟩
      · have runs : timer.SomeRunning := someRunning_setBarrier.mp running
        rw [ended]
        refine ⟨fun _ _ _ => runs, fun _ => ?_⟩
        change (if releaseMe = true then _ else _) ≠ _
        split
        · refine (proceed_ends_iff enough).mpr fun _ _ => ?_
          exact someRunning_setBarrier.mpr
            ((lowers_barrierRelease ended).someRunning.mpr running)
        · exact fun stuck => by cases stuck
      · rw [endless]
        refine ⟨fun ends => absurd rfl ends, fun running => absurd ?_ nobody⟩
        exact someRunning_setBarrier.mpr (running present free)
    next away =>
      refine ⟨fun _ _ free => ?_, fun _ stuck => by cases stuck⟩
      by_contra nobody
      refine away (isBarrierReached_iff.mpr
        ⟨free, fun other running => ?_, slot, inBarrier_entered slot⟩)
      exact absurd (someRunning_setBarrier.mp ⟨other, running⟩) nobody

theorem simulate_ends_iff {thread : ThreadId} {slot : Fin k}
    {before after : SmtLoad k} (enough : 65 ≤ turns) :
    timer.simulate turns thread slot before after ≠ .error .endless ↔
      (128 < before.threadNumSurplusInstructions slot → timer.enabled = true →
        (timer.threads slot).thread ≠ none → timer.inSync = false →
          timer.SomeRunning) := by
  unfold simulate
  split
  next enters =>
    rw [barrier_ends_iff enough]
    exact ⟨fun running _ _ => running, fun running =>
      running enters.1 enters.2⟩
  next few =>
    exact ⟨fun _ many enabled => absurd ⟨many, enabled⟩ few,
      fun _ stuck => by cases stuck⟩

theorem threads_setRunning (timer : SmtTimer k) (thread : ThreadId)
    (running : Bool) (slot : Fin k) :
    (timer.setRunning thread running).threads slot =
      if timer.findSmtThreadFromThread thread = some slot then
        { timer.threads slot with running := running }
      else
        timer.threads slot := by
  unfold setRunning
  split
  next none =>
    rw [none]
    rfl
  next first found =>
    rw [found]
    by_cases same : slot = first
    · simp [setThread, same]
    · simp [setThread, same, Ne.symm same]

/-- Some slot other than the thread's is marked as running. -/
def OtherRunning (timer : SmtTimer k) (thread : ThreadId) : Prop :=
  ∃ slot, timer.Running slot ∧
    timer.findSmtThreadFromThread thread ≠ some slot

theorem someRunning_setRunning {thread : ThreadId} :
    (timer.setRunning thread false).SomeRunning ↔ timer.OtherRunning thread := by
  refine exists_congr fun slot => ?_
  unfold Running
  rw [threads_setRunning]
  split
  next own =>
    refine ⟨fun runs => ?_, fun other => absurd own other.2⟩
    cases runs
  next other => exact ⟨fun runs => ⟨runs, other⟩, And.left⟩

theorem inBarrier_setRunning {thread : ThreadId} {running : Bool}
    {slot : Fin k} :
    (timer.setRunning thread running).InBarrier slot ↔ timer.InBarrier slot := by
  unfold InBarrier
  rw [threads_setRunning]
  split <;> exact .rfl

theorem inSync_setRunning {thread : ThreadId} {running : Bool} :
    (timer.setRunning thread running).inSync = timer.inSync := by
  unfold setRunning
  split <;> rfl

theorem stopRunning_ends_iff {thread : ThreadId} (enough : 65 ≤ turns) :
    (timer.setRunning thread false).signalBarrier turns load ≠
        .error .endless ↔
      (timer.inSync = false → (∃ slot, timer.InBarrier slot) →
        timer.OtherRunning thread) := by
  rw [signalBarrier_ends_iff enough, inSync_setRunning,
    someRunning_setRunning]
  refine imp_congr_right fun _ => imp_congr_left ?_
  exact exists_congr fun slot => inBarrier_setRunning

/-! ## Runs -/

/-- The releases of the event find a running thread. -/
def Meets (timer : SmtTimer k) : Event k → Prop
  | .simulate thread slot before _ =>
      timer.calls thread = .outside →
        128 < before.threadNumSurplusInstructions slot →
          timer.enabled = true → (timer.threads slot).thread ≠ none →
            timer.inSync = false → timer.SomeRunning
  | .wake thread _ =>
      ∀ slot, timer.calls thread = .waiting slot →
        timer.executeThread = some slot → timer.client slot = false →
          timer.SomeRunning
  | .synchronized thread _ =>
      ∀ slot, timer.calls thread = .syncing slot → timer.SomeRunning
  | .exit thread _ | .stall thread _ =>
      timer.inSync = false → (∃ slot, timer.InBarrier slot) →
        timer.OtherRunning thread
  | _ => True

theorem step_ends_iff {event : Event k} (enough : 65 ≤ turns) :
    timer.step turns event ≠ .error .endless ↔ timer.Meets event := by
  cases event with
  | simulate thread slot before after =>
      dsimp only [step, Meets]
      split
      next outside =>
        rw [simulate_ends_iff enough]
        exact ⟨fun running _ => running, fun running => running outside⟩
      next inside =>
        exact ⟨fun _ outside => absurd outside inside,
          fun _ stuck => by cases stuck⟩
  | wake thread after =>
      dsimp only [step, Meets]
      split
      next slot waits =>
        rw [proceed_ends_iff enough]
        refine ⟨fun running other same => ?_, fun running => running slot waits⟩
        obtain rfl : slot = other := by
          rw [waits] at same
          exact SmtCall.waiting.inj same
        exact running
      next away =>
        exact ⟨fun _ slot waits => absurd waits (away slot),
          fun _ stuck => by cases stuck⟩
  | synchronized thread load =>
      dsimp only [step, Meets]
      split
      next slot syncs =>
        exact (finish_ends_iff enough).trans
          ⟨fun running _ _ => running, fun running => running slot syncs⟩
      next away =>
        exact ⟨fun _ slot syncs => absurd syncs (away slot),
          fun _ stuck => by cases stuck⟩
  | exit thread load => exact stopRunning_ends_iff enough
  | stall thread load => exact stopRunning_ends_iff enough
  | start thread => exact ⟨fun _ => trivial, fun _ stuck => by cases stuck⟩
  | resume thread => exact ⟨fun _ => trivial, fun _ stuck => by cases stuck⟩
  | migrate thread core =>
      exact ⟨fun _ => trivial, fun _ stuck => by cases stuck⟩
  | enable => exact ⟨fun _ => trivial, fun _ stuck => by cases stuck⟩
  | disable => exact ⟨fun _ => trivial, fun _ stuck => by cases stuck⟩

/-- Whatever the interleaving of the events, the search of every release ends
exactly when every event meets its condition. -/
theorem releases_end_iff (core : Fin k → Nat) (client : Fin k → Bool)
    (events : List (Event k)) (enough : 65 ≤ turns) :
    (initial core client).run turns events ≠ .error .endless ↔
      Along (fun timer event => timer.step turns event) Meets events
        (initial core client) :=
  foldlM_ne_error_iff (step_ends_iff enough) events (initial core client)

/-- A load of 200 micro-operations beyond the window. -/
def surplus : SmtLoad 1 where
  threadNumSurplusInstructions _ := 200
  threadHasEnoughInstructions _ := true
  queued _ := by decide

theorem releases_end_iff_alone :
    Along (fun timer event => timer.step 65 event) Meets
      [.migrate 0 (some 0), .simulate 0 0 surplus surplus,
        .synchronized 0 surplus]
      (initial (fun _ => 0) fun _ => true) :=
  (releases_end_iff (fun _ => 0) (fun _ => true) _ (Nat.le_refl 65)).mp
    fun stuck => by cases stuck

/-- The only SMT thread is migrated away while it synchronizes. No number of
turns ends the release at the end of its cycle. -/
theorem migrated_in_synchronize :
    ∃ timer : SmtTimer 1,
      (initial (fun _ => 0) fun _ => true).run 65
        [.migrate 0 (some 0), .simulate 0 0 surplus surplus,
          .migrate 0 none] = .ok timer ∧
      ∀ turns, timer.step turns (.synchronized 0 surplus) =
        .error .endless := by
  refine ⟨_, rfl, fun turns => ?_⟩
  have endless : ∀ timer : SmtTimer 1, (∀ slot, ¬ timer.Running slot) →
      timer.finish turns 0 0 surplus = .error .endless := by
    intro timer nobody
    unfold finish
    rw [barrierRelease_endless nobody]
    rfl
  exact endless _ (by decide)

end ChipletSniper.Rob.SmtTimer
