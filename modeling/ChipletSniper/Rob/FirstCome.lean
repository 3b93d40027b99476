import ChipletSniper.Library.Intervals
import ChipletSniper.Rob.RobTimer
import Mathlib.Order.Bounds.Basic

/-!
# The contention model is first come, first served

Each unit keeps the time at which it becomes free. For requests in order, an
instant lies in as many services as there are units busy at it, and a request
begins at the first instant at which fewer than all units are.
-/

namespace ChipletSniper.Rob.ContentionModel

open Library (Assigned Covers coverage)

/-! ## The scan in `getStartTime` -/

/-- The loop of `getStartTime`, which returns at the first free entry. -/
def peekStart (time : List (Nat × Nat)) (tStart : Nat) :
    Nat → Nat → Nat → Nat
  | 0, _, unit =>
      if tStart < (time.getD unit (0, 0)).1 then (time.getD unit (0, 0)).1
      else tStart
  | remaining + 1, i, unit =>
      if (time.getD i (0, 0)).1 ≤ tStart then tStart
      else if (time.getD i (0, 0)).1 < (time.getD unit (0, 0)).1 then
        peekStart time tStart remaining (i + 1) i
      else
        peekStart time tStart remaining (i + 1) unit

def getStartTime (queue : ContentionModel) (tStart : Nat) : Nat :=
  if queue.time.length = 0 then tStart
  else if tStart < queue.last then tStart
  else peekStart queue.time tStart queue.time.length 0 0

/-- When a unit becomes free. -/
def freeAt (queue : ContentionModel) (unit : Nat) : Nat :=
  (queue.time.getD unit (0, 0)).1

/-- The unit that a request takes. -/
def chosen (queue : ContentionModel) (tStart : Nat) : Nat :=
  findUnit queue.time tStart queue.time.length 0 0

/-- When a request begins. -/
def begins (queue : ContentionModel) (tStart : Nat) : Nat :=
  max tStart (queue.freeAt (queue.chosen tStart))

variable {queue : ContentionModel}

/-- The two scans stop at the same entry. -/
theorem peekStart_eq (time : List (Nat × Nat)) (tStart : Nat) :
    ∀ remaining i unit,
      peekStart time tStart remaining i unit =
        max tStart (time.getD (findUnit time tStart remaining i unit)
          (0, 0)).1 := by
  intro remaining
  induction remaining with
  | zero =>
      intro i unit
      rw [peekStart, findUnit]
      split
      next late => exact (Nat.max_eq_right late.le).symm
      next early => exact (Nat.max_eq_left (not_lt.mp early)).symm
  | succ remaining ih =>
      intro i unit
      rw [peekStart, findUnit]
      split
      next free => exact (Nat.max_eq_left free).symm
      next =>
          split
          next => exact ih (i + 1) i
          next => exact ih (i + 1) unit

/-- The scan finds an entry that is free, or the first one that becomes
free. -/
theorem findUnit_spec (time : List (Nat × Nat)) (tStart : Nat) :
    ∀ remaining i unit,
      i + remaining = time.length → unit < time.length →
      (∀ j < i, (time.getD unit (0, 0)).1 ≤ (time.getD j (0, 0)).1) →
      findUnit time tStart remaining i unit < time.length ∧
        ((time.getD (findUnit time tStart remaining i unit) (0, 0)).1 ≤
            tStart ∨
          ∀ j < time.length,
            (time.getD (findUnit time tStart remaining i unit) (0, 0)).1 ≤
              (time.getD j (0, 0)).1) := by
  intro remaining
  induction remaining with
  | zero =>
      intro i unit whole inside least
      rw [findUnit]
      exact ⟨inside, Or.inr (whole ▸ least)⟩
  | succ remaining ih =>
      intro i unit whole inside least
      rw [findUnit]
      split
      next free => exact ⟨by omega, Or.inl free⟩
      next =>
          split
          next earlier =>
              refine ih (i + 1) i (by omega) (by omega)
                fun j below => ?_
              rcases Nat.lt_succ_iff_lt_or_eq.mp below with before | rfl
              · exact earlier.le.trans (least j before)
              · exact le_refl _
          next later =>
              refine ih (i + 1) unit (by omega) inside
                fun j below => ?_
              rcases Nat.lt_succ_iff_lt_or_eq.mp below with before | rfl
              · exact least j before
              · exact not_lt.mp later

theorem chosen_lt (positive : 0 < queue.time.length) (tStart : Nat) :
    queue.chosen tStart < queue.time.length :=
  (findUnit_spec queue.time tStart queue.time.length 0 0 (Nat.zero_add _)
    positive fun _ below => absurd below (Nat.not_lt_zero _)).1

/-- No unit is free for the request earlier than it begins. -/
theorem begins_le (positive : 0 < queue.time.length) (tStart : Nat)
    {unit : Nat} (inside : unit < queue.time.length) :
    queue.begins tStart ≤ max tStart (queue.freeAt unit) := by
  rcases (findUnit_spec queue.time tStart queue.time.length 0 0
    (Nat.zero_add _) positive
      fun _ below => absurd below (Nat.not_lt_zero _)).2 with free | least
  · exact (Nat.max_le.mpr ⟨le_refl _, free⟩).trans (Nat.le_max_left _ _)
  · exact max_le_max (le_refl _) (least unit inside)

theorem getStartTime_eq (positive : 0 < queue.time.length) {tStart : Nat}
    (ordered : queue.last ≤ tStart) :
    queue.getStartTime tStart = queue.begins tStart := by
  unfold getStartTime
  rw [if_neg positive.ne', if_neg (not_lt.mpr ordered), peekStart_eq]
  rfl

/-- A request in order. -/
theorem getCompletionTime_eq (positive : 0 < queue.time.length)
    {tStart : Nat} (tDelay tag : Nat) (arrived : 0 < tStart)
    (ordered : queue.last ≤ tStart) :
    queue.getCompletionTime tStart tDelay tag =
      (queue.begins tStart + tDelay,
        ⟨queue.time.set (queue.chosen tStart)
          (queue.begins tStart + tDelay, tag), tStart⟩) := by
  have same : (if tStart < (queue.time.getD (queue.chosen tStart)
      (0, 0)).1 then (queue.time.getD (queue.chosen tStart) (0, 0)).1
        else tStart) = queue.begins tStart := by
    unfold begins
    split
    next late => exact (Nat.max_eq_right late.le).symm
    next early => exact (Nat.max_eq_left (not_lt.mp early)).symm
  unfold getCompletionTime
  rw [if_neg positive.ne', if_neg arrived.ne', if_neg (not_lt.mpr ordered)]
  dsimp only
  rw [← chosen, same]

/-! ## Services -/

structure Request where
  tStart : Nat
  tDelay : Nat
  tag : Nat

/-- `[end - delay, end)`, with the end that `getCompletionTime` returns. -/
def service (queue : ContentionModel) (request : Request) : Nat × Nat :=
  let tEnd := (queue.getCompletionTime request.tStart request.tDelay
    request.tag).1
  (tEnd - request.tDelay, tEnd)

def next (queue : ContentionModel) (request : Request) : ContentionModel :=
  (queue.getCompletionTime request.tStart request.tDelay request.tag).2

def after (queue : ContentionModel) (requests : List Request) :
    ContentionModel :=
  requests.foldl next queue

/-- The services of a sequence of calls. -/
def services (queue : ContentionModel) : List Request → List (Nat × Nat)
  | [] => []
  | request :: rest =>
      queue.service request :: (queue.next request).services rest

theorem services_concat (queue : ContentionModel) (requests : List Request)
    (request : Request) :
    queue.services (requests ++ [request]) =
      queue.services requests ++ [(queue.after requests).service request] := by
  induction requests generalizing queue with
  | nil => rfl
  | cons earlier rest ih =>
      rw [List.cons_append, services, services, ih]
      rfl

theorem after_concat (queue : ContentionModel) (requests : List Request)
    (request : Request) :
    queue.after (requests ++ [request]) =
      (queue.after requests).next request :=
  List.foldl_concat _ _ _ _

/-- What the times of the units say about the services so far, each with its
unit. -/
structure Served (queue : ContentionModel)
    (history : List (Nat × Nat × Nat)) (tags : List Nat) : Prop where
  positive : 0 < queue.time.length
  assigned : Assigned queue.time.length history
  finished : ∀ given ∈ history, given.2.2 ≤ queue.freeAt given.1
  gapless : ∀ unit instant,
    queue.last ≤ instant → instant < queue.freeAt unit →
      ∃ given ∈ history, given.1 = unit ∧ Covers given.2 instant
  inOrder : ∀ given ∈ history, ∀ unit < queue.time.length,
    given.2.1 ≤ max queue.last (queue.freeAt unit)
  tagged : ∀ unit < queue.time.length,
    queue.freeAt unit = 0 ∨ (queue.time.getD unit (0, 0)).2 ∈ tags

namespace Served

variable {history : List (Nat × Nat × Nat)} {tags : List Nat}
variable {tStart : Nat}

theorem of_start {numOutstanding : Nat} (positive : 0 < numOutstanding) :
    (start numOutstanding).Served [] [] := by
  have free : ∀ unit, (start numOutstanding).freeAt unit = 0 := by
    intro unit
    unfold freeAt start
    rw [List.getD_eq_getElem?_getD, List.getElem?_replicate]
    split <;> rfl
  refine ⟨?_, ⟨fun _ member => absurd member List.not_mem_nil,
    List.Pairwise.nil⟩, fun _ member => absurd member List.not_mem_nil,
    fun unit instant _ below => ?_,
    fun _ member => absurd member List.not_mem_nil,
    fun unit _ => Or.inl (free unit)⟩
  · exact positive.trans_eq List.length_replicate.symm
  · exact absurd below (free unit ▸ Nat.not_lt_zero instant)

/-- Fewer than all units serve at an instant from the last request on when
one of them is free. -/
theorem coverage_lt_iff (served : queue.Served history tags) {instant : Nat}
    (current : queue.last ≤ instant) :
    coverage (history.map Prod.snd) instant < queue.time.length ↔
      ∃ unit < queue.time.length, queue.freeAt unit ≤ instant := by
  rw [served.assigned.coverage_lt_iff]
  constructor
  · rintro ⟨unit, inside, idle⟩
    refine ⟨unit, inside, not_lt.mp fun later => ?_⟩
    obtain ⟨given, member, same, covers⟩ :=
      served.gapless unit instant current later
    exact idle given member same covers
  · rintro ⟨unit, inside, free⟩
    refine ⟨unit, inside, fun given member same covers => ?_⟩
    exact absurd ((served.finished given member).trans (same ▸ free))
      (not_le.mpr covers.2)

/-- A request begins at the first instant at which a unit is free. -/
theorem begins_isLeast (served : queue.Served history tags)
    (ordered : queue.last ≤ tStart) :
    IsLeast {instant | tStart ≤ instant ∧
      coverage (history.map Prod.snd) instant < queue.time.length}
      (queue.begins tStart) := by
  have waits : tStart ≤ queue.begins tStart := Nat.le_max_left _ _
  constructor
  · exact ⟨waits, (served.coverage_lt_iff (ordered.trans waits)).mpr
      ⟨queue.chosen tStart, chosen_lt served.positive tStart,
        Nat.le_max_right _ _⟩⟩
  · rintro instant ⟨arrived, fewer⟩
    obtain ⟨unit, inside, free⟩ :=
      (served.coverage_lt_iff (ordered.trans arrived)).mp fewer
    exact (begins_le served.positive tStart inside).trans
      (Nat.max_le.mpr ⟨arrived, free⟩)

theorem begins_eq_iff (served : queue.Served history tags)
    (ordered : queue.last ≤ tStart) :
    queue.begins tStart = tStart ↔
      coverage (history.map Prod.snd) tStart < queue.time.length := by
  have least := served.begins_isLeast ordered
  constructor
  · intro now
    exact now ▸ least.1.2
  · intro fewer
    exact le_antisymm (least.2 ⟨le_refl _, fewer⟩) least.1.1

/-- Nothing begins before what has begun earlier. -/
theorem le_begins (served : queue.Served history tags)
    (ordered : queue.last ≤ tStart) {given : Nat × Nat × Nat}
    (member : given ∈ history) : given.2.1 ≤ queue.begins tStart :=
  (served.inOrder given member (queue.chosen tStart)
    (chosen_lt served.positive tStart)).trans
      (max_le_max ordered (le_refl _))

/-- An unused tag finds a free slot only where a unit is free. -/
theorem hasFreeSlot_iff (served : queue.Served history tags)
    (ordered : queue.last ≤ tStart) {tag : Nat} (unused : tag ∉ tags) :
    queue.hasFreeSlot tStart tag = true ↔ queue.begins tStart = tStart := by
  rw [served.begins_eq_iff ordered, served.coverage_lt_iff ordered]
  unfold hasFreeSlot
  rw [List.any_eq_true]
  constructor
  · rintro ⟨place, member, found⟩
    obtain ⟨unit, inside, rfl⟩ := List.getElem_of_mem member
    refine ⟨unit, inside, ?_⟩
    have here : queue.time.getD unit (0, 0) = queue.time[unit] :=
      List.getD_eq_getElem _ _ inside
    have tagged := served.tagged unit inside
    unfold freeAt at tagged ⊢
    rw [here] at tagged ⊢
    rcases Bool.or_eq_true_iff.mp found with free | same
    · exact of_decide_eq_true free
    · rcases tagged with zero | used
      · exact zero ▸ Nat.zero_le _
      · exact absurd (beq_iff_eq.mp same ▸ used) unused
  · rintro ⟨unit, inside, free⟩
    refine ⟨queue.time[unit], List.getElem_mem inside, ?_⟩
    unfold freeAt at free
    rw [List.getD_eq_getElem _ _ inside] at free
    rw [decide_eq_true free, Bool.true_or]

/-! ## One request -/

variable {request : Request}

theorem service_eq (served : queue.Served history tags)
    (arrived : 0 < request.tStart) (ordered : queue.last ≤ request.tStart) :
    queue.service request =
      (queue.begins request.tStart,
        queue.begins request.tStart + request.tDelay) := by
  unfold service
  rw [getCompletionTime_eq served.positive _ _ arrived ordered]
  dsimp only
  rw [Nat.add_sub_cancel]

theorem next_eq (served : queue.Served history tags)
    (arrived : 0 < request.tStart) (ordered : queue.last ≤ request.tStart) :
    queue.next request =
      ⟨queue.time.set (queue.chosen request.tStart)
        (queue.begins request.tStart + request.tDelay, request.tag),
        request.tStart⟩ := by
  unfold next
  rw [getCompletionTime_eq served.positive _ _ arrived ordered]

theorem getD_next (served : queue.Served history tags)
    (arrived : 0 < request.tStart) (ordered : queue.last ≤ request.tStart)
    (unit : Nat) :
    (queue.next request).time.getD unit (0, 0) =
      if unit = queue.chosen request.tStart then
        (queue.begins request.tStart + request.tDelay, request.tag)
      else queue.time.getD unit (0, 0) := by
  rw [served.next_eq arrived ordered, List.getD_eq_getElem?_getD,
    List.getD_eq_getElem?_getD]
  split
  next same =>
      rw [same, List.getElem?_set_self
        (chosen_lt served.positive request.tStart)]
      rfl
  next other => rw [List.getElem?_set_ne (Ne.symm other)]

theorem freeAt_next (served : queue.Served history tags)
    (arrived : 0 < request.tStart) (ordered : queue.last ≤ request.tStart)
    (unit : Nat) :
    (queue.next request).freeAt unit =
      if unit = queue.chosen request.tStart then
        queue.begins request.tStart + request.tDelay
      else queue.freeAt unit := by
  unfold freeAt
  rw [served.getD_next arrived ordered]
  split
  · rfl
  · rfl

/-- No unit becomes free earlier. -/
theorem le_freeAt_next (served : queue.Served history tags)
    (arrived : 0 < request.tStart) (ordered : queue.last ≤ request.tStart)
    (unit : Nat) : queue.freeAt unit ≤ (queue.next request).freeAt unit := by
  rw [served.freeAt_next arrived ordered]
  split
  next same =>
      rw [same]
      exact (Nat.le_max_right _ _).trans (Nat.le_add_right _ _)
  next => exact le_refl _

theorem length_next (served : queue.Served history tags)
    (arrived : 0 < request.tStart) (ordered : queue.last ≤ request.tStart) :
    (queue.next request).time.length = queue.time.length := by
  rw [served.next_eq arrived ordered]
  exact List.length_set

theorem last_next (served : queue.Served history tags)
    (arrived : 0 < request.tStart) (ordered : queue.last ≤ request.tStart) :
    (queue.next request).last = request.tStart := by
  rw [served.next_eq arrived ordered]

/-- The chosen unit gives its next service after all it has given. -/
theorem next (served : queue.Served history tags)
    (arrived : 0 < request.tStart) (ordered : queue.last ≤ request.tStart) :
    (queue.next request).Served
      (history ++ [(queue.chosen request.tStart, queue.service request)])
      (tags ++ [request.tag]) := by
  have inside := chosen_lt served.positive request.tStart
  have length := served.length_next arrived ordered
  have last := served.last_next arrived ordered
  have free := served.freeAt_next arrived ordered
  have grows := served.le_freeAt_next arrived ordered
  have serving := served.service_eq arrived ordered
  refine ⟨length ▸ served.positive, ?_, fun given member => ?_,
    fun unit instant current below => ?_,
    fun given member unit place => ?_, fun unit place => ?_⟩
  · rw [length]
    refine served.assigned.serve inside fun earlier member same => ?_
    rw [serving]
    exact (served.finished earlier member).trans
      (same ▸ Nat.le_max_right _ _)
  · rcases List.mem_append.mp member with earlier | new
    · exact (served.finished given earlier).trans (grows given.1)
    · rw [List.mem_singleton.mp new, free, if_pos rfl, serving]
  · rw [last] at current
    rw [free] at below
    by_cases same : unit = queue.chosen request.tStart
    · rw [if_pos same] at below
      by_cases begun : queue.begins request.tStart ≤ instant
      · refine ⟨_, List.mem_append_right _ List.mem_cons_self, same.symm, ?_⟩
        rw [serving]
        exact ⟨begun, below⟩
      · -- The unit waits from the request on, so it was busy.
        have before : instant < queue.freeAt unit := by
          unfold begins at begun
          rw [same]
          omega
        obtain ⟨given, member, itself, covers⟩ :=
          served.gapless unit instant (ordered.trans current) before
        exact ⟨given, List.mem_append_left _ member, itself, covers⟩
    · rw [if_neg same] at below
      obtain ⟨given, member, itself, covers⟩ :=
        served.gapless unit instant (ordered.trans current) below
      exact ⟨given, List.mem_append_left _ member, itself, covers⟩
  · rw [last]
    rw [length] at place
    rcases List.mem_append.mp member with earlier | new
    · exact (served.inOrder given earlier unit place).trans
        (max_le_max ordered (grows unit))
    · rw [List.mem_singleton.mp new, serving]
      exact (begins_le served.positive request.tStart place).trans
        (max_le_max (le_refl _) (grows unit))
  · rw [length] at place
    rw [free, served.getD_next arrived ordered]
    split
    · exact Or.inr (List.mem_append_right _ List.mem_cons_self)
    · exact (served.tagged unit place).imp_right (List.mem_append_left _)

end Served

/-! ## Runs -/

/-- Calls with positive times that do not decrease. -/
structure InOrder (requests : List Request) : Prop where
  arrived : ∀ request ∈ requests, 0 < request.tStart
  ordered : requests.Pairwise fun first second =>
    first.tStart ≤ second.tStart

/-- After calls in order, the units have given their services. -/
theorem exists_served {numOutstanding : Nat} (positive : 0 < numOutstanding)
    {requests : List Request} (inOrder : InOrder requests) :
    ∃ history,
      ((start numOutstanding).after requests).Served history
        (requests.map Request.tag) ∧
      history.map Prod.snd = (start numOutstanding).services requests ∧
      ((start numOutstanding).after requests).time.length =
        numOutstanding ∧
      (((start numOutstanding).after requests).last = 0 ∨
        ∃ request ∈ requests,
          ((start numOutstanding).after requests).last =
            request.tStart) := by
  induction requests using List.reverseRecOn with
  | nil =>
      exact ⟨[], .of_start positive, rfl, List.length_replicate, Or.inl rfl⟩
  | append_singleton requests request ih =>
      obtain ⟨earlier, _, across⟩ := List.pairwise_append.mp inOrder.ordered
      obtain ⟨history, served, given, length, last⟩ := ih
        ⟨fun other member =>
          inOrder.arrived other (List.mem_append_left _ member), earlier⟩
      have arrived := inOrder.arrived request
        (List.mem_append_right _ List.mem_cons_self)
      have ordered : ((start numOutstanding).after requests).last ≤
          request.tStart := by
        rcases last with zero | ⟨other, member, same⟩
        · exact zero ▸ Nat.zero_le _
        · exact same ▸ across other member request List.mem_cons_self
      rw [after_concat, services_concat, List.map_append]
      refine ⟨_, served.next arrived ordered, ?_,
        (served.length_next arrived ordered).trans length,
        Or.inr ⟨request, List.mem_append_right _ List.mem_cons_self,
          served.last_next arrived ordered⟩⟩
      rw [List.map_append, given]
      rfl

/-- A call after the calls of earlier requests, on a queue of so many units. -/
structure FirstCome (units : Nat) (requests : List Request)
    (request : Request) : Prop where
  capacity : ∀ instant,
    coverage ((start units).services (requests ++ [request])) instant ≤ units
  length : (((start units).after requests).service request).2 =
    (((start units).after requests).service request).1 + request.tDelay
  notBefore : request.tStart ≤
    (((start units).after requests).service request).1
  notOvertaking : ∀ given ∈ (start units).services requests,
    given.1 ≤ (((start units).after requests).service request).1
  atOnce :
    (((start units).after requests).service request).1 = request.tStart ↔
      coverage ((start units).services requests) request.tStart < units
  earliest :
    IsLeast {instant | request.tStart ≤ instant ∧
      coverage ((start units).services requests) instant < units}
      (((start units).after requests).service request).1
  peeked : ((start units).after requests).getStartTime request.tStart =
    (((start units).after requests).service request).1
  freeSlot : ∀ tag ∉ requests.map Request.tag,
    ((start units).after requests).hasFreeSlot request.tStart tag = true ↔
      (((start units).after requests).service request).1 = request.tStart

/-- For calls in order, the contention model is a first-come first-served
queue of so many units. -/
theorem first_come_first_served {units : Nat} (positive : 0 < units)
    {requests : List Request} {request : Request}
    (inOrder : InOrder (requests ++ [request])) :
    FirstCome units requests request := by
  have before : InOrder requests :=
    ⟨fun other member =>
      inOrder.arrived other (List.mem_append_left _ member),
      (List.pairwise_append.mp inOrder.ordered).1⟩
  obtain ⟨history, served, given, length, last⟩ :=
    exists_served positive before
  obtain ⟨whole, servedWhole, givenWhole, lengthWhole, _⟩ :=
    exists_served positive inOrder
  have arrived := inOrder.arrived request
    (List.mem_append_right _ List.mem_cons_self)
  have ordered : ((start units).after requests).last ≤ request.tStart := by
    rcases last with zero | ⟨other, member, same⟩
    · exact zero ▸ Nat.zero_le _
    · exact same ▸ (List.pairwise_append.mp inOrder.ordered).2.2 other
        member request List.mem_cons_self
  have serving := served.service_eq arrived ordered
  have atOnce := served.begins_eq_iff ordered
  have earliest := served.begins_isLeast ordered
  rw [given, length] at atOnce earliest
  refine ⟨fun instant => ?_, ?_, ?_, fun earlier member => ?_, ?_, ?_, ?_,
    fun tag unused => ?_⟩
  · rw [← givenWhole]
    exact (servedWhole.assigned.coverage_le instant).trans_eq lengthWhole
  · rw [serving]
  · rw [serving]
    exact earliest.1.1
  · rw [← given] at member
    obtain ⟨place, found, rfl⟩ := List.mem_map.mp member
    rw [serving]
    exact served.le_begins ordered found
  · rw [serving]
    exact atOnce
  · rw [serving]
    exact earliest
  · rw [serving]
    exact getStartTime_eq served.positive ordered
  · rw [serving]
    exact served.hasFreeSlot_iff ordered unused

/-- The third request finds both units busy. -/
theorem first_come_first_served_two :
    FirstCome 2 [⟨10, 40, 1⟩, ⟨20, 10, 2⟩] ⟨25, 5, 3⟩ :=
  first_come_first_served (by decide)
    ⟨by decide, by decide⟩

end ChipletSniper.Rob.ContentionModel
