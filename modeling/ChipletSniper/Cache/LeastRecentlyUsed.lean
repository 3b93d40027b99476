import ChipletSniper.Cache.CacheSet

/-!
# Least recently used

The counters of `CacheSetLRU` order the ways by their last touch.  The search
for the victim starts with way `0` and the counter `0`, so it never finds the
way that was touched last, and falls back to way `0` when no other way may be
replaced.
-/

namespace ChipletSniper.Cache

open CacheSet Function

variable {n : Nat}

/-! ## The counters -/

@[simp]
theorem moveToMRU_self (way : Fin n) (bits : Fin n → Nat) :
    moveToMRU way bits way = 0 :=
  if_pos rfl

theorem moveToMRU_of_ne {way other : Fin n} (different : other ≠ way)
    (bits : Fin n → Nat) :
    moveToMRU way bits other =
      if bits other < bits way then bits other + 1 else bits other :=
  if_neg different

theorem moveToMRU_le {bits : Fin n → Nat} {bound : Nat}
    (below : ∀ way, bits way < bound) (way other : Fin n) :
    moveToMRU way bits other < bound := by
  have otherBelow := below other
  have wayBelow := below way
  rw [moveToMRU]
  split
  next => omega
  next => split <;> omega

/-- The order of the other ways does not change. -/
theorem moveToMRU_lt {bits : Fin n → Nat} {way first second : Fin n}
    (firstOther : first ≠ way) (secondOther : second ≠ way)
    (distinct : bits second ≠ bits way) (less : bits first < bits second) :
    moveToMRU way bits first < moveToMRU way bits second := by
  rw [moveToMRU_of_ne firstOther, moveToMRU_of_ne secondOther]
  split <;> split <;> omega

theorem moveToMRU_pos {bits : Fin n → Nat} {way other : Fin n}
    (different : other ≠ way) (distinct : bits other ≠ bits way) :
    0 < moveToMRU way bits other := by
  rw [moveToMRU_of_ne different]
  split <;> omega

theorem moveToMRU_injective {bits : Fin n → Nat}
    (injective : Injective bits) (way : Fin n) :
    Injective (moveToMRU way bits) := by
  have apart : ∀ {other : Fin n}, other ≠ way → bits other ≠ bits way :=
    fun different same => different (injective same)
  intro first second same
  by_contra different
  by_cases firstIs : first = way
  · have positive : 0 < moveToMRU way bits second :=
      moveToMRU_pos (fun isWay => different (firstIs.trans isWay.symm))
        (apart fun isWay => different (firstIs.trans isWay.symm))
    rw [← same, firstIs, moveToMRU_self] at positive
    exact absurd positive (Nat.lt_irrefl 0)
  · by_cases secondIs : second = way
    · have positive : 0 < moveToMRU way bits first :=
        moveToMRU_pos firstIs (apart firstIs)
      rw [same, secondIs, moveToMRU_self] at positive
      exact absurd positive (Nat.lt_irrefl 0)
    · have distinct : bits first ≠ bits second :=
        fun equal => different (injective equal)
      rcases Nat.lt_or_gt_of_ne distinct with less | greater
      · have order := moveToMRU_lt firstIs secondIs (apart secondIs) less
        omega
      · have order := moveToMRU_lt secondIs firstIs (apart firstIs) greater
        omega

/-! ## The victim -/

section Victim

variable {blocks : Blocks n} {bits : Fin n → Nat}

/-- The search through some ways, from the best that was found before. -/
theorem foldl_best (ways : List (Fin n)) (best : Fin n × Nat) :
    let last := ways.foldl (fun (best : Fin n × Nat) way =>
      if best.2 < bits way ∧ isValidReplacement blocks way = true then
        (way, bits way)
      else best) best
    best.2 ≤ last.2 ∧
      (∀ way ∈ ways, isValidReplacement blocks way = true →
        bits way ≤ last.2) ∧
      (last = best ∨ best.2 < last.2 ∧ last.2 = bits last.1 ∧
        isValidReplacement blocks last.1 = true) := by
  induction ways generalizing best with
  | nil => exact ⟨Nat.le_refl _, by simp, Or.inl rfl⟩
  | cons way ways ih =>
      rw [List.foldl_cons]
      by_cases better : best.2 < bits way ∧ isValidReplacement blocks way = true
      · rw [if_pos better]
        obtain ⟨grows, largest, isLast⟩ := ih (way, bits way)
        refine ⟨Nat.le_trans (Nat.le_of_lt better.1) grows, ?_, Or.inr ?_⟩
        · intro other member isValid
          cases List.mem_cons.mp member with
          | inl same => rw [same]; exact grows
          | inr later => exact largest other later isValid
        · cases isLast with
          | inl same => rw [same]; exact ⟨better.1, rfl, better.2⟩
          | inr found => exact ⟨Nat.lt_trans better.1 found.1, found.2⟩
      · rw [if_neg better]
        obtain ⟨grows, largest, isLast⟩ := ih best
        refine ⟨grows, ?_, isLast⟩
        intro other member isValid
        cases List.mem_cons.mp member with
        | inl same =>
            rw [same] at isValid ⊢
            have small : bits way ≤ best.2 := by
              by_contra large
              exact better ⟨by omega, isValid⟩
            exact Nat.le_trans small grows
        | inr later => exact largest other later isValid

variable [NeZero n]

/-- Either only ways with the counter `0` may be replaced, and way `0` is
returned, or a way with the largest counter is. -/
theorem Lru.victim_spec (blocks : Blocks n) (bits : Fin n → Nat) :
    ((∀ way, isValidReplacement blocks way = true → bits way = 0) ∧
      Lru.victim blocks bits = 0) ∨
    (0 < bits (Lru.victim blocks bits) ∧
      isValidReplacement blocks (Lru.victim blocks bits) = true ∧
      ∀ way, isValidReplacement blocks way = true →
        bits way ≤ bits (Lru.victim blocks bits)) := by
  obtain ⟨-, largest, isLast⟩ := @foldl_best n blocks bits
    (List.finRange n) (0, 0)
  rw [Lru.victim]
  cases isLast with
  | inl same =>
      left
      rw [same] at largest ⊢
      refine ⟨fun way isValid => ?_, rfl⟩
      have small := largest way (List.mem_finRange way) isValid
      exact Nat.le_zero.mp small
  | inr found =>
      right
      rw [found.2.1] at largest
      have positive := found.1
      rw [found.2.1] at positive
      exact ⟨positive, found.2.2,
        fun way isValid => largest way (List.mem_finRange way) isValid⟩

end Victim

/-! ## Runs -/

/-- The touches of a run, the last one first. -/
def touches {policy : Policy n} (accesses : List (Access policy)) :
    List (Fin n) :=
  accesses.map Access.way

/-- The last touch of a way is later than that of another. -/
def MoreRecent (touches : List (Fin n)) (first second : Fin n) : Prop :=
  touches.idxOf first < touches.idxOf second

/-- Of the ways that may be replaced, the one whose last touch is the
earliest. -/
def LeastRecent (touches : List (Fin n)) (blocks : Blocks n) (way : Fin n) :
    Prop :=
  isValidReplacement blocks way = true ∧
    ∀ other, isValidReplacement blocks other = true → other ≠ way →
      MoreRecent touches other way

/-- The counters are a permutation of the numbers below `n`, in the order of
the touches. -/
structure Ordered (touches : List (Fin n)) (bits : Fin n → Nat) : Prop where
  injective : Injective bits
  below : ∀ way, bits way < n
  recent : ∀ first second, MoreRecent touches first second →
    bits first < bits second

theorem ordered_initialBits (small : n ≤ 256) : Ordered [] (initialBits (n := n)) where
  injective := by
    intro first second same
    have firstBelow := first.isLt
    have secondBelow := second.isLt
    simp only [initialBits] at same
    apply Fin.ext
    omega
  below := fun way => Nat.lt_of_le_of_lt (Nat.mod_le _ _) way.isLt
  recent := fun _ _ less => absurd less (Nat.lt_irrefl _)

theorem Ordered.touch {touches : List (Fin n)} {bits : Fin n → Nat}
    (ordered : Ordered touches bits) (way : Fin n) :
    Ordered (way :: touches) (moveToMRU way bits) where
  injective := moveToMRU_injective ordered.injective way
  below := moveToMRU_le ordered.below way
  recent := by
    have apart : ∀ {other : Fin n}, other ≠ way → bits other ≠ bits way :=
      fun different same => different (ordered.injective same)
    intro first second less
    rw [MoreRecent] at less
    by_cases secondIs : second = way
    · rw [secondIs, List.idxOf_cons_self] at less
      exact absurd less (Nat.not_lt_zero _)
    · by_cases firstIs : first = way
      · rw [firstIs, moveToMRU_self]
        exact moveToMRU_pos secondIs (apart secondIs)
      · rw [List.idxOf_cons_ne _ (Ne.symm firstIs),
          List.idxOf_cons_ne _ (Ne.symm secondIs)] at less
        exact moveToMRU_lt firstIs secondIs (apart secondIs)
          (ordered.recent first second (Nat.lt_of_succ_lt_succ less))

/-- What holds of the counters and the blocks in a run. -/
structure LruInv (touches : List (Fin n)) (blocks : Blocks n)
    (bits : Fin n → Nat) : Prop where
  ordered : Ordered touches bits
  head : ∀ way, touches.head? = some way → bits way = 0
  touched : ∀ way, (blocks way).valid = true → way ∈ touches

theorem LruInv.touch {touches : List (Fin n)} {blocks : Blocks n}
    {bits : Fin n → Nat} (inv : LruInv touches blocks bits) (way : Fin n) :
    LruInv (way :: touches) blocks (moveToMRU way bits) where
  ordered := inv.ordered.touch way
  head := by
    intro other isHead
    rw [List.head?_cons, Option.some_inj] at isHead
    rw [← isHead, moveToMRU_self]
  touched := fun other valid =>
    List.mem_cons_of_mem _ (inv.touched other valid)

theorem LruInv.setBlock {touches : List (Fin n)} {blocks : Blocks n}
    {bits : Fin n → Nat} (inv : LruInv touches blocks bits) {way : Fin n}
    {block : Block} (touched : block.valid = true → way ∈ touches) :
    LruInv touches (update blocks way block) bits where
  ordered := inv.ordered
  head := inv.head
  touched := by
    intro other valid
    by_cases same : other = way
    · rw [same, update_self] at valid
      rw [same]
      exact touched valid
    · rw [update_of_ne same] at valid
      exact inv.touched other valid

section Runs

variable [NeZero n]

/-- The counters of a set. -/
def lruBits {numAttempts : Nat} (set : CacheSet (lru n numAttempts)) :
    Fin n → Nat :=
  set.state

/-- With one attempt, a fill touches the way that it returns, and no other. -/
theorem lru_fill {fuel : Nat} {queries : Queries n} {blocks : Blocks n}
    {bits state : Fin n → Nat} {way : Fin n}
    (fill : (lru n 1).getReplacementIndex fuel queries blocks bits =
      .ok (way, state)) :
    state = moveToMRU way bits := by
  change Lru.getReplacementIndex 1 queries blocks bits = _ at fill
  rw [Lru.getReplacementIndex] at fill
  split at fill
  · cases fill
    rfl
  · rw [Lru.evict, if_neg (by simp)] at fill
    cases fill
    rfl

theorem lruInv_run (small : n ≤ 256) {set : CacheSet (lru n 1)}
    {accesses : List (Access (lru n 1))} (run : Run (lru n 1) set accesses) :
    LruInv (touches accesses) set.blocks (lruBits set) := by
  induction run with
  | start =>
      refine ⟨ordered_initialBits small, nofun, fun way valid => ?_⟩
      cases valid
  | fill _ fill _ inv =>
      have next := lru_fill fill
      rw [lruBits, CacheSet.setBlock]
      dsimp only
      rw [next]
      exact (inv.touch _).setBlock fun _ => List.mem_cons_self
  | @hit set accesses way state _ hit inv =>
      have next : state = moveToMRU way (lruBits set) := by
        change (increment n (lruBits set way) >>= fun _ => _) = _ at hit
        rw [increment] at hit
        split at hit
        next => cases hit; rfl
        next => cases hit
      rw [lruBits]
      dsimp only
      rw [next]
      exact inv.touch way
  | invalidate way _ inv =>
      exact inv.setBlock fun valid => by cases valid
  | setCState way _ _ held inv =>
      exact inv.setBlock fun _ => inv.touched way held

/-- The victim is the least recent way that may be replaced, unless that is
the way of the last touch and another one than way `0`. -/
theorem leastRecent_victim_iff {touches : List (Fin n)} {blocks : Blocks n}
    {bits : Fin n → Nat} (inv : LruInv touches blocks bits)
    (full : ∀ way, (blocks way).valid = true) :
    LeastRecent touches blocks (Lru.victim blocks bits) ↔
      isValidReplacement blocks 0 = true ∨
        ∃ way, isValidReplacement blocks way = true ∧
          touches.head? ≠ some way := by
  have spec := Lru.victim_spec blocks bits
  constructor
  · intro leastRecent
    cases spec with
    | inl fallback =>
        left
        rw [← fallback.2]
        exact leastRecent.1
    | inr found =>
        refine Or.inr ⟨_, found.2.1, fun isHead => ?_⟩
        have zero := inv.head _ isHead
        omega
  · intro condition
    cases spec with
    | inr found =>
        refine ⟨found.2.1, fun other isValid different => ?_⟩
        by_contra older
        have distinct : touches.idxOf other ≠
            touches.idxOf (Lru.victim blocks bits) := fun same =>
          different ((List.idxOf_inj (inv.touched _ (full other))).mp same)
        have less := inv.ordered.recent _ _
          (Nat.lt_of_le_of_ne (Nat.le_of_not_lt older) distinct.symm)
        have atMost := found.2.2 other isValid
        omega
    | inl fallback =>
        obtain ⟨zero, victimIs⟩ := fallback
        rw [victimIs]
        cases condition with
        | inl isValid =>
            refine ⟨isValid, fun other otherValid different => ?_⟩
            have same := (zero other otherValid).trans (zero 0 isValid).symm
            exact absurd (inv.ordered.injective same) different
        | inr exists_other =>
            obtain ⟨way, isValid, notHead⟩ := exists_other
            have member := inv.touched way (full way)
            cases isTouches : touches with
            | nil =>
                rw [isTouches] at member
                cases member
            | cons head rest =>
                rw [isTouches, List.head?_cons] at notHead
                have different : head ≠ way :=
                  fun same => notHead (congrArg some same)
                have less := inv.ordered.recent head way (by
                  rw [MoreRecent, isTouches, List.idxOf_cons_self,
                    List.idxOf_cons_ne _ different]
                  exact Nat.succ_pos _)
                have isZero := zero way isValid
                omega

/-- The counters follow the touches in every run, and the victim of a full set
is the least recent way that may be replaced, if way `0` may be replaced or
the way of the last touch is not the only one that may. -/
theorem lru_is_lru_iff (small : n ≤ 255) {set : CacheSet (lru n 1)}
    {accesses : List (Access (lru n 1))} (run : Run (lru n 1) set accesses) :
    Ordered (touches accesses) (lruBits set) ∧
    ((∀ way, (set.blocks way).valid = true) →
      (∃ way, isValidReplacement set.blocks way = true) →
      ∀ fuel queries,
        ((∃ victim state,
          (lru n 1).getReplacementIndex fuel queries set.blocks set.state =
            .ok (victim, state) ∧
          LeastRecent (touches accesses) set.blocks victim) ↔
        isValidReplacement set.blocks 0 = true ∨
          ∃ way, isValidReplacement set.blocks way = true ∧
            (touches accesses).head? ≠ some way)) := by
  have inv := lruInv_run (by omega) run
  refine ⟨inv.ordered, fun full _ fuel queries => ?_⟩
  rw [← leastRecent_victim_iff inv full]
  have noInvalid : firstInvalid set.blocks = none := by
    rw [firstInvalid, List.find?_eq_none]
    intro way _
    simp [full way]
  have chosen : (lru n 1).getReplacementIndex fuel queries set.blocks set.state =
      .ok (Lru.victim set.blocks (lruBits set),
        moveToMRU (Lru.victim set.blocks (lruBits set)) (lruBits set)) := by
    change Lru.getReplacementIndex 1 queries set.blocks (lruBits set) = _
    rw [Lru.getReplacementIndex, noInvalid]
    dsimp only
    rw [Lru.evict, if_neg (by simp)]
    rfl
  rw [chosen]
  constructor
  · rintro ⟨victim, state, same, leastRecent⟩
    cases same
    exact leastRecent
  · exact fun leastRecent => ⟨_, _, rfl, leastRecent⟩

end Runs

/-- Two ways that were filled in their order, the first in the given state. -/
def filledLru (cstate : CState) : CacheSet (lru 2 1) where
  state := moveToMRU 1 (moveToMRU 0 initialBits)
  blocks := update
    (update (update (fun _ => Block.empty) 0 ⟨true, .shared⟩)
      1 ⟨true, .shared⟩) 0 ⟨true, cstate⟩

/-- The accesses of the two fills. -/
def fills : List (Access (lru 2 1)) :=
  [⟨moveToMRU 0 initialBits, 1⟩, ⟨initialBits, 0⟩]

theorem run_filledLru (cstate : CState) :
    Run (lru 2 1) (filledLru cstate) fills :=
  .setCState 0 cstate
    (@Run.fill _ _ _ _ 0 (fun _ _ => false) _ _ _
      (@Run.fill _ _ _ _ 0 (fun _ _ => false) _ _ _ .start rfl rfl) rfl rfl)
    rfl

theorem lru_is_lru_filledLru :
    ∃ victim state,
      (lru 2 1).getReplacementIndex 0 (fun _ _ => false)
        (filledLru .shared).blocks (filledLru .shared).state =
          .ok (victim, state) ∧
      LeastRecent (touches fills) (filledLru .shared).blocks victim :=
  ((lru_is_lru_iff (by decide) (run_filledLru .shared)).2
    (by decide) ⟨0, by decide⟩ 0 _).mpr (Or.inl (by decide))

/-- The way that was touched last is the only one that may be replaced; the
victim is way `0`, whose upgrade is pending. -/
theorem lru_replaces_upgrading :
    ∃ set accesses, Run (lru 2 1) set accesses ∧
      (∀ way, (set.blocks way).valid = true) ∧
      isValidReplacement set.blocks 1 = true ∧
      (∃ state, (lru 2 1).getReplacementIndex 0 (fun _ _ => false) set.blocks
        set.state = .ok (0, state)) ∧
      isValidReplacement set.blocks 0 = false :=
  ⟨_, _, run_filledLru .sharedUpgrading, by decide, by decide, ⟨_, rfl⟩,
    by decide⟩

end ChipletSniper.Cache
