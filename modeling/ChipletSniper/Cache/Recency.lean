import ChipletSniper.Cache.LeastRecentlyUsed

/-!
# The counters of the recency policies

At most one way has the counter `0`.  With more than 256 ways several ways
start with it, but only until another way is touched, and a set is not full
before that.
-/

namespace ChipletSniper.Cache

open CacheSet Function

variable {n : Nat}

/-! ## The blocks of a set -/

section Blocks

variable {policy : Policy n}

/-- A block that is not valid has no pending upgrade. -/
def EmptyBlocks (blocks : Blocks n) : Prop :=
  ∀ way, (blocks way).valid = false → blocks way = Block.empty

theorem EmptyBlocks.update {blocks : Blocks n} (isEmpty : EmptyBlocks blocks)
    (way : Fin n) {block : Block}
    (kept : block.valid = false → block = Block.empty) :
    EmptyBlocks (update blocks way block) := by
  intro other notValid
  by_cases same : other = way
  · rw [same, update_self] at notValid ⊢
    exact kept notValid
  · rw [update_of_ne same] at notValid ⊢
    exact isEmpty other notValid

theorem emptyBlocks_run {set : CacheSet policy} {accesses : List (Access policy)}
    (run : Run policy set accesses) : EmptyBlocks set.blocks := by
  induction run with
  | start => exact fun _ _ => rfl
  | fill _ _ valid ih =>
      apply ih.update
      intro notValid
      rw [valid] at notValid
      cases notValid
  | hit _ _ ih => exact ih
  | invalidate way _ ih =>
      exact ih.update way fun _ => rfl
  | setCState way cstate _ _ ih =>
      apply ih.update
      intro notValid
      cases notValid

theorem EmptyBlocks.isValidReplacement {blocks : Blocks n}
    (isEmpty : EmptyBlocks blocks) {way : Fin n}
    (notValid : (blocks way).valid = false) :
    isValidReplacement blocks way = true := by
  rw [Cache.isValidReplacement, isEmpty way notValid]
  rfl

theorem firstInvalid_eq_none {blocks : Blocks n} :
    firstInvalid blocks = none ↔ ∀ way, (blocks way).valid = true := by
  simp [firstInvalid]

theorem notValid_of_firstInvalid {blocks : Blocks n} {way : Fin n}
    (first : firstInvalid blocks = some way) : (blocks way).valid = false := by
  have found := List.find?_some first
  simpa using found

end Blocks

/-! ## At most one way with the counter `0` -/

/-- Two ways with the counter `0` are the same. -/
def OneZero (bits : Fin n → Nat) : Prop :=
  ∀ first second, bits first = 0 → bits second = 0 → first = second

/-- A touch of a way with the counter `0`. -/
theorem moveToMRU_of_zero {bits : Fin n → Nat} {way : Fin n}
    (zero : bits way = 0) : moveToMRU way bits = bits := by
  funext other
  by_cases same : other = way
  · rw [same, moveToMRU_self, zero]
  · rw [moveToMRU_of_ne same, if_neg (by omega)]

/-- A touch of a way with another counter. -/
theorem oneZero_of_pos {bits : Fin n → Nat} {way : Fin n}
    (positive : bits way ≠ 0) : OneZero (moveToMRU way bits) := by
  have isWay : ∀ {other : Fin n}, moveToMRU way bits other = 0 →
      other = way := by
    intro other isZero
    by_contra different
    rw [moveToMRU_of_ne different] at isZero
    split at isZero <;> omega
  intro first second firstZero secondZero
  rw [isWay firstZero, isWay secondZero]

theorem OneZero.touch {bits : Fin n → Nat} (oneZero : OneZero bits)
    (way : Fin n) : OneZero (moveToMRU way bits) := by
  by_cases zero : bits way = 0
  · rw [moveToMRU_of_zero zero]
    exact oneZero
  · exact oneZero_of_pos zero

theorem OneZero.touches {bits : Fin n → Nat} (oneZero : OneZero bits)
    (ways : List (Fin n)) : OneZero (ways.foldr moveToMRU bits) := by
  induction ways with
  | nil => exact oneZero
  | cons way ways ih => exact ih.touch way

/-- One of two ways has another counter than `0`. -/
theorem OneZero.exists_ne_zero {bits : Fin n → Nat} (oneZero : OneZero bits)
    {first second : Fin n} (different : first ≠ second) :
    bits first ≠ 0 ∨ bits second ≠ 0 := by
  by_contra both
  have zeros : bits first = 0 ∧ bits second = 0 := by omega
  exact different (oneZero first second zeros.1 zeros.2)

theorem initialBits_lt (way : Fin n) : initialBits way < n :=
  Nat.lt_of_le_of_lt (Nat.mod_le _ _) way.isLt

theorem foldr_moveToMRU_lt {bits : Fin n → Nat} {bound : Nat}
    (below : ∀ way, bits way < bound) (ways : List (Fin n)) (way : Fin n) :
    ways.foldr moveToMRU bits way < bound := by
  induction ways generalizing way with
  | nil => exact below way
  | cons first ways ih =>
      exact moveToMRU_le ih first way

/-! ## Runs of the recency policies -/

/-- A policy with recency counters.  A fill touches the way that it returns,
after others in a full set. -/
structure Recency (policy : Policy n) where
  bits : policy.State → Fin n → Nat
  start : bits policy.start = initialBits
  fill : ∀ {fuel queries blocks state way next},
    policy.getReplacementIndex fuel queries blocks state = .ok (way, next) →
    ∃ rejected : List (Fin n),
      bits next = moveToMRU way (rejected.foldr moveToMRU (bits state)) ∧
        (rejected = [] ∨ ∀ way, (blocks way).valid = true)
  hit : ∀ {way state next},
    policy.updateReplacementIndex way state = .ok next →
    bits next = moveToMRU way (bits state)

structure RecencyInv (blocks : Blocks n) (bits : Fin n → Nat) : Prop where
  below : ∀ way, bits way < n
  zeros : OneZero bits ∨
    bits = initialBits ∧
      ∃ way, (blocks way).valid = false ∧ initialBits way ≠ 0

namespace RecencyInv

variable {blocks changed : Blocks n} {bits : Fin n → Nat}

theorem oneZero (inv : RecencyInv blocks bits)
    (full : ∀ way, (blocks way).valid = true) : OneZero bits := by
  cases inv.zeros with
  | inl oneZero => exact oneZero
  | inr initial =>
      obtain ⟨-, way, notValid, -⟩ := initial
      rw [full way] at notValid
      cases notValid

theorem change (inv : RecencyInv blocks bits)
    (kept : ∀ way, (blocks way).valid = false → (changed way).valid = false) :
    RecencyInv changed bits where
  below := inv.below
  zeros := by
    cases inv.zeros with
    | inl oneZero => exact Or.inl oneZero
    | inr initial =>
        obtain ⟨isInitial, way, notValid, positive⟩ := initial
        exact Or.inr ⟨isInitial, way, kept way notValid, positive⟩

/-- A touch of a way, which may also be filled. -/
theorem touch (inv : RecencyInv blocks bits) {way : Fin n}
    (kept : ∀ other, other ≠ way → changed other = blocks other) :
    RecencyInv changed (moveToMRU way bits) where
  below := moveToMRU_le inv.below way
  zeros := by
    cases inv.zeros with
    | inl oneZero => exact Or.inl (oneZero.touch way)
    | inr initial =>
        obtain ⟨isInitial, other, notValid, positive⟩ := initial
        by_cases zero : bits way = 0
        · right
          rw [moveToMRU_of_zero zero]
          refine ⟨isInitial, other, ?_, positive⟩
          have different : other ≠ way := by
            intro same
            rw [isInitial, ← same] at zero
            exact positive zero
          rw [kept other different]
          exact notValid
        · exact Or.inl (oneZero_of_pos zero)

theorem touches (inv : RecencyInv blocks bits)
    (full : ∀ way, (blocks way).valid = true) (ways : List (Fin n)) :
    RecencyInv blocks (ways.foldr moveToMRU bits) where
  below := foldr_moveToMRU_lt inv.below ways
  zeros := Or.inl ((inv.oneZero full).touches ways)

end RecencyInv

theorem recencyInv_start (two : 2 ≤ n) :
    RecencyInv (fun _ : Fin n => Block.empty) initialBits where
  below := initialBits_lt
  zeros := Or.inr ⟨rfl, ⟨1, two⟩, rfl, Nat.one_ne_zero⟩

theorem recencyInv_run {policy : Policy n} (recency : Recency policy)
    (two : 2 ≤ n) {set : CacheSet policy} {accesses : List (Access policy)}
    (run : Run policy set accesses) :
    RecencyInv set.blocks (recency.bits set.state) := by
  induction run with
  | start =>
      change RecencyInv _ (recency.bits policy.start)
      rw [recency.start]
      exact recencyInv_start two
  | @fill set _ _ _ way state _ _ fill _ inv =>
      obtain ⟨rejected, next, whole⟩ := recency.fill fill
      change RecencyInv (update set.blocks way _) (recency.bits state)
      rw [next]
      have before : RecencyInv set.blocks
          (rejected.foldr moveToMRU (recency.bits set.state)) := by
        cases whole with
        | inl nothing =>
            rw [nothing]
            exact inv
        | inr full => exact inv.touches full rejected
      exact before.touch fun other different =>
        update_of_ne different _ _
  | hit _ hit inv =>
      rw [recency.hit hit]
      exact inv.touch fun _ _ => rfl
  | @invalidate set _ way _ inv =>
      apply inv.change
      intro other notValid
      change (update set.blocks way _ other).valid = false
      by_cases same : other = way
      · rw [same, update_self]
        rfl
      · rw [update_of_ne same]
        exact notValid
  | @setCState set _ way _ _ held inv =>
      apply inv.change
      intro other notValid
      change (update set.blocks way _ other).valid = false
      have different : other ≠ way := by
        intro same
        rw [same, held] at notValid
        cases notValid
      rw [update_of_ne different]
      exact notValid

/-- Every rejected victim is touched, and so is the last one. -/
theorem Lru.evict_touches [NeZero n] {numAttempts : Nat} {queries : Queries n}
    {blocks : Blocks n} {left attempt : Nat} {bits next : Fin n → Nat}
    {way : Fin n}
    (evicts : Lru.evict numAttempts queries blocks left attempt bits =
      .ok (way, next)) :
    ∃ rejected : List (Fin n),
      next = moveToMRU way (rejected.foldr moveToMRU bits) := by
  induction left generalizing attempt bits with
  | zero => cases evicts
  | succ left ih =>
      rw [Lru.evict] at evicts
      split at evicts
      next =>
        obtain ⟨rejected, isNext⟩ := ih evicts
        refine ⟨rejected ++ [Lru.victim blocks bits], ?_⟩
        rw [List.foldr_append]
        exact isNext
      next =>
        cases evicts
        exact ⟨[], rfl⟩

theorem Lru.fill_touches [NeZero n] {numAttempts : Nat}
    {queries : Queries n} {blocks : Blocks n} {bits next : Fin n → Nat} {way : Fin n}
    (fill : Lru.getReplacementIndex numAttempts queries blocks bits =
      .ok (way, next)) :
    ∃ rejected : List (Fin n),
      next = moveToMRU way (rejected.foldr moveToMRU bits) ∧
        (rejected = [] ∨ ∀ way, (blocks way).valid = true) := by
  rw [Lru.getReplacementIndex] at fill
  split at fill
  next =>
    cases fill
    exact ⟨[], rfl, Or.inl rfl⟩
  next full =>
    obtain ⟨rejected, isNext⟩ := Lru.evict_touches fill
    exact ⟨rejected, isNext, Or.inr (firstInvalid_eq_none.mp full)⟩

theorem Lru.hit_touches {way : Fin n} {bits next : Fin n → Nat}
    (hit : Lru.updateReplacementIndex way bits = .ok next) :
    next = moveToMRU way bits := by
  rw [Lru.updateReplacementIndex, increment] at hit
  split at hit
  next => cases hit; rfl
  next => cases hit

def lruRecency [NeZero n] (numAttempts : Nat) :
    Recency (lru n numAttempts) where
  bits := fun bits => bits
  start := rfl
  fill := Lru.fill_touches
  hit := Lru.hit_touches

theorem Mru.fill_touches {blocks : Blocks n} {bits next : Fin n → Nat}
    {way : Fin n}
    (fill : Mru.getReplacementIndex blocks bits = .ok (way, next)) :
    next = moveToMRU way bits := by
  rw [Mru.getReplacementIndex] at fill
  split at fill
  next => cases fill; rfl
  next =>
    split at fill
    next => cases fill; rfl
    next => cases fill

def mruRecency : Recency (mru n) where
  bits := fun bits => bits
  start := rfl
  fill := fun fill => ⟨[], Mru.fill_touches fill, Or.inl rfl⟩
  hit := by
    intro way bits next hit
    cases hit
    rfl

theorem Nmru.fill_touches {blocks : Blocks n} {state next : NmruState n}
    {way : Fin n}
    (fill : Nmru.getReplacementIndex blocks state = .ok (way, next)) :
    next.bits = moveToMRU way state.bits := by
  rw [Nmru.getReplacementIndex] at fill
  split at fill
  next => cases fill; rfl
  next =>
    split at fill
    next => cases fill; rfl
    next => cases fill

def nmruRecency [NeZero n] : Recency (nmru n) where
  bits := fun state => state.bits
  start := rfl
  fill := fun fill => ⟨[], Nmru.fill_touches fill, Or.inl rfl⟩
  hit := by
    intro way state next hit
    cases hit
    rfl

end ChipletSniper.Cache
