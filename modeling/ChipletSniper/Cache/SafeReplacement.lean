import ChipletSniper.Cache.Replacement

/-!
# Replacement never takes a line whose upgrade is pending

For every policy and every set that a run of it reaches, the condition under
which replacement succeeds whatever the queries of the attempts answer.  Round
robin tests the way before the one that it returns, the tree and the intervals
find a way and only then test it, and a pointer of eight bits does not reach
every way of a large set.
-/

namespace ChipletSniper.Cache

open CacheSet

/-- `CacheBase::ReplacementPolicy`, with what the configuration adds. -/
inductive ReplacementPolicy where
  | roundRobin
  | lru
  | lruQbs (numAttempts : Nat)
  | nru
  | mru
  | nmru
  | plru
  | srrip (numBits : Nat)
  | srripQbs (numBits numAttempts : Nat)
  | random (seed : Nat)

namespace ReplacementPolicy

/-- `createCacheSet`. -/
def createCacheSet (n : Nat) [NeZero n] : ReplacementPolicy → Policy n
  | .roundRobin => Cache.roundRobin n
  | .lru => Cache.lru n 1
  | .lruQbs numAttempts => Cache.lru n numAttempts
  | .nru => Cache.nru n
  | .mru => Cache.mru n
  | .nmru => Cache.nmru n
  | .plru => Cache.plru n
  | .srrip numBits => Cache.srrip n numBits 1
  | .srripQbs numBits numAttempts => Cache.srrip n numBits numAttempts
  | .random seed => Cache.random n seed

/-- The associativities that the constructor accepts. -/
def Accepts (n : Nat) : ReplacementPolicy → Prop
  | .plru => n = 4 ∨ n = 8
  | _ => True

end ReplacementPolicy

variable {n : Nat}

/-- Replacement ends without an error, and with a way that may be replaced. -/
def ReplacesSafely {policy : Policy n} (set : CacheSet policy) : Prop :=
  ∀ queries, ∃ fuel way state,
    policy.getReplacementIndex fuel queries set.blocks set.state =
      .ok (way, state) ∧
    isValidReplacement set.blocks way = true

/-- The first `m` ways that the search of the intervals offers are there and
may be replaced. -/
def OffersReplaceable (numBits m : Nat) (blocks : Blocks n)
    (state : SrripState n) : Prop :=
  let offered := Srrip.offers (Srrip.rripMax numBits)
    (Srrip.rripMax numBits + 1) state
  m ≤ offered.length ∧
    ∀ way ∈ offered.take m, isValidReplacement blocks way = true

/-- When a policy replaces safely. -/
def Condition [NeZero n] :
    (kind : ReplacementPolicy) → CacheSet (kind.createCacheSet n) → Prop
  | .roundRobin, ⟨index, blocks⟩ =>
      isValidReplacement blocks index = true ∧
        isValidReplacement blocks (RoundRobin.previous index) = true
  | .lru, _ => True
  | .lruQbs numAttempts, set => HasInvalid set.blocks ∨ 0 < numAttempts
  | .nru, ⟨state, blocks⟩ =>
      HasInvalid blocks ∨ n ≤ 256 ∨
        ∃ way : Fin n, (way : Nat) < 256 ∧
          isValidReplacement blocks way = true ∧
          (NruState.bits state way = false ∨ ∀ other,
            isValidReplacement blocks other = true →
              NruState.bits state other = true)
  | .mru, _ => True
  | .nmru, ⟨state, blocks⟩ =>
      HasInvalid blocks ∨ n ≤ 256 ∨
        ∃ way : Fin n, (way : Nat) < 256 ∧ NmruState.bits state way ≠ 0 ∧
          isValidReplacement blocks way = true
  | .plru, ⟨b, blocks⟩ =>
      HasInvalid blocks ∨
        ∃ way : Fin n, Plru.pointed n b = some (way : Nat) ∧
          isValidReplacement blocks way = true
  | .srrip numBits, ⟨state, blocks⟩ =>
      HasInvalid blocks ∨ OffersReplaceable numBits 1 blocks state
  | .srripQbs numBits numAttempts, ⟨state, blocks⟩ =>
      HasInvalid blocks ∨
        OffersReplaceable numBits (max numAttempts 1) blocks state
  | .random _, set =>
      HasInvalid set.blocks ∨
        ∃ way : Fin n, (way : Nat) < 32768 ∧
          isValidReplacement set.blocks way = true

/-- A policy without fuel. -/
theorem replacesSafely_of_queries {policy : Policy n} {set : CacheSet policy}
    {result : Queries n → Except Failure (Fin n × policy.State)}
    (same : ∀ fuel queries, policy.getReplacementIndex fuel queries set.blocks
      set.state = result queries) :
    ReplacesSafely set ↔ ∀ queries, ∃ way state,
      result queries = .ok (way, state) ∧
        isValidReplacement set.blocks way = true := by
  apply forall_congr'
  intro queries
  constructor
  · intro replaces
    obtain ⟨fuel, way, state, isResult, isValid⟩ := replaces
    exact ⟨way, state, (same _ _).symm.trans isResult, isValid⟩
  · intro replaces
    obtain ⟨way, state, isResult, isValid⟩ := replaces
    exact ⟨0, way, state, (same _ _).trans isResult, isValid⟩

/-- A policy without fuel and queries. -/
theorem replacesSafely_of_result {policy : Policy n} {set : CacheSet policy}
    {result : Except Failure (Fin n × policy.State)}
    (same : ∀ fuel queries, policy.getReplacementIndex fuel queries set.blocks
      set.state = result) :
    ReplacesSafely set ↔
      ∃ way state, result = .ok (way, state) ∧
        isValidReplacement set.blocks way = true := by
  rw [replacesSafely_of_queries same]
  exact ⟨fun replaces => replaces fun _ _ => false, fun replaces _ => replaces⟩

/-- In every set that is reached, with two ways that are not valid or whose
upgrade is not pending, replacement is safe exactly under the condition of the
policy. -/
theorem replacement_safe_iff [NeZero n] (kind : ReplacementPolicy)
    (accepts : kind.Accepts n) {set : CacheSet (kind.createCacheSet n)}
    {accesses : List (Access (kind.createCacheSet n))}
    (run : Run (kind.createCacheSet n) set accesses)
    (two : ∃ first second, first ≠ second ∧
      ((set.blocks first).valid = false ∨
        isValidReplacement set.blocks first = true) ∧
      ((set.blocks second).valid = false ∨
        isValidReplacement set.blocks second = true)) :
    ReplacesSafely set ↔ Condition kind set := by
  have isEmpty := emptyBlocks_run run
  have replaceable : TwoReplaceable set.blocks := by
    obtain ⟨first, second, different, firstFree, secondFree⟩ := two
    exact ⟨first, second, different,
      firstFree.elim isEmpty.isValidReplacement id,
      secondFree.elim isEmpty.isValidReplacement id⟩
  cases kind with
  | roundRobin =>
      apply Iff.trans _ RoundRobin.replaces_iff
      exact ⟨fun replaces => replaces fun _ _ => false,
        fun replaces _ => replaces⟩
  | lru =>
      have inv := recencyInv_run (lruRecency 1) replaceable.pos run
      apply iff_of_true _ trivial
      exact (replacesSafely_of_queries fun _ _ => rfl).mpr
        ((Lru.replaces_iff isEmpty inv replaceable).mpr (Or.inr Nat.one_pos))
  | lruQbs numAttempts =>
      have inv := recencyInv_run (lruRecency numAttempts) replaceable.pos run
      apply Iff.trans _ (Lru.replaces_iff isEmpty inv replaceable)
      exact replacesSafely_of_queries fun _ _ => rfl
  | nru =>
      apply Iff.trans _ (Nru.replaces_iff isEmpty replaceable)
      exact replacesSafely_of_result fun _ _ => rfl
  | mru =>
      have inv := recencyInv_run mruRecency replaceable.pos run
      apply iff_of_true _ trivial
      exact (replacesSafely_of_result fun _ _ => rfl).mpr
        (Mru.replaces isEmpty inv replaceable)
  | nmru =>
      have inv := recencyInv_run nmruRecency replaceable.pos run
      apply Iff.trans _ (Nmru.replaces_iff isEmpty inv replaceable)
      exact replacesSafely_of_result fun _ _ => rfl
  | plru =>
      apply Iff.trans _ (Plru.replaces_iff accepts isEmpty)
      exact replacesSafely_of_result fun _ _ => rfl
  | srrip numBits =>
      have replaces := @Srrip.replaces_iff n numBits 1 _ set.state isEmpty
      apply Iff.trans _ replaces
      exact replacesSafely_of_queries fun _ _ => rfl
  | srripQbs numBits numAttempts =>
      apply Iff.trans _ (Srrip.replaces_iff isEmpty)
      exact replacesSafely_of_queries fun _ _ => rfl
  | random seed =>
      have ends := @RandomPolicy.replaces_iff n _ set.blocks set.state isEmpty
      apply Iff.trans _ ends
      exact ⟨fun replaces => replaces fun _ _ => false,
        fun replaces _ => replaces⟩

/-! ## Three ways in round robin -/

/-- A fill of the way that the pointer finds. -/
theorem run_fill {policy : Policy n} {set : CacheSet policy}
    {accesses : List (Access policy)} (run : Run policy set accesses)
    {way : Fin n} {state : policy.State} (cstate : CState)
    (found : policy.getReplacementIndex 1 (fun _ _ => false) set.blocks
      set.state = .ok (way, state)) :
    Run policy ⟨state, Function.update set.blocks way ⟨true, cstate⟩⟩
      (⟨set.state, way⟩ :: accesses) :=
  .fill run found rfl

local instance threeWays : NeZero 3 := ⟨by decide⟩

/-- Three ways that were filled, after which the last one, where the pointer is
again, takes the given state. -/
def filledRoundRobin (cstate : CState) : CacheSet (roundRobin 3) where
  state := (2 : Fin 3)
  blocks := Function.update
    (Function.update (Function.update (Function.update (fun _ => Block.empty)
      2 ⟨true, .shared⟩) 1 ⟨true, .shared⟩) 0 ⟨true, .shared⟩) 2 ⟨true, cstate⟩

/-- The accesses of the three fills. -/
def roundRobinFills : List (Access (roundRobin 3)) :=
  [⟨(0 : Fin 3), 0⟩, ⟨(1 : Fin 3), 1⟩, ⟨(2 : Fin 3), 2⟩]

theorem run_filledRoundRobin (cstate : CState) :
    Run (roundRobin 3) (filledRoundRobin cstate) roundRobinFills :=
  .setCState 2 cstate (run_fill (run_fill (run_fill .start .shared rfl)
    .shared rfl) .shared rfl) rfl

theorem replacement_safe_filledRoundRobin :
    ReplacesSafely (filledRoundRobin .shared) :=
  (replacement_safe_iff .roundRobin trivial (run_filledRoundRobin .shared)
    ⟨0, 1, by decide, Or.inr (by decide), Or.inr (by decide)⟩).mpr
      ⟨by decide, by decide⟩

/-- Two ways may be replaced, and the third one is. -/
theorem roundRobin_replaces_upgrading :
    ∃ set accesses, Run (roundRobin 3) set accesses ∧
      isValidReplacement set.blocks 0 = true ∧
      isValidReplacement set.blocks 1 = true ∧
      isValidReplacement set.blocks 2 = false ∧
      (∀ fuel queries, (roundRobin 3).getReplacementIndex (fuel + 1) queries
        set.blocks set.state = .ok (2, (1 : Fin 3))) ∧
      ¬ ReplacesSafely set := by
  refine ⟨_, _, run_filledRoundRobin .sharedUpgrading, by decide, by decide,
    by decide, fun _ _ => rfl, ?_⟩
  intro replaces
  obtain ⟨fuel, way, state, result, isValid⟩ := replaces fun _ _ => false
  cases fuel with
  | zero => cases result
  | succ fuel =>
      cases result
      revert isValid
      decide

end ChipletSniper.Cache
