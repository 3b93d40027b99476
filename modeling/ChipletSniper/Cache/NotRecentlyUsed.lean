import Mathlib.Data.Fintype.Card
import Mathlib.Data.Fintype.Prod
import ChipletSniper.Cache.CacheSet

/-!
# The count of the marked ways

`CacheSetNRU` counts the accesses since its bits were cleared, not the ways
that are marked.  The count is the number of marked ways as long as every
access marks a way that was not marked before.
-/

namespace ChipletSniper.Cache

open CacheSet Function

namespace Nru

variable {n : Nat}

/-- The number of ways whose bit is set. -/
def marked (bits : Fin n → Bool) : Nat :=
  (Finset.univ.filter fun way => bits way = true).card

theorem marked_cleared : marked (fun _ : Fin n => false) = 0 := by
  simp [marked]

theorem marked_update {bits : Fin n → Bool} {way : Fin n}
    (clear : bits way = false) :
    marked (update bits way true) = marked bits + 1 := by
  have grown : (Finset.univ.filter fun other =>
      update bits way true other = true) =
        insert way (Finset.univ.filter fun other => bits other = true) := by
    ext other
    by_cases same : other = way
    · simp [same]
    · simp [same]
  rw [marked, grown, Finset.card_insert_of_notMem (by simp [clear]), marked]

theorem update_marked {bits : Fin n → Bool} {way : Fin n}
    (isMarked : bits way = true) :
    update bits way true = bits := by
  rw [← isMarked, update_eq_self]

/-- All other ways are marked exactly if one way less than all is. -/
theorem others_marked_iff {bits : Fin n → Bool} {way : Fin n}
    (clear : bits way = false) :
    (∀ other, other ≠ way → bits other = true) ↔ marked bits + 1 = n := by
  rw [← marked_update clear]
  constructor
  · intro others
    have all : (Finset.univ.filter fun other =>
        update bits way true other = true) = Finset.univ := by
      rw [Finset.filter_eq_self]
      intro other _
      by_cases same : other = way
      · rw [same, update_self]
      · rw [update_of_ne same]
        exact others other same
    rw [marked, all, Finset.card_univ, Fintype.card_fin]
  · intro full other different
    have all : (Finset.univ.filter fun other =>
        update bits way true other = true) = Finset.univ := by
      apply Finset.eq_univ_of_card
      rw [Fintype.card_fin]
      exact full
    have isMarked : other ∈ Finset.univ.filter fun other =>
        update bits way true other = true := by
      rw [all]
      exact Finset.mem_univ other
    rw [Finset.mem_filter, update_of_ne different] at isMarked
    exact isMarked.2

/-- The count is right, and not all ways are marked. -/
def Exact (state : NruState n) : Prop :=
  state.numBitsSet = marked state.bits ∧ state.numBitsSet < n

/-- An access clears the bits exactly if its way has the last clear bit. -/
def ClearsRight (before : NruState n) (way : Fin n) : Prop :=
  (∀ other, (updateReplacementIndex way before).bits other = false) ↔
    before.bits way = false ∧ ∀ other, other ≠ way → before.bits other = true

/-- The access marks a way that was not marked, and the count fits in eight
bits. -/
def Fresh (before : NruState n) (way : Fin n) : Prop :=
  before.bits way = false ∧ (n < 256 ∨ before.numBitsSet < 255)

theorem fresh_of_exact {before : NruState n} {way : Fin n}
    (isExact : Exact before)
    (after : Exact (updateReplacementIndex way before))
    (clears : ClearsRight before way) : Fresh before way := by
  obtain ⟨count, -⟩ := isExact
  rw [Exact, updateReplacementIndex] at after
  rw [ClearsRight, updateReplacementIndex] at clears
  have clear : before.bits way = false := by
    by_contra isMarked
    rw [Bool.not_eq_false] at isMarked
    split at after
    next full =>
      rw [if_pos full] at clears
      have wasClear := (clears.mp fun _ => rfl).1
      rw [isMarked] at wasClear
      cases wasClear
    next =>
      have same := after.1
      simp only [update_marked isMarked, ← count] at same
      omega
  refine ⟨clear, ?_⟩
  by_contra large
  split at after
  next full => omega
  next =>
    have same := after.1
    simp only [marked_update clear, ← count] at same
    omega

theorem exact_of_fresh {before : NruState n} {way : Fin n}
    (isExact : Exact before) (fresh : Fresh before way) :
    Exact (updateReplacementIndex way before) ∧ ClearsRight before way := by
  obtain ⟨count, below⟩ := isExact
  obtain ⟨clear, small⟩ := fresh
  have next : (before.numBitsSet + 1) % 256 = before.numBitsSet + 1 :=
    Nat.mod_eq_of_lt (by omega)
  have others := others_marked_iff clear
  rw [ClearsRight, updateReplacementIndex]
  simp only [next]
  by_cases full : before.numBitsSet + 1 = n
  · rw [if_pos full]
    constructor
    · exact ⟨marked_cleared.symm, way.pos⟩
    · have last := others.mpr (by rw [← count, full])
      exact ⟨fun _ => ⟨clear, last⟩, fun _ _ => rfl⟩
  · rw [if_neg full]
    constructor
    · constructor
      · simp only [marked_update clear, count]
      · simp only
        omega
    · constructor
      · intro cleared
        have wasSet := cleared way
        simp at wasSet
      · intro last
        have all := others.mp last.2
        rw [← count] at all
        exact absurd all full

end Nru

/-! ## Runs -/

section Runs

variable {n : Nat} [NeZero n]

/-- In every state that an access found, and in the last one, the count was
right, and every access cleared the bits when it should. -/
def CountedExactly (set : CacheSet (nru n)) (accesses : List (Access (nru n))) :
    Prop :=
  Nru.Exact set.state ∧
    ∀ access ∈ accesses,
      Nru.Exact access.before ∧ Nru.ClearsRight access.before access.way

theorem exact_start : Nru.Exact (CacheSet.start (nru n)).state :=
  ⟨Nru.marked_cleared.symm, Nat.pos_of_neZero n⟩

/-- A fill marks the way that it returns. -/
theorem exact_fill_iff {fuel : Nat} {queries : Queries n} {blocks : Blocks n}
    {before state : NruState n} {way : Fin n}
    (fill : (nru n).getReplacementIndex fuel queries blocks before =
      .ok (way, state)) :
    Nru.Exact state ↔ Nru.Exact (Nru.updateReplacementIndex way before) := by
  change Nru.getReplacementIndex blocks before = _ at fill
  rw [Nru.getReplacementIndex] at fill
  split at fill
  · cases fill
    rfl
  · split at fill
    · cases fill
      rw [Nru.updateReplacementIndex, Nru.updateReplacementIndex]
      dsimp only
      split <;> rfl
    · cases fill

theorem countedExactly_cons {before after : CacheSet (nru n)}
    {accesses : List (Access (nru n))} {way : Fin n}
    (next : Nru.Exact after.state ↔
      Nru.Exact (Nru.updateReplacementIndex way before.state))
    (ih : CountedExactly before accesses ↔
      ∀ access ∈ accesses, Nru.Fresh access.before access.way) :
    CountedExactly after (⟨before.state, way⟩ :: accesses) ↔
      ∀ access ∈ (⟨before.state, way⟩ : Access (nru n)) :: accesses,
        Nru.Fresh access.before access.way := by
  rw [CountedExactly, next, List.forall_mem_cons, List.forall_mem_cons,
    ← ih]
  constructor
  · rintro ⟨last, ⟨isExact, clears⟩, others⟩
    exact ⟨Nru.fresh_of_exact isExact last clears, isExact, others⟩
  · rintro ⟨fresh, isExact, others⟩
    have ⟨last, clears⟩ := Nru.exact_of_fresh isExact fresh
    exact ⟨last, ⟨isExact, clears⟩, others⟩

/-- In a run, the count is exact if and only if no access finds its way marked,
or the count at its limit. -/
theorem nru_counts_exactly_iff {set : CacheSet (nru n)}
    {accesses : List (Access (nru n))} (run : Run (nru n) set accesses) :
    CountedExactly set accesses ↔
      ∀ access ∈ accesses, Nru.Fresh access.before access.way := by
  induction run with
  | start =>
      constructor
      · exact fun _ _ member => absurd member List.not_mem_nil
      · exact fun _ => ⟨exact_start, fun _ member =>
          absurd member List.not_mem_nil⟩
  | fill _ fill _ ih =>
      exact countedExactly_cons (exact_fill_iff fill) ih
  | hit _ hit ih =>
      cases hit
      exact countedExactly_cons Iff.rfl ih
  | invalidate _ _ ih => exact ih
  | setCState _ _ _ _ ih => exact ih

end Runs

/-- A set of three ways after a fill of way `0`. -/
def filledNru : CacheSet (nru 3) where
  state := Nru.updateReplacementIndex 0 (nru 3).start
  blocks := update (fun _ => Block.empty) 0 ⟨true, .shared⟩

theorem run_filledNru : Run (nru 3) filledNru [⟨(nru 3).start, 0⟩] :=
  @Run.fill _ _ _ _ 0 (fun _ _ => false) _ _ _ .start rfl rfl

/-- Three fills, the last of which clears the bits. -/
theorem nru_counts_filledNru :
    ∃ set accesses, Run (nru 3) set accesses ∧
      accesses.map (·.way) = [2, 1, 0] ∧ set.state.bits 0 = false ∧
      CountedExactly set accesses := by
  have second := @Run.fill 3 (nru 3) _ _ 0 (fun _ _ => false) _ _
    ⟨true, .shared⟩ run_filledNru rfl rfl
  have third := @Run.fill 3 (nru 3) _ _ 0 (fun _ _ => false) _ _
    ⟨true, .shared⟩ second rfl rfl
  refine ⟨_, _, third, rfl, rfl, (nru_counts_exactly_iff third).mpr ?_⟩
  intro access member
  simp only [List.mem_cons, List.not_mem_nil, or_false] at member
  rcases member with rfl | rfl | rfl <;> exact ⟨rfl, Or.inl (by decide)⟩

/-- The hit of a way that is marked is counted once more. -/
theorem nru_counts_hit_twice :
    ∃ set accesses, Run (nru 3) set accesses ∧
      set.state.numBitsSet = 2 ∧ Nru.marked set.state.bits = 1 ∧
      ¬ CountedExactly set accesses := by
  refine ⟨_, _, @Run.hit _ _ _ _ 0 _ run_filledNru rfl, rfl, by decide, ?_⟩
  intro counted
  have same := counted.1.1
  revert same
  decide

end ChipletSniper.Cache
