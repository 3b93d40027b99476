import ChipletSniper.Library.CongruentialGenerator
import ChipletSniper.Cache.Recency

/-!
# Which victims the policies find

For every policy, the condition under which `getReplacementIndex` comes to its
end without an error and returns a way that may be replaced, when two ways may
be.
-/

namespace ChipletSniper.Cache

open CacheSet Library

variable {n : Nat}

/-- Some way is not valid. -/
def HasInvalid (blocks : Blocks n) : Prop :=
  ∃ way, (blocks way).valid = false

/-- Two ways may be replaced. -/
def TwoReplaceable (blocks : Blocks n) : Prop :=
  ∃ first second, first ≠ second ∧
    isValidReplacement blocks first = true ∧
      isValidReplacement blocks second = true

theorem not_hasInvalid {blocks : Blocks n}
    (full : ∀ way, (blocks way).valid = true) : ¬ HasInvalid blocks := by
  intro invalid
  obtain ⟨way, notValid⟩ := invalid
  rw [full way] at notValid
  cases notValid

theorem TwoReplaceable.pos {blocks : Blocks n} (two : TwoReplaceable blocks) :
    2 ≤ n := by
  obtain ⟨first, second, different, -⟩ := two
  by_contra small
  apply different
  apply Fin.ext
  omega

/-! ## Round robin -/

namespace RoundRobin

/-- The way behind the first that may be replaced; if that is not the first
one of all, then it may not be replaced itself. -/
theorem getReplacementIndex_result {blocks : Blocks n} {fuel : Nat}
    {index way next : Fin n}
    (result : getReplacementIndex blocks fuel index = .ok (way, next)) :
    way = index ∧ isValidReplacement blocks (previous index) = true ∨
      isValidReplacement blocks way = false := by
  induction fuel generalizing index with
  | zero => cases result
  | succ fuel ih =>
      rw [getReplacementIndex] at result
      split at result
      next invalid =>
        right
        cases ih result with
        | inl found =>
            rw [found.1]
            simpa using invalid
        | inr found => exact found
      next isValid =>
        left
        cases result
        exact ⟨rfl, by simpa using isValid⟩

theorem replaces_iff {blocks : Blocks n} {index : Fin n} :
    (∃ fuel way next,
      getReplacementIndex blocks fuel index = .ok (way, next) ∧
        isValidReplacement blocks way = true) ↔
    isValidReplacement blocks index = true ∧
      isValidReplacement blocks (previous index) = true := by
  constructor
  · intro replaces
    obtain ⟨fuel, way, next, result, isValid⟩ := replaces
    cases getReplacementIndex_result result with
    | inl found =>
        rw [← found.1]
        exact ⟨isValid, by rw [found.1]; exact found.2⟩
    | inr invalid =>
        rw [isValid] at invalid
        cases invalid
  · intro both
    refine ⟨1, index, previous index, ?_, both.1⟩
    rw [getReplacementIndex, both.2]
    rfl

end RoundRobin

/-! ## Recency -/

/-- The victim may be replaced when two ways may be. -/
theorem Lru.isValid_victim [NeZero n] {blocks : Blocks n} {bits : Fin n → Nat}
    (oneZero : OneZero bits) (two : TwoReplaceable blocks) :
    isValidReplacement blocks (Lru.victim blocks bits) = true := by
  obtain ⟨first, second, different, firstValid, secondValid⟩ := two
  cases Lru.victim_spec blocks bits with
  | inl fallback =>
      have zeros := fallback.1
      exact absurd (oneZero first second (zeros first firstValid)
        (zeros second secondValid)) different
  | inr found => exact found.2.1

theorem Lru.evict_replaces [NeZero n] {numAttempts : Nat} {queries : Queries n}
    {blocks : Blocks n} {left attempt : Nat} {bits : Fin n → Nat}
    (oneZero : OneZero bits) (two : TwoReplaceable blocks)
    (attempts : left + attempt = numAttempts) (positive : 0 < left) :
    ∃ way next,
      Lru.evict numAttempts queries blocks left attempt bits =
        .ok (way, next) ∧
      isValidReplacement blocks way = true := by
  induction left generalizing attempt bits with
  | zero => omega
  | succ left ih =>
      rw [Lru.evict]
      split
      next rejected =>
        apply ih (oneZero.touch _)
        · omega
        · omega
      next => exact ⟨_, _, rfl, Lru.isValid_victim oneZero two⟩

theorem Lru.replaces_iff [NeZero n] {numAttempts : Nat} {blocks : Blocks n}
    {bits : Fin n → Nat} (isEmpty : EmptyBlocks blocks)
    (inv : RecencyInv blocks bits) (two : TwoReplaceable blocks) :
    (∀ queries : Queries n, ∃ way next,
      Lru.getReplacementIndex numAttempts queries blocks bits =
        .ok (way, next) ∧
      isValidReplacement blocks way = true) ↔
    HasInvalid blocks ∨ 0 < numAttempts := by
  simp only [Lru.getReplacementIndex]
  cases first : firstInvalid blocks with
  | some way =>
      have notValid := notValid_of_firstInvalid first
      constructor
      · exact fun _ => Or.inl ⟨way, notValid⟩
      · exact fun _ _ => ⟨way, _, rfl, isEmpty.isValidReplacement notValid⟩
  | none =>
      have full := firstInvalid_eq_none.mp first
      constructor
      · intro replaces
        right
        obtain ⟨way, next, result, -⟩ := replaces fun _ _ => false
        by_contra zero
        have none : numAttempts = 0 := by omega
        rw [none] at result
        cases result
      · intro condition queries
        have positive := condition.resolve_left (not_hasInvalid full)
        exact Lru.evict_replaces (inv.oneZero full) two (by omega) positive

theorem Mru.replaces {blocks : Blocks n} {bits : Fin n → Nat}
    (isEmpty : EmptyBlocks blocks) (inv : RecencyInv blocks bits)
    (two : TwoReplaceable blocks) :
    ∃ way next,
      Mru.getReplacementIndex blocks bits = .ok (way, next) ∧
      isValidReplacement blocks way = true := by
  rw [Mru.getReplacementIndex]
  cases first : firstInvalid blocks with
  | some way =>
      exact ⟨way, _, rfl,
        isEmpty.isValidReplacement (notValid_of_firstInvalid first)⟩
  | none =>
      dsimp only
      split
      next way found =>
        obtain ⟨target, -, chosen⟩ := List.exists_of_findSome?_eq_some found
        have wanted := List.find?_some chosen
        rw [Bool.and_eq_true] at wanted
        exact ⟨way, _, rfl, wanted.2⟩
      next nothing =>
        obtain ⟨way, -, -, isValid, -⟩ := two
        rw [List.findSome?_eq_none_iff] at nothing
        have unwanted := nothing (bits way) (List.mem_range.mpr (inv.below way))
        rw [List.find?_eq_none] at unwanted
        have absent := unwanted way (List.mem_finRange way)
        simp [isValid] at absent

/-! ## Policies with a pointer -/

theorem Pointer.next_eq (pointer : Pointer n) :
    pointer.next = cyclicNext pointer := by
  apply Fin.ext
  change ((pointer : Nat) + 1) % n % 256 = ((pointer : Nat) + 1) % min n 256
  have bound := pointer.isLt
  generalize (pointer : Nat) = position at bound ⊢
  rcases Nat.lt_or_ge 256 n with large | small
  · rw [Nat.min_eq_right (Nat.le_of_lt large)] at bound ⊢
    rw [Nat.mod_eq_of_lt (by omega : position + 1 < n)]
  · rw [Nat.min_eq_left small] at bound ⊢
    have below : (position + 1) % n < n := Nat.mod_lt _ (by omega)
    exact Nat.mod_eq_of_lt (by omega)

theorem searchFrom_eq (wanted : Fin n → Bool) (steps : Nat)
    (pointer : Pointer n) :
    searchFrom wanted steps pointer =
      cyclicSearch (fun pointer : Pointer n => wanted pointer.way) steps
        pointer := by
  induction steps generalizing pointer with
  | zero => rfl
  | succ steps ih =>
      rw [searchFrom, cyclicSearch, ih, Pointer.next_eq]

theorem wanted_of_searchFrom {wanted : Fin n → Bool} {steps : Nat}
    {pointer index next : Pointer n}
    (search : searchFrom wanted steps pointer = some (index, next)) :
    wanted index.way = true := by
  rw [searchFrom_eq] at search
  exact @wanted_of_cyclicSearch _
    (fun pointer : Pointer n => wanted pointer.way) _ _ _ _ search

/-- The pointer goes around the first 256 ways. -/
theorem searchFrom_isSome {wanted : Fin n → Bool} {way : Fin n}
    (pointer : Pointer n) (reached : (way : Nat) < 256)
    (isWanted : wanted way = true) :
    ∃ index next, searchFrom wanted n pointer = some (index, next) := by
  have bound : (way : Nat) < min n 256 := Nat.lt_min.mpr ⟨way.isLt, reached⟩
  rw [searchFrom_eq]
  exact @cyclicSearch_isSome _
    (fun pointer : Pointer n => wanted pointer.way) n (Nat.min_le_left n 256)
    pointer ⟨way, bound⟩ isWanted

theorem Pointer.way_lt (pointer : Pointer n) : (pointer.way : Nat) < 256 :=
  Nat.lt_of_lt_of_le pointer.isLt (Nat.min_le_right n 256)

theorem Nmru.replaces_iff {blocks : Blocks n} {state : NmruState n}
    (isEmpty : EmptyBlocks blocks) (inv : RecencyInv blocks state.bits)
    (two : TwoReplaceable blocks) :
    (∃ way next,
      Nmru.getReplacementIndex blocks state = .ok (way, next) ∧
      isValidReplacement blocks way = true) ↔
    HasInvalid blocks ∨ n ≤ 256 ∨
      ∃ way : Fin n, (way : Nat) < 256 ∧ state.bits way ≠ 0 ∧
        isValidReplacement blocks way = true := by
  rw [Nmru.getReplacementIndex]
  cases first : firstInvalid blocks with
  | some way =>
      have notValid := notValid_of_firstInvalid first
      constructor
      · exact fun _ => Or.inl ⟨way, notValid⟩
      · exact fun _ => ⟨way, _, rfl, isEmpty.isValidReplacement notValid⟩
  | none =>
      have full := firstInvalid_eq_none.mp first
      dsimp only
      constructor
      · intro replaces
        right; right
        obtain ⟨way, next, result, -⟩ := replaces
        split at result
        next index next found =>
          have wanted := wanted_of_searchFrom found
          rw [Bool.and_eq_true, decide_eq_true_iff] at wanted
          exact ⟨index.way, index.way_lt, wanted⟩
        next => cases result
      · intro condition
        have reachable : ∃ way : Fin n, (way : Nat) < 256 ∧
            state.bits way ≠ 0 ∧ isValidReplacement blocks way = true := by
          cases condition.resolve_left (not_hasInvalid full) with
          | inl small =>
              obtain ⟨first, second, different, firstValid, secondValid⟩ := two
              cases (inv.oneZero full).exists_ne_zero different with
              | inl positive => exact ⟨first, by omega, positive, firstValid⟩
              | inr positive => exact ⟨second, by omega, positive, secondValid⟩
          | inr found => exact found
        obtain ⟨way, reached, positive, isValid⟩ := reachable
        obtain ⟨index, next, found⟩ := @searchFrom_isSome n
          (fun way => decide (state.bits way ≠ 0) &&
            isValidReplacement blocks way) way state.pointer reached
          (by simp [positive, isValid])
        have wanted := wanted_of_searchFrom found
        rw [Bool.and_eq_true] at wanted
        rw [found]
        exact ⟨index.way, _, rfl, wanted.2⟩

theorem Nru.haveZeroBit_iff {blocks : Blocks n} {state : NruState n} :
    Nru.haveZeroBit blocks state = true ↔
      ∃ way, state.bits way = false ∧
        isValidReplacement blocks way = true := by
  simp [Nru.haveZeroBit]

theorem Nru.replaces_iff {blocks : Blocks n} {state : NruState n}
    (isEmpty : EmptyBlocks blocks) (two : TwoReplaceable blocks) :
    (∃ way next,
      Nru.getReplacementIndex blocks state = .ok (way, next) ∧
      isValidReplacement blocks way = true) ↔
    HasInvalid blocks ∨ n ≤ 256 ∨
      ∃ way : Fin n, (way : Nat) < 256 ∧
        isValidReplacement blocks way = true ∧
        (state.bits way = false ∨ ∀ other,
          isValidReplacement blocks other = true →
            state.bits other = true) := by
  rw [Nru.getReplacementIndex]
  cases first : firstInvalid blocks with
  | some way =>
      have notValid := notValid_of_firstInvalid first
      constructor
      · exact fun _ => Or.inl ⟨way, notValid⟩
      · exact fun _ => ⟨way, _, rfl, isEmpty.isValidReplacement notValid⟩
  | none =>
      have full := firstInvalid_eq_none.mp first
      have noZeroBit : Nru.haveZeroBit blocks state = false ↔ ∀ other,
          isValidReplacement blocks other = true →
            state.bits other = true := by
        rw [← Bool.not_eq_true, Nru.haveZeroBit_iff]
        simp only [not_exists, not_and, Bool.not_eq_true]
        constructor
        · intro absent other isValid
          by_contra clear
          rw [Bool.not_eq_true] at clear
          rw [absent other clear] at isValid
          cases isValid
        · intro marked other clear
          by_contra isValid
          rw [Bool.not_eq_false] at isValid
          rw [marked other isValid] at clear
          cases clear
      dsimp only
      constructor
      · intro replaces
        right; right
        obtain ⟨way, next, result, -⟩ := replaces
        split at result
        next index next found =>
          have wanted := wanted_of_searchFrom found
          simp only [Bool.and_eq_true, Bool.or_eq_true, Bool.not_eq_true']
            at wanted
          rw [noZeroBit] at wanted
          exact ⟨index.way, index.way_lt, wanted.2, wanted.1⟩
        next => cases result
      · intro condition
        have reachable : ∃ way : Fin n, (way : Nat) < 256 ∧
            isValidReplacement blocks way = true ∧
            (state.bits way = false ∨
              Nru.haveZeroBit blocks state = false) := by
          rw [noZeroBit]
          cases condition.resolve_left (not_hasInvalid full) with
          | inl small =>
              by_cases clear : Nru.haveZeroBit blocks state = true
              · obtain ⟨way, isClear, isValid⟩ := Nru.haveZeroBit_iff.mp clear
                exact ⟨way, by omega, isValid, Or.inl isClear⟩
              · rw [Bool.not_eq_true] at clear
                obtain ⟨way, -, -, isValid, -⟩ := two
                exact ⟨way, by omega, isValid, Or.inr (noZeroBit.mp clear)⟩
          | inr found => exact found
        obtain ⟨way, reached, isValid, clear⟩ := reachable
        obtain ⟨index, next, found⟩ := @searchFrom_isSome n
          (fun way => (!state.bits way || !Nru.haveZeroBit blocks state) &&
            isValidReplacement blocks way) way state.pointer reached
          (by
            simp only [Bool.and_eq_true, Bool.or_eq_true, Bool.not_eq_true']
            exact ⟨clear, isValid⟩)
        have wanted := wanted_of_searchFrom found
        rw [Bool.and_eq_true] at wanted
        rw [found]
        exact ⟨index.way, _, rfl, wanted.2⟩

/-! ## The tree -/

theorem Plru.replaces_iff {blocks : Blocks n} {b : Tree}
    (accepts : n = 4 ∨ n = 8) (isEmpty : EmptyBlocks blocks) :
    (∃ way next,
      Plru.getReplacementIndex blocks b = .ok (way, next) ∧
      isValidReplacement blocks way = true) ↔
    HasInvalid blocks ∨
      ∃ way : Fin n, Plru.pointed n b = some (way : Nat) ∧
        isValidReplacement blocks way = true := by
  have update : ∀ way : Fin n, ∃ next,
      Plru.updateReplacementIndex way b = .ok next := by
    intro way
    rw [Plru.updateReplacementIndex, if_pos accepts]
    exact ⟨_, rfl⟩
  rw [Plru.getReplacementIndex]
  cases first : firstInvalid blocks with
  | some way =>
      have notValid := notValid_of_firstInvalid first
      obtain ⟨next, updated⟩ := update way
      constructor
      · exact fun _ => Or.inl ⟨way, notValid⟩
      · intro _
        dsimp only
        rw [updated]
        exact ⟨way, next, rfl, isEmpty.isValidReplacement notValid⟩
  | none =>
      have full := firstInvalid_eq_none.mp first
      dsimp only
      constructor
      · intro replaces
        right
        obtain ⟨way, next, result, -⟩ := replaces
        split at result
        next => cases result
        next index pointed =>
          split at result
          next bound =>
            split at result
            next isValid => exact ⟨⟨index, bound⟩, pointed, isValid⟩
            next => cases result
          next => cases result
      · intro condition
        obtain ⟨way, pointed, isValid⟩ :=
          condition.resolve_left (not_hasInvalid full)
        obtain ⟨next, updated⟩ := update way
        rw [pointed]
        dsimp only
        rw [dif_pos way.isLt, if_pos isValid, updated]
        exact ⟨way, next, rfl, isValid⟩

/-! ## Re-reference interval prediction -/

namespace Srrip

/-- The ways that some steps of the inner loop meet with a saturated counter
when each of them is passed over, and the state behind them. -/
def meets (max : Nat) : Nat → SrripState n → List (Fin n) × SrripState n
  | 0, state => ([], state)
  | steps + 1, state =>
      if state.bits state.pointer.way ≥ max then
        let rest := meets max steps (setBits state.pointer.way 0 state)
        (state.pointer.way :: rest.1, rest.2)
      else
        meets max steps (advance state)

/-- The ways that some rounds of the outer loop offer for replacement. -/
def offers (max : Nat) : Nat → SrripState n → List (Fin n)
  | 0, _ => []
  | rounds + 1, state =>
      let round := meets max n state
      round.1 ++ offers max rounds (age max round.2)

/-- The choice among the ways that are offered. -/
def select (numAttempts : Nat) (queries : Queries n) (blocks : Blocks n) :
    Nat → List (Fin n) → Except Failure (Fin n)
  | _, [] => .error .error
  | attempt, way :: rest =>
      if attempt + 1 < numAttempts ∧ queries attempt way = true then
        select numAttempts queries blocks (attempt + 1) rest
      else if isValidReplacement blocks way then .ok way
      else .error .error

variable {numBits numAttempts : Nat} {queries : Queries n} {blocks : Blocks n}

/-- The inner loop chooses among the ways that it meets, and hands on what it
passes over. -/
theorem scan_select (later : List (Fin n)) (steps attempt : Nat)
    (state : SrripState n) :
    match scan numBits numAttempts queries blocks steps attempt state with
    | .inl result =>
        result.map Prod.fst = select numAttempts queries blocks attempt
          ((meets (rripMax numBits) steps state).1 ++ later)
    | .inr (passed, behind) =>
        behind = (meets (rripMax numBits) steps state).2 ∧
        select numAttempts queries blocks passed later =
          select numAttempts queries blocks attempt
            ((meets (rripMax numBits) steps state).1 ++ later) := by
  induction steps generalizing attempt state with
  | zero => exact ⟨rfl, rfl⟩
  | succ steps ih =>
      rw [scan, meets]
      by_cases saturated : state.bits state.pointer.way ≥ rripMax numBits
      · rw [if_pos saturated, if_pos saturated, List.cons_append, select]
        by_cases rejected : attempt + 1 < numAttempts ∧
            queries attempt state.pointer.way = true
        · rw [if_pos rejected, if_pos rejected]
          exact ih _ _
        · rw [if_neg rejected, if_neg rejected, choose]
          dsimp only
          split <;> rfl
      · rw [if_neg saturated, if_neg saturated]
        exact ih _ _

theorem search_select (rounds attempt : Nat) (state : SrripState n) :
    (search numBits numAttempts queries blocks rounds attempt state).map
        Prod.fst =
      select numAttempts queries blocks attempt
        (offers (rripMax numBits) rounds state) := by
  induction rounds generalizing attempt state with
  | zero => rfl
  | succ rounds ih =>
      have inner := @scan_select n numBits numAttempts queries blocks
        (offers (rripMax numBits) rounds
          (age (rripMax numBits) (meets (rripMax numBits) n state).2))
        n attempt state
      rw [search, offers]
      cases scanned : scan numBits numAttempts queries blocks n attempt state
        with
      | inl result =>
          rw [scanned] at inner
          exact inner
      | inr passed =>
          rw [scanned] at inner
          dsimp only at inner ⊢
          rw [ih, inner.1]
          exact inner.2

/-- Only the queries of later attempts are asked. -/
theorem select_congr {others : Queries n} {attempt : Nat}
    (same : ∀ later, attempt ≤ later → queries later = others later)
    (ways : List (Fin n)) :
    select numAttempts queries blocks attempt ways =
      select numAttempts others blocks attempt ways := by
  induction ways generalizing attempt with
  | nil => rfl
  | cons way ways ih =>
      rw [select, select, same attempt (Nat.le_refl _),
        ih fun later less => same later (by omega)]

/-- Whatever the queries answer, the choice succeeds if and only if the ways
that the attempts may reach are there and may be replaced. -/
theorem select_iff {attempt left : Nat}
    (attempts : attempt + (left + 1) = max numAttempts 1)
    (ways : List (Fin n)) :
    (∀ queries, ∃ way, select numAttempts queries blocks attempt ways =
        .ok way) ↔
      left + 1 ≤ ways.length ∧
        ∀ way ∈ ways.take (left + 1), isValidReplacement blocks way = true := by
  induction ways generalizing attempt left with
  | nil =>
      constructor
      · intro selects
        obtain ⟨way, selected⟩ := selects fun _ _ => false
        cases selected
      · intro condition
        exact absurd condition.1 (by simp)
  | cons way ways ih =>
      have first : (∀ queries, ∃ chosen,
          select numAttempts queries blocks attempt (way :: ways) =
            .ok chosen) → isValidReplacement blocks way = true := by
        intro selects
        obtain ⟨chosen, selected⟩ := selects fun _ _ => false
        rw [select, if_neg (by simp)] at selected
        split at selected
        next isValid => exact isValid
        next => cases selected
      rw [List.length_cons, List.take_succ_cons, List.forall_mem_cons]
      cases left with
      | zero =>
          have noMore : ¬ attempt + 1 < numAttempts := by omega
          constructor
          · intro selects
            exact ⟨by omega, first selects, by simp⟩
          · intro condition queries
            refine ⟨way, ?_⟩
            rw [select, if_neg (fun more => noMore more.1),
              if_pos condition.2.1]
      | succ left =>
          have more : attempt + 1 < numAttempts := by omega
          have rest := @ih (attempt + 1) left (by omega)
          constructor
          · intro selects
            have others : ∀ queries, ∃ chosen,
                select numAttempts queries blocks (attempt + 1) ways =
                  .ok chosen := by
              intro queries
              obtain ⟨chosen, selected⟩ := selects fun asked way =>
                asked = attempt || queries asked way
              rw [select, if_pos ⟨more, by simp⟩] at selected
              refine ⟨chosen, Eq.trans ?_ selected⟩
              apply select_congr
              intro later less
              funext other
              have different : later ≠ attempt := by omega
              simp [different]
            have condition := rest.mp others
            exact ⟨by omega, first selects, condition.2⟩
          · intro condition queries
            by_cases rejected : queries attempt way = true
            · rw [select, if_pos ⟨more, rejected⟩]
              exact rest.mpr ⟨by omega, condition.2.2⟩ queries
            · refine ⟨way, ?_⟩
              rw [select, if_neg (fun asked => rejected asked.2),
                if_pos condition.2.1]

/-- What is selected may be replaced. -/
theorem isValid_of_select {attempt : Nat} {ways : List (Fin n)} {way : Fin n}
    (selected : select numAttempts queries blocks attempt ways = .ok way) :
    isValidReplacement blocks way = true := by
  induction ways generalizing attempt with
  | nil => cases selected
  | cons first ways ih =>
      rw [select] at selected
      split at selected
      next => exact ih selected
      next =>
        split at selected
        next isValid =>
          cases selected
          exact isValid
        next => cases selected

theorem replaces_iff {state : SrripState n} (isEmpty : EmptyBlocks blocks) :
    (∀ queries, ∃ way next,
      getReplacementIndex numBits numAttempts queries blocks state =
        .ok (way, next) ∧
      isValidReplacement blocks way = true) ↔
    HasInvalid blocks ∨
      max numAttempts 1 ≤
        (offers (rripMax numBits) (rripMax numBits + 1) state).length ∧
      ∀ way ∈ (offers (rripMax numBits) (rripMax numBits + 1) state).take
          (max numAttempts 1), isValidReplacement blocks way = true := by
  simp only [getReplacementIndex]
  cases first : firstInvalid blocks with
  | some way =>
      have notValid := notValid_of_firstInvalid first
      constructor
      · exact fun _ => Or.inl ⟨way, notValid⟩
      · exact fun _ _ => ⟨way, _, rfl, isEmpty.isValidReplacement notValid⟩
  | none =>
      have full := firstInvalid_eq_none.mp first
      obtain ⟨left, attempts⟩ : ∃ left, max numAttempts 1 = left + 1 :=
        ⟨max numAttempts 1 - 1, by omega⟩
      have condition := @select_iff n numAttempts blocks 0 left (by omega)
        (offers (rripMax numBits) (rripMax numBits + 1) state)
      rw [attempts, ← condition, or_iff_right (not_hasInvalid full)]
      apply forall_congr'
      intro queries
      rw [← search_select]
      cases result : search numBits numAttempts queries blocks
          (rripMax numBits + 1) 0 state with
      | error failure => simp [Except.map]
      | ok found =>
          have selected := @search_select n numBits numAttempts queries blocks
            (rripMax numBits + 1) 0 state
          rw [result] at selected
          constructor
          · exact fun _ => ⟨found.1, rfl⟩
          · exact fun _ =>
              ⟨found.1, found.2, rfl, isValid_of_select selected.symm⟩

end Srrip

/-! ## Random -/

namespace RandomPolicy

theorem nextSeed_eq : nextSeed = reducedStep 1103515245 12345 (2 ^ 32) := rfl

/-- The generator returns every number below 32768 again and again. -/
theorem exists_value_eq (seed : Nat) {target : Nat} (small : target < 32768) :
    ∃ steps, value (nextSeed^[steps] seed) = target := by
  obtain ⟨steps, reached⟩ := exists_iterate_modEq
    (by decide : 1103515245 % 4 = 1) (by decide : 12345 % 2 = 1) 32
    (congruentialStep 1103515245 12345 seed) (target * 65536)
  refine ⟨steps, ?_⟩
  have seedIs : nextSeed^[steps + 1] seed = target * 65536 := by
    rw [Function.iterate_succ_apply, nextSeed_eq, reducedStep,
      reducedStep_iterate, reached]
    exact Nat.mod_eq_of_lt (by omega)
  rw [value, ← Function.iterate_succ_apply' nextSeed, seedIs]
  omega

theorem value_lt (seed : Nat) : value seed < 32768 := by
  rw [value]
  exact Nat.mod_lt _ (by omega)

/-- The way that a state draws. -/
def drawn [NeZero n] (seed : Nat) : Fin n :=
  ⟨value seed % n, Nat.mod_lt _ (Nat.pos_of_neZero n)⟩

variable [NeZero n] {blocks : Blocks n}

/-- The recursion ends with the first way drawn that may be replaced. -/
theorem getReplacementIndex_ends (full : firstInvalid blocks = none)
    (steps seed : Nat)
    (isValid : isValidReplacement blocks (drawn (nextSeed^[steps] seed)) =
      true) :
    ∃ fuel way next, getReplacementIndex blocks fuel seed = .ok (way, next) ∧
      isValidReplacement blocks way = true := by
  induction steps generalizing seed with
  | zero =>
      refine ⟨1, drawn seed, nextSeed seed, ?_, isValid⟩
      rw [getReplacementIndex, full]
      dsimp only
      rw [dif_pos (Nat.pos_of_neZero n)]
      exact if_pos isValid
  | succ steps ih =>
      rw [Function.iterate_succ_apply] at isValid
      by_cases now : isValidReplacement blocks (drawn seed) = true
      · refine ⟨1, drawn seed, nextSeed seed, ?_, now⟩
        rw [getReplacementIndex, full]
        dsimp only
        rw [dif_pos (Nat.pos_of_neZero n)]
        exact if_pos now
      · obtain ⟨fuel, way, next, result, valid⟩ :=
          ih (nextSeed seed) isValid
        refine ⟨fuel + 1, way, next, ?_, valid⟩
        rw [getReplacementIndex, full]
        dsimp only
        rw [dif_pos (Nat.pos_of_neZero n), ← result]
        exact if_neg now

/-- A way that is drawn is below 32768. -/
theorem way_lt_of_getReplacementIndex (full : firstInvalid blocks = none)
    {fuel seed next : Nat} {way : Fin n}
    (result : getReplacementIndex blocks fuel seed = .ok (way, next)) :
    (way : Nat) < 32768 := by
  induction fuel generalizing seed with
  | zero => cases result
  | succ fuel ih =>
      rw [getReplacementIndex, full] at result
      dsimp only at result
      rw [dif_pos (Nat.pos_of_neZero n)] at result
      split at result
      next =>
        cases result
        exact Nat.lt_of_le_of_lt (Nat.mod_le _ _) (value_lt seed)
      next => exact ih result

theorem replaces_iff {seed : Nat} (isEmpty : EmptyBlocks blocks) :
    (∃ fuel way next,
      getReplacementIndex blocks fuel seed = .ok (way, next) ∧
      isValidReplacement blocks way = true) ↔
    HasInvalid blocks ∨
      ∃ way : Fin n, (way : Nat) < 32768 ∧
        isValidReplacement blocks way = true := by
  cases first : firstInvalid blocks with
  | some way =>
      have notValid := notValid_of_firstInvalid first
      constructor
      · exact fun _ => Or.inl ⟨way, notValid⟩
      · intro _
        refine ⟨1, way, seed, ?_, isEmpty.isValidReplacement notValid⟩
        rw [getReplacementIndex, first]
  | none =>
      have full := firstInvalid_eq_none.mp first
      constructor
      · intro replaces
        right
        obtain ⟨fuel, way, next, result, isValid⟩ := replaces
        exact ⟨way, way_lt_of_getReplacementIndex first result, isValid⟩
      · intro condition
        obtain ⟨way, small, isValid⟩ :=
          condition.resolve_left (not_hasInvalid full)
        obtain ⟨steps, reached⟩ := exists_value_eq seed small
        apply getReplacementIndex_ends first steps
        have isDrawn : (drawn (nextSeed^[steps] seed) : Fin n) = way := by
          apply Fin.ext
          change value _ % n = way
          rw [reached]
          exact Nat.mod_eq_of_lt way.isLt
        rw [isDrawn]
        exact isValid

end RandomPolicy

end ChipletSniper.Cache
