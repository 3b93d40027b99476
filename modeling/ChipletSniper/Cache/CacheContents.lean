import ChipletSniper.Cache.CacheLines
import ChipletSniper.Library.Runs

/-!
# Contents of a cache

Whatever the replacement policy does, a cache that splits its addresses
correctly is a store of lines: a line that was inserted is found with its state
until it is invalidated or reported as evicted.
-/

namespace ChipletSniper.Lines

open Library Function LineStore ChipletSniper.Cache

variable {n : Nat} {policy : Policy n} {base : CacheBase}

/-! ## Requests -/

/-- The calls of a cache.  An insertion comes with what the replacement policy
asks its controller. -/
inductive Request (n : Nat) where
  | peek (addr : Nat)
  | change (addr : Nat) (change : Status → Status)
  | access (addr : Nat) (access : AccessType) (bytes : Nat) (wanted : Bool)
  | invalidate (addr : Nat)
  | insert (addr fuel : Nat) (queries : Queries n)

def Request.addr : Request n → Nat
  | .peek addr => addr
  | .change addr _ => addr
  | .access addr _ _ _ => addr
  | .invalidate addr => addr
  | .insert addr _ _ => addr

/-- A call, together with its answer as an event of the store. -/
def Cache.serve (cache : Cache base policy) :
    Request n → Except Failure (Event Status × Cache base policy)
  | .peek addr => do
      let status ← cache.peekSingleLine addr
      return (.look (addr / base.blockSize) status, cache)
  | .change addr change => do
      let (found, next) ← cache.changeSingleLine addr change
      return (.change (addr / base.blockSize) change found, next)
  | .access addr access bytes wanted => do
      let (status, next) ← cache.accessSingleLine addr access bytes wanted
      return (.look (addr / base.blockSize) status, next)
  | .invalidate addr => do
      let (found, next) ← cache.invalidateSingleLine addr
      return (.remove (addr / base.blockSize) found, next)
  | .insert addr fuel queries => do
      let (evicted, next) ← cache.insertSingleLine addr fuel queries
      return (.insert (addr / base.blockSize) {} evicted, next)

/-- A line is only inserted after it has been missed. -/
def Cache.Allows (cache : Cache base policy) : Request n → Prop
  | .insert addr _ _ => cache.peekSingleLine addr = .ok none
  | _ => True

/-- The calls of a run with their answers. -/
inductive Served :
    Cache base policy → List (Event Status) → Cache base policy → Prop
  | nil (cache : Cache base policy) : Served cache [] cache
  | cons {cache next last : Cache base policy} (request : Request n)
      {event : Event Status} {events : List (Event Status)} :
      request.addr < 2 ^ 64 → cache.Allows request →
      cache.serve request = .ok (event, next) →
      Served next events last → Served cache (event :: events) last

/-! ## Addresses -/

section Addresses

theorem tag_eq {addr tag : Nat} {index : Fin base.numSets}
    (located : Cache.locate base addr = .ok (tag, index)) :
    tag = addr / base.blockSize := by
  rw [Cache.locate] at located
  split at located
  next found place split =>
    split at located
    · cases located
      rw [CacheBase.splitAddress, Option.map_eq_some_iff] at split
      obtain ⟨_, _, same⟩ := split
      have tags := congrArg Prod.fst same
      rw [base.blockSize_eq, ← Nat.shiftRight_eq_div_pow]
      exact tags.symm
    · cases located
  · cases located

theorem locate_of_splits (splits : base.SplitsCorrectly) {addr : Nat}
    (bound : addr < 2 ^ 64) :
    ∃ index, Cache.locate base addr = .ok (addr / base.blockSize, index) ∧
      ∀ other < 2 ^ 64, other / base.blockSize = addr / base.blockSize →
        Cache.locate base other = .ok (addr / base.blockSize, index) := by
  obtain ⟨tag, index, split, inRange, -, others⟩ := splits addr bound
  have located : Cache.locate base addr = .ok (tag, ⟨index, inRange⟩) := by
    rw [Cache.locate, split]
    exact dif_pos inRange
  have isTag := tag_eq located
  rw [← isTag]
  refine ⟨⟨index, inRange⟩, located, ?_⟩
  intro other otherBound same
  rw [isTag] at same
  rw [Cache.locate, (others other otherBound).1 (by rw [same, ← isTag])]
  exact dif_pos inRange

theorem tag_ne_noTag (large : 1 < base.blockSize) {addr : Nat}
    (bound : addr < 2 ^ 64) : addr / base.blockSize ≠ noTag := by
  have half : addr / base.blockSize ≤ addr / 2 :=
    Nat.div_le_div_left large (by decide)
  rw [noTag]
  omega

end Addresses

/-! ## The store behind a cache -/

/-- The tags of a set are different, and belong to it. -/
structure WellFormed (cache : Cache base policy) : Prop where
  distinct : ∀ index way other,
    ((cache.sets index).infos way).isValid = true →
    ((cache.sets index).infos way).tag =
      ((cache.sets index).infos other).tag →
    way = other
  placed : ∀ index way, ((cache.sets index).infos way).isValid = true →
    ∃ addr < 2 ^ 64, Cache.locate base addr =
      .ok (((cache.sets index).infos way).tag, index)

/-- The store has the lines of the cache. -/
structure Shows (cache : Cache base policy) (store : Store Status) :
    Prop where
  status : ∀ index way, ((cache.sets index).infos way).isValid = true →
    store ((cache.sets index).infos way).tag =
      some ((cache.sets index).infos way).status
  only : ∀ line, store.has line = true → ∃ index way,
    ((cache.sets index).infos way).isValid = true ∧
    ((cache.sets index).infos way).tag = line

/-- The store with no lines. -/
def emptyStore : Store Status := fun _ => none

theorem WellFormed.start : WellFormed (Cache.start base policy) where
  distinct := fun _ _ _ isValid => by cases isValid
  placed := fun _ _ isValid => by cases isValid

theorem Shows.start : Shows (Cache.start base policy) emptyStore where
  status := fun _ _ isValid => by cases isValid
  only := fun _ present => by cases present

section Finding

variable {set : CacheSet policy} {tag : Nat} {way : Fin n}

theorem tag_of_find (found : set.find tag = some way) :
    (set.infos way).tag = tag := by
  have matched := List.find?_some found
  exact of_decide_eq_true matched

theorem find_none (missed : set.find tag = none) (way : Fin n) :
    (set.infos way).tag ≠ tag := by
  have differs := List.find?_eq_none.mp missed way
    (List.mem_reverse.mpr (List.mem_finRange way))
  intro same
  exact differs (decide_eq_true same)

theorem isValid_of_tag (noneSuch : tag ≠ noTag)
    (isTag : (set.infos way).tag = tag) :
    (set.infos way).isValid = true := by
  rw [CacheBlockInfo.isValid, isTag]
  exact decide_eq_true noneSuch

end Finding

section Lookups

variable {cache : Cache base policy} {store : Store Status}
variable {addr tag : Nat} {index : Fin base.numSets}

/-- A hit of the cache is one of the store. -/
theorem Shows.status_of_find (shows : Shows cache store)
    (noneSuch : tag ≠ noTag) {way : Fin n}
    (found : (cache.sets index).find tag = some way) :
    store tag = some ((cache.sets index).infos way).status := by
  have isTag := tag_of_find found
  have status := shows.status index way (isValid_of_tag noneSuch isTag)
  rw [isTag] at status
  exact status

/-- A miss of the cache is one of the store: the line would be in the set
where it was looked for. -/
theorem Shows.has_of_find_none (splits : base.SplitsCorrectly)
    (wellFormed : WellFormed cache) (shows : Shows cache store)
    (bound : addr < 2 ^ 64)
    (located : Cache.locate base addr = .ok (tag, index))
    (missed : (cache.sets index).find tag = none) :
    store.has tag = false := by
  by_contra present
  rw [Bool.not_eq_false] at present
  obtain ⟨other, way, isValid, isTag⟩ := shows.only tag present
  obtain ⟨source, sourceBound, placed⟩ := wellFormed.placed other way isValid
  obtain ⟨place, -, others⟩ := locate_of_splits splits bound
  have here := others addr bound rfl
  have there := others source sourceBound (by
    rw [← tag_eq placed, isTag, tag_eq located])
  have sets : index = other := by
    rw [located] at here
    rw [placed] at there
    exact (Prod.mk.inj (Except.ok.inj here)).2.trans
      (Prod.mk.inj (Except.ok.inj there)).2.symm
  rw [sets] at missed
  exact find_none missed way isTag

end Lookups

/-! ## Changes of a way -/

/-- What a call that changes one way has to do to the store. -/
structure Changes (base : CacheBase) (set : CacheSet policy) (way : Fin n)
    (next : CacheSet policy) (store store' : Store Status) : Prop where
  infos : ∀ other, other ≠ way → next.infos other = set.infos other
  status : (next.infos way).isValid = true →
    store' (next.infos way).tag = some (next.infos way).status
  kept : ∀ line,
    ((next.infos way).isValid = true → line ≠ (next.infos way).tag) →
    ((set.infos way).isValid = true → line ≠ (set.infos way).tag) →
    store' line = store line
  left : (set.infos way).isValid = true →
    (next.infos way).tag ≠ (set.infos way).tag →
    store'.has (set.infos way).tag = false

section Changing

variable {cache : Cache base policy} {store store' : Store Status}
variable {index : Fin base.numSets} {way : Fin n} {next : CacheSet policy}

/-- The new tag of the way is not one of another way of its set. -/
def Fresh (set next : CacheSet policy) (way : Fin n) : Prop :=
  (next.infos way).isValid = true → ∀ other, other ≠ way →
    (set.infos other).tag ≠ (next.infos way).tag

theorem WellFormed.setSet (wellFormed : WellFormed cache)
    (infos : ∀ other, other ≠ way →
      next.infos other = (cache.sets index).infos other)
    (fresh : Fresh (cache.sets index) next way)
    (placed : (next.infos way).isValid = true →
      ∃ addr < 2 ^ 64,
        Cache.locate base addr = .ok ((next.infos way).tag, index)) :
    WellFormed (cache.setSet index next) := by
  constructor
  · intro place first second isValid same
    by_cases isPlace : place = index
    · subst isPlace
      rw [Cache.sets_setSet] at isValid same
      by_cases isFirst : first = way
      · subst isFirst
        by_contra different
        rw [infos second (Ne.symm different)] at same
        exact fresh isValid second (Ne.symm different) same.symm
      · rw [infos first isFirst] at isValid same
        by_cases isSecond : second = way
        · subst isSecond
          have secondValid : (next.infos second).isValid = true := by
            rw [CacheBlockInfo.isValid] at isValid ⊢
            rw [← same]
            exact isValid
          exact absurd same (fresh secondValid first isFirst)
        · rw [infos second isSecond] at same
          exact wellFormed.distinct place first second isValid same
    · rw [Cache.sets_setSet_of_ne _ isPlace] at isValid same
      exact wellFormed.distinct place first second isValid same
  · intro place first isValid
    by_cases isPlace : place = index
    · subst isPlace
      rw [Cache.sets_setSet] at isValid ⊢
      by_cases isFirst : first = way
      · subst isFirst
        exact placed isValid
      · rw [infos first isFirst] at isValid ⊢
        exact wellFormed.placed place first isValid
    · rw [Cache.sets_setSet_of_ne _ isPlace] at isValid ⊢
      exact wellFormed.placed place first isValid

/-- Two lines of one tag are the same way of the same set. -/
theorem WellFormed.unique (splits : base.SplitsCorrectly)
    (wellFormed : WellFormed cache) {place : Fin base.numSets} {other : Fin n}
    (isValid : ((cache.sets index).infos way).isValid = true)
    (same : ((cache.sets place).infos other).tag =
      ((cache.sets index).infos way).tag) :
    place = index ∧ other = way := by
  have otherValid : ((cache.sets place).infos other).isValid = true := by
    rw [CacheBlockInfo.isValid] at isValid ⊢
    rw [same]
    exact isValid
  obtain ⟨first, firstBound, here⟩ := wellFormed.placed index way isValid
  obtain ⟨second, secondBound, there⟩ :=
    wellFormed.placed place other otherValid
  obtain ⟨found, -, others⟩ := locate_of_splits splits firstBound
  have firstFound := others first firstBound rfl
  have secondFound := others second secondBound (by
    rw [← tag_eq here, ← tag_eq there, same])
  have places : place = index := by
    rw [here] at firstFound
    rw [there] at secondFound
    exact (Prod.mk.inj (Except.ok.inj secondFound)).2.trans
      (Prod.mk.inj (Except.ok.inj firstFound)).2.symm
  subst places
  exact ⟨rfl, wellFormed.distinct place other way otherValid same⟩

theorem Shows.setSet (splits : base.SplitsCorrectly)
    (wellFormed : WellFormed cache) (shows : Shows cache store)
    (changes : Changes base (cache.sets index) way next store store')
    (wellFormed' : WellFormed (cache.setSet index next)) :
    Shows (cache.setSet index next) store' := by
  have sets : (cache.setSet index next).sets index = next :=
    cache.sets_setSet index next
  -- A line in another place is not the one that changes.
  have beside : ∀ place other, (place ≠ index ∨ other ≠ way) →
      (((cache.setSet index next).sets place).infos other).isValid = true →
      ((cache.setSet index next).sets place).infos other =
        (cache.sets place).infos other ∧
      store' ((cache.sets place).infos other).tag =
        store ((cache.sets place).infos other).tag := by
    intro place other elsewhere isValid
    have info : ((cache.setSet index next).sets place).infos other =
        (cache.sets place).infos other := by
      by_cases isPlace : place = index
      · subst isPlace
        rw [sets]
        cases elsewhere with
        | inl apart => exact absurd rfl apart
        | inr apart => exact changes.infos other apart
      · rw [Cache.sets_setSet_of_ne _ isPlace]
    have notNew : (next.infos way).isValid = true →
        ((cache.sets place).infos other).tag ≠ (next.infos way).tag := by
      intro newValid same
      rw [← info] at same
      have newest : (((cache.setSet index next).sets index).infos
          way).isValid = true := by
        rw [sets]
        exact newValid
      have here := wellFormed'.unique splits newest (by rw [same, sets])
      cases elsewhere with
      | inl apart => exact apart here.1
      | inr apart => exact apart here.2
    have notOld : ((cache.sets index).infos way).isValid = true →
        ((cache.sets place).infos other).tag ≠
          ((cache.sets index).infos way).tag := by
      intro oldValid same
      have here := wellFormed.unique splits oldValid same
      cases elsewhere with
      | inl apart => exact apart here.1
      | inr apart => exact apart here.2
    exact ⟨info, changes.kept _ notNew notOld⟩
  constructor
  · intro place other isValid
    by_cases here : place = index ∧ other = way
    · obtain ⟨rfl, rfl⟩ := here
      rw [sets] at isValid ⊢
      exact changes.status isValid
    · have same := beside place other (not_and_or.mp here) isValid
      rw [same.1] at isValid ⊢
      rw [same.2]
      exact shows.status place other isValid
  · intro line present
    by_cases isNew : (next.infos way).isValid = true ∧
        line = (next.infos way).tag
    · refine ⟨index, way, ?_⟩
      rw [sets]
      exact ⟨isNew.1, isNew.2.symm⟩
    · have notNew := not_and.mp isNew
      by_cases isOld : ((cache.sets index).infos way).isValid = true ∧
          line = ((cache.sets index).infos way).tag
      · exfalso
        by_cases isSame : (next.infos way).tag =
            ((cache.sets index).infos way).tag
        · apply isNew
          rw [isOld.2, CacheBlockInfo.isValid, isSame]
          exact ⟨isOld.1, rfl⟩
        · have gone := changes.left isOld.1 isSame
          rw [← isOld.2, present] at gone
          cases gone
      · have notOld := not_and.mp isOld
        rw [Store.has, changes.kept line notNew notOld] at present
        obtain ⟨place, other, isValid, isTag⟩ := shows.only line present
        have elsewhere : ¬ (place = index ∧ other = way) := by
          intro here
          obtain ⟨rfl, rfl⟩ := here
          exact notOld isValid isTag.symm
        refine ⟨place, other, ?_⟩
        by_cases isPlace : place = index
        · subst isPlace
          have different : other ≠ way := fun same => elsewhere ⟨rfl, same⟩
          rw [sets, changes.infos other different]
          exact ⟨isValid, isTag⟩
        · rw [Cache.sets_setSet_of_ne _ isPlace]
          exact ⟨isValid, isTag⟩

end Changing

/-! ## Reading and writing a way -/

section Ways

variable {set next : CacheSet policy} {way : Fin n} {wanted : Bool}

theorem updateReplacement_ok
    (updated : set.updateReplacement way wanted = .ok next) :
    next.infos = set.infos := by
  rw [CacheSet.updateReplacement] at updated
  split at updated
  · obtain ⟨replacement, -, rest⟩ := bind_eq_ok.mp updated
    cases rest
    rfl
  · cases updated
    rfl

theorem touchLine_ok {blocksize offset bytes : Nat}
    (touched : set.touchLine blocksize way offset bytes wanted = .ok next) :
    next.infos = set.infos := by
  rw [CacheSet.touchLine] at touched
  split at touched
  · exact updateReplacement_ok touched
  · cases touched

theorem accessLine_ok {blocksize offset bytes : Nat} {access : AccessType}
    (accessed : set.accessLine blocksize access way offset bytes wanted =
      .ok next) :
    next.infos = set.infos := by
  cases access with
  | load => exact touchLine_ok accessed
  | store => exact touchLine_ok accessed

theorem insert_ok {fuel : Nat} {info : CacheBlockInfo} {queries : Queries n}
    {evicted : Option CacheBlockInfo}
    (inserted : set.insert info fuel queries = .ok (evicted, next)) :
    ∃ way : Fin n, next.infos = update set.infos way info ∧
      evicted = if (set.infos way).isValid then some (set.infos way)
        else none := by
  obtain ⟨⟨way, replacement⟩, -, rest⟩ := bind_eq_ok.mp inserted
  cases rest
  exact ⟨way, rfl, rfl⟩

end Ways

/-! ## Calls -/

section Calls

variable {cache next : Cache base policy} {store : Store Status}
variable {addr : Nat} {index : Fin base.numSets}
variable {event : Event Status}

/-- The store can answer the same, and has the lines of the cache again. -/
def Follows (store : Store Status) (event : Event Status)
    (next : Cache base policy) : Prop :=
  ∃ store', Step base.blockSize store event store' ∧
    WellFormed next ∧ Shows next store'

/-- A call that changes one way, whose tag stays in its set. -/
theorem Shows.follows (splits : base.SplitsCorrectly)
    (wellFormed : WellFormed cache) (shows : Shows cache store)
    (way : Fin n) {set : CacheSet policy} {store' : Store Status}
    (changes : Changes base (cache.sets index) way set store store')
    (fresh : Fresh (cache.sets index) set way)
    (placed : (set.infos way).isValid = true →
      ∃ addr < 2 ^ 64,
        Cache.locate base addr = .ok ((set.infos way).tag, index))
    (step : Step base.blockSize store event store') :
    Follows store event (cache.setSet index set) := by
  have wellFormed' := wellFormed.setSet changes.infos fresh placed
  exact ⟨store', step, wellFormed',
    shows.setSet splits wellFormed changes wellFormed'⟩

theorem WellFormed.fresh_of_infos (wellFormed : WellFormed cache)
    {set : CacheSet policy} {way : Fin n}
    (tags : (set.infos way).tag = ((cache.sets index).infos way).tag) :
    Fresh (cache.sets index) set way := by
  intro isValid other different same
  rw [CacheBlockInfo.isValid, tags] at isValid
  apply different
  exact (wellFormed.distinct index way other isValid
    (by rw [same, tags])).symm

theorem WellFormed.placed_of_infos (wellFormed : WellFormed cache)
    {set : CacheSet policy} {way : Fin n}
    (tags : (set.infos way).tag = ((cache.sets index).infos way).tag)
    (isValid : (set.infos way).isValid = true) :
    ∃ addr < 2 ^ 64,
      Cache.locate base addr = .ok ((set.infos way).tag, index) := by
  rw [CacheBlockInfo.isValid, tags] at isValid
  rw [tags]
  exact wellFormed.placed index way isValid

/-- Only the replacement policy learns of the call. -/
theorem Shows.follows_replacement (splits : base.SplitsCorrectly)
    (wellFormed : WellFormed cache) (shows : Shows cache store)
    {set : CacheSet policy} {way : Fin n}
    (isValid : ((cache.sets index).infos way).isValid = true)
    (infos : set.infos = (cache.sets index).infos)
    (step : Step base.blockSize store event store) :
    Follows store event (cache.setSet index set) := by
  refine shows.follows splits wellFormed way ?_ ?_ ?_ step
  · constructor
    · intro other _
      rw [infos]
    · intro _
      rw [infos]
      exact shows.status index way isValid
    · intro line _ _
      rfl
    · intro _ differs
      rw [infos] at differs
      exact absurd rfl differs
  · apply wellFormed.fresh_of_infos
    rw [infos]
  · apply wellFormed.placed_of_infos
    rw [infos]

variable (splits : base.SplitsCorrectly) (large : 1 < base.blockSize)
variable (wellFormed : WellFormed cache) (shows : Shows cache store)
variable (bound : addr < 2 ^ 64)
variable (located : Cache.locate base addr = .ok (addr / base.blockSize, index))

include splits large wellFormed shows bound located

/-- What the store has of a line is what the cache finds. -/
theorem status_eq_find :
    store (addr / base.blockSize) =
      ((cache.sets index).find (addr / base.blockSize)).map fun way =>
        ((cache.sets index).infos way).status := by
  cases found : (cache.sets index).find (addr / base.blockSize) with
  | none =>
      have missed := shows.has_of_find_none splits wellFormed bound located
        found
      rw [Store.has, Option.isSome_eq_false_iff,
        Option.isNone_iff_eq_none] at missed
      exact missed
  | some way =>
      exact shows.status_of_find (tag_ne_noTag large bound) found

theorem has_eq_find :
    store.has (addr / base.blockSize) =
      ((cache.sets index).find (addr / base.blockSize)).isSome := by
  rw [Store.has, status_eq_find splits large wellFormed shows bound located,
    Option.isSome_map]

theorem follows_peek
    (served : cache.serve (.peek addr) = .ok (event, next)) :
    Follows store event next := by
  rw [Cache.serve, Cache.peekSingleLine, located] at served
  cases served
  rw [← status_eq_find splits large wellFormed shows bound located]
  exact ⟨store, Step.look _, wellFormed, shows⟩

theorem follows_change {change : Status → Status}
    (served : cache.serve (.change addr change) = .ok (event, next)) :
    Follows store event next := by
  have status := status_eq_find splits large wellFormed shows bound located
  have has := has_eq_find splits large wellFormed shows bound located
  have step : Step base.blockSize store _ _ :=
    Step.change (addr / base.blockSize) change
  rw [Cache.serve, Cache.changeSingleLine, located] at served
  cases found : (cache.sets index).find (addr / base.blockSize) with
  | none =>
      rw [found] at status has
      rw [Option.map_none] at status
      have same := update_eq_self (addr / base.blockSize) store
      rw [status] at same
      rw [has, status, Option.map_none, same] at step
      simp only [bind, Except.bind, pure, Except.pure, found,
        Except.ok.injEq, Prod.mk.injEq] at served
      obtain ⟨rfl, rfl⟩ := served
      exact ⟨store, step, wellFormed, shows⟩
  | some way =>
      have isTag := tag_of_find found
      have isValid := isValid_of_tag (tag_ne_noTag large bound) isTag
      rw [found] at status has
      rw [has] at step
      simp only [bind, Except.bind, pure, Except.pure, found,
        Except.ok.injEq, Prod.mk.injEq] at served
      obtain ⟨rfl, rfl⟩ := served
      refine shows.follows splits wellFormed way ?_ ?_ ?_ step
      · constructor
        · intro other different
          simp only [CacheSet.setInfo, update_of_ne different]
        · intro _
          simp only [CacheSet.setInfo, update_self, isTag, status,
            Option.map_some]
        · intro line _ notOld
          have different := notOld isValid
          rw [isTag] at different
          exact update_of_ne different _ _
        · intro _ differs
          simp only [CacheSet.setInfo, update_self] at differs
          exact absurd rfl differs
      · apply wellFormed.fresh_of_infos
        simp only [CacheSet.setInfo, update_self]
      · apply wellFormed.placed_of_infos
        simp only [CacheSet.setInfo, update_self]

theorem follows_access {access : AccessType} {bytes : Nat} {wanted : Bool}
    (served : cache.serve (.access addr access bytes wanted) =
      .ok (event, next)) :
    Follows store event next := by
  have status := status_eq_find splits large wellFormed shows bound located
  have step : Step base.blockSize store _ store :=
    Step.look (addr / base.blockSize)
  rw [Cache.serve, Cache.accessSingleLine, located] at served
  cases found : (cache.sets index).find (addr / base.blockSize) with
  | none =>
      rw [status, found, Option.map_none] at step
      simp only [bind, Except.bind, pure, Except.pure, found,
        Except.ok.injEq, Prod.mk.injEq] at served
      obtain ⟨rfl, rfl⟩ := served
      exact ⟨store, step, wellFormed, shows⟩
  | some way =>
      rw [status, found, Option.map_some] at step
      have isValid := isValid_of_tag (tag_ne_noTag large bound)
        (tag_of_find found)
      simp only [bind, Except.bind, pure, Except.pure, found] at served
      cases accessed : (cache.sets index).accessLine base.blockSize access way
          (Cache.blockOffset base addr) bytes wanted with
      | error failure =>
          rw [accessed] at served
          cases served
      | ok set =>
          rw [accessed] at served
          simp only [Except.ok.injEq, Prod.mk.injEq] at served
          obtain ⟨rfl, rfl⟩ := served
          exact shows.follows_replacement splits wellFormed isValid
            (accessLine_ok accessed) step

theorem follows_invalidate
    (served : cache.serve (.invalidate addr) = .ok (event, next)) :
    Follows store event next := by
  have status := status_eq_find splits large wellFormed shows bound located
  have has := has_eq_find splits large wellFormed shows bound located
  have step : Step base.blockSize store _ _ :=
    Step.remove (addr / base.blockSize)
  rw [Cache.serve, Cache.invalidateSingleLine, located] at served
  cases found : (cache.sets index).find (addr / base.blockSize) with
  | none =>
      rw [found] at status has
      rw [Option.map_none] at status
      have same := update_eq_self (addr / base.blockSize) store
      rw [status] at same
      rw [has, same] at step
      simp only [bind, Except.bind, pure, Except.pure, CacheSet.invalidate,
        found, Except.ok.injEq, Prod.mk.injEq] at served
      obtain ⟨rfl, rfl⟩ := served
      rw [Cache.setSet_self]
      exact ⟨store, step, wellFormed, shows⟩
  | some way =>
      have isTag := tag_of_find found
      have isValid := isValid_of_tag (tag_ne_noTag large bound) isTag
      rw [found] at status has
      rw [has] at step
      simp only [bind, Except.bind, pure, Except.pure, CacheSet.invalidate,
        found, Except.ok.injEq, Prod.mk.injEq] at served
      obtain ⟨rfl, rfl⟩ := served
      have gone : ∀ info : CacheBlockInfo, info.invalidate.isValid = false := by
        intro info
        rfl
      refine shows.follows splits wellFormed way ?_ ?_ ?_ step
      · constructor
        · intro other different
          simp only [CacheSet.setInfo, update_of_ne different]
        · intro newValid
          simp only [CacheSet.setInfo, update_self, gone] at newValid
          cases newValid
        · intro line _ notOld
          have different := notOld isValid
          rw [isTag] at different
          exact update_of_ne different _ _
        · intro _ _
          rw [Store.has, isTag]
          simp only [update_self, Option.isSome_none]
      · intro newValid
        simp only [CacheSet.setInfo, update_self, gone] at newValid
        cases newValid
      · intro newValid
        simp only [CacheSet.setInfo, update_self, gone] at newValid
        cases newValid

theorem follows_insert {fuel : Nat} {queries : Queries n}
    (absent : store.has (addr / base.blockSize) = false)
    (served : cache.serve (.insert addr fuel queries) = .ok (event, next)) :
    Follows store event next := by
  have has := has_eq_find splits large wellFormed shows bound located
  rw [absent] at has
  have missed := Option.isNone_iff_eq_none.mp
    (Option.isSome_eq_false_iff.mp has.symm)
  rw [Cache.serve, Cache.insertSingleLine, located] at served
  simp only [bind, Except.bind, pure, Except.pure] at served
  cases inserted : (cache.sets index).insert
      { tag := addr / base.blockSize } fuel queries with
  | error failure =>
      rw [inserted] at served
      cases served
  | ok result =>
      obtain ⟨evicted, set⟩ := result
      rw [inserted] at served
      simp only [Except.ok.injEq, Prod.mk.injEq] at served
      obtain ⟨rfl, rfl⟩ := served
      obtain ⟨way, infos, isEvicted⟩ := insert_ok inserted
      have mine : set.infos way = { tag := addr / base.blockSize } := by
        rw [infos, update_self]
      have fresh : Fresh (cache.sets index) set way := by
        intro _ other _
        rw [mine]
        exact find_none missed other
      have placed : (set.infos way).isValid = true →
          ∃ addr < 2 ^ 64,
            Cache.locate base addr = .ok ((set.infos way).tag, index) := by
        intro _
        rw [mine]
        exact ⟨addr, bound, located⟩
      have kept : ∀ other, other ≠ way →
          set.infos other = (cache.sets index).infos other := by
        intro other different
        rw [infos, update_of_ne different]
      cases isValid : ((cache.sets index).infos way).isValid with
      | false =>
          rw [isEvicted, isValid]
          refine shows.follows splits wellFormed way ?_ fresh placed
            (Step.insert absent)
          constructor
          · exact kept
          · intro _
            rw [mine]
            exact update_self _ _ _
          · intro line notNew _
            rw [mine] at notNew
            have different := notNew
              (decide_eq_true (tag_ne_noTag large bound))
            exact update_of_ne different _ _
          · intro oldValid
            rw [isValid] at oldValid
            cases oldValid
      | true =>
          have old := shows.status index way isValid
          have different : ((cache.sets index).infos way).tag ≠
              addr / base.blockSize := find_none missed way
          obtain ⟨source, sourceBound, here⟩ :=
            wellFormed.placed index way isValid
          have address : base.tagToAddress
              ((cache.sets index).infos way).tag =
                ((cache.sets index).infos way).tag * base.blockSize := by
            rw [tag_eq here]
            conv_lhs =>
              rw [base.blockSize_eq, ← Nat.shiftRight_eq_div_pow]
            exact base.tagToAddress_tag sourceBound
          rw [isEvicted, isValid, if_pos rfl, Option.map_some, address]
          refine shows.follows splits wellFormed way ?_ fresh placed
            (Step.replace absent old)
          constructor
          · exact kept
          · intro _
            rw [mine]
            exact update_self _ _ _
          · intro line notNew notOld
            rw [mine] at notNew
            have isOther := notNew
              (decide_eq_true (tag_ne_noTag large bound))
            exact (update_of_ne isOther _ _).trans
              (update_of_ne (notOld isValid) _ _)
          · intro _ _
            rw [Store.has]
            simp only [update_of_ne different, update_self,
              Option.isSome_none]

end Calls

/-! ## Runs -/

section Runs

variable {cache next last : Cache base policy} {store : Store Status}

/-- Every call is answered as the store would answer it. -/
theorem Shows.serve (splits : base.SplitsCorrectly)
    (large : 1 < base.blockSize) (wellFormed : WellFormed cache)
    (shows : Shows cache store) {request : Request n}
    {event : Event Status} (bound : request.addr < 2 ^ 64)
    (allowed : cache.Allows request)
    (served : cache.serve request = .ok (event, next)) :
    Follows store event next := by
  obtain ⟨index, located, -⟩ := locate_of_splits splits bound
  cases request with
  | peek addr =>
      exact follows_peek splits large wellFormed shows bound located served
  | change addr change =>
      exact follows_change splits large wellFormed shows bound located served
  | access addr access bytes wanted =>
      exact follows_access splits large wellFormed shows bound located served
  | invalidate addr =>
      exact follows_invalidate splits large wellFormed shows bound located
        served
  | insert addr fuel queries =>
      rw [Request.addr] at bound located
      have absent : store.has (addr / base.blockSize) = false := by
        rw [has_eq_find splits large wellFormed shows bound located]
        rw [Cache.Allows, Cache.peekSingleLine, located] at allowed
        have missed := Option.map_eq_none_iff.mp (Except.ok.inj allowed)
        rw [missed]
        rfl
      exact follows_insert splits large wellFormed shows bound located absent
        served

theorem Shows.served (splits : base.SplitsCorrectly)
    (large : 1 < base.blockSize) (wellFormed : WellFormed cache)
    (shows : Shows cache store) {events : List (Event Status)}
    (served : Served cache events last) :
    ∃ store', Run base.blockSize store events store' ∧
      WellFormed last ∧ Shows last store' := by
  induction served generalizing store with
  | nil cache => exact ⟨store, Run.nil store, wellFormed, shows⟩
  | cons request bound allowed call _ ih =>
      obtain ⟨middle, step, wellFormed', shows'⟩ :=
        shows.serve splits large wellFormed bound allowed call
      obtain ⟨store', run, result⟩ := ih wellFormed' shows'
      exact ⟨store', Run.cons step run, result⟩

/-- A cache with any replacement policy, and any hash that finds a set for
every address, answers all its calls as a store of lines does. -/
theorem cache_is_store (splits : base.SplitsCorrectly)
    (large : 1 < base.blockSize) {events : List (Event Status)}
    (served : Served (Cache.start base policy) events last) :
    ∃ store, Run base.blockSize emptyStore events store ∧ Shows last store := by
  obtain ⟨store, run, -, shows⟩ :=
    Shows.start.served splits large WellFormed.start served
  exact ⟨store, run, shows⟩

end Runs

/-- One set of lines of two bytes. -/
def twoBytes : CacheBase where
  hash := .mask
  numSets := 1
  blockSize := 2
  ahl := none
  sets_pos := Nat.one_pos
  sets_lt := Nat.one_lt_two_pow (by decide)
  block_power := ⟨1, by decide, rfl⟩
  mask_power := Or.inl rfl
  interleaving := by
    intro lookup isSome
    cases isSome

theorem splits_twoBytes : twoBytes.SplitsCorrectly := by
  rw [CacheBase.splitsCorrectly_iff_inRange, CacheBase.indexInRange_iff]
  refine ⟨?_, ?_⟩
  · intro isMersenne
    cases isMersenne
  · intro isXor
    cases isXor

/-- A line enters, is read and changed, and a second one replaces it. -/
theorem cache_is_store_twoBytes :
    ∃ store, Run 2 emptyStore [
        .insert 0 {} none,
        .look 0 (some {}),
        .change 0 (fun status => { status with used := 1 }) true,
        .insert 5 {} (some (0, { used := 1 })),
        .look 0 none,
        .remove 5 true] store := by
  have served : ∃ last, Served (Cache.start twoBytes (roundRobin 1)) [
      .insert 0 {} none,
      .look 0 (some {}),
      .change 0 (fun status => { status with used := 1 }) true,
      .insert 5 {} (some (0, { used := 1 })),
      .look 0 none,
      .remove 5 true] last := by
    exact ⟨_,
      Served.cons (.insert 0 2 fun _ _ => false) (by decide) rfl rfl <|
      Served.cons (.access 1 .load 1 true) (by decide) trivial rfl <|
      Served.cons (.change 0 fun status => { status with used := 1 })
        (by decide) trivial rfl <|
      Served.cons (.insert 10 2 fun _ _ => false) (by decide) rfl rfl <|
      Served.cons (.access 0 .store 2 true) (by decide) trivial rfl <|
      Served.cons (.invalidate 11) (by decide) trivial rfl <|
      Served.nil _⟩
  obtain ⟨last, served⟩ := served
  obtain ⟨store, run, -⟩ :=
    cache_is_store splits_twoBytes (by decide) served
  exact ⟨store, run⟩

end ChipletSniper.Lines
