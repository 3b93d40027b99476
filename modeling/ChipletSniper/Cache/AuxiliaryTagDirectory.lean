import ChipletSniper.Cache.CacheContents
import ChipletSniper.Cache.Recency
import ChipletSniper.Library.RecencyStack
import ChipletSniper.Misc.Utils

/-!
# Auxiliary tag directories

An `ATD` follows the accesses of a core to a shared cache with the tags of a
cache of its own, for all sets or for some that stand for the others, and counts
the accesses that this cache would have missed.
-/

namespace ChipletSniper.Lines

open Library Function Misc ChipletSniper.Cache

variable {n : Nat} {policy : Policy n} {base : CacheBase}

/-! ## Sampling -/

inductive Sampling where
  | full
  | powersPlusOne
  | random (seed count : Nat)
  deriving DecidableEq, Repr

/-- The loop over the indices `2 ^ N + 1`, from `index` on. -/
def powersPlusOne (numSets : Nat) : Nat → Nat → List Nat
  | 0, _ => []
  | fuel + 1, index =>
      if index < numSets - 1 then
        (index + 1) :: powersPlusOne numSets fuel (index * 2)
      else []

/-- The loop that draws sets until there are enough different ones, with the
number of attempts that are left. -/
def randomSets (numSets : Nat) :
    Nat → Nat → Nat → List Nat → Except Failure (List Nat)
  | _, 0, _, sets => .ok sets
  | 0, _ + 1, _, _ => .error .error
  | attempts + 1, count + 1, state, sets =>
      let (number, next) := rngNext state
      let index := number % numSets
      if index ∈ sets then randomSets numSets attempts (count + 1) next sets
      else randomSets numSets attempts count next (index :: sets)

/-- The sets that the constructor samples. -/
def sampledSets (numSets : Nat) : Sampling → Except Failure (List Nat)
  | .full => .ok (List.range numSets)
  | .powersPlusOne => .ok (powersPlusOne numSets numSets 1)
  | .random seed count =>
      if count ≤ numSets then
        randomSets numSets (10 * numSets - 1) count (rngSeed seed) []
      else .error .error

/-! ## The directory -/

structure Counters where
  loads : Nat := 0
  stores : Nat := 0
  loadMisses : Nat := 0
  storeMisses : Nat := 0
  loadsConstructive : Nat := 0
  storesConstructive : Nat := 0
  loadsDestructive : Nat := 0
  storesDestructive : Nat := 0
  deriving DecidableEq, Repr

/-- `ATD`. -/
structure ATD (base : CacheBase) (policy : Policy n) where
  sets : Nat → Option (CacheSet policy)
  counters : Counters := {}

/-- An access: whether it is a write, whether the shared cache hit, and where.
-/
structure TagAccess where
  write : Bool
  cacheHit : Bool
  address : Nat
  deriving DecidableEq, Repr

/-- What the directory counts of one access. -/
def Counters.count (counters : Counters) (access : TagAccess)
    (atdHit : Bool) : Counters :=
  let missed := if atdHit then 0 else 1
  let constructive := if access.cacheHit && !atdHit then 1 else 0
  let destructive := if !access.cacheHit && atdHit then 1 else 0
  if access.write then
    { counters with
      stores := counters.stores + 1
      storeMisses := counters.storeMisses + missed
      storesConstructive := counters.storesConstructive + constructive
      storesDestructive := counters.storesDestructive + destructive }
  else
    { counters with
      loads := counters.loads + 1
      loadMisses := counters.loadMisses + missed
      loadsConstructive := counters.loadsConstructive + constructive
      loadsDestructive := counters.loadsDestructive + destructive }

namespace ATD

def create (base : CacheBase) (policy : Policy n) (sampling : Sampling) :
    Except Failure (ATD base policy) := do
  let sampled ← sampledSets base.numSets sampling
  return { sets := fun index =>
    if index ∈ sampled then some (CacheSet.start policy) else none }

/-- What an access does to the set that it finds. -/
def accessSet (set : CacheSet policy) (tag fuel : Nat) :
    Except Failure (Bool × CacheSet policy) :=
  match set.find tag with
  | some way => do
      let next ← set.updateReplacement way true
      return (true, next)
  | none => do
      let (_, next) ← set.insert
        { tag := tag, status := { cstate := .modified } } fuel
        (fun _ _ => false)
      return (false, next)

def access (atd : ATD base policy) (fuel : Nat) (access : TagAccess) :
    Except Failure (ATD base policy) :=
  match base.splitAddress access.address with
  | none => .error .error
  | some (tag, index) =>
      match atd.sets index with
      | none => .ok atd
      | some set => do
          let (atdHit, next) ← accessSet set tag fuel
          return {
            sets := update atd.sets index (some next)
            counters := atd.counters.count access atdHit }

end ATD

/-! ## What a set of the directory holds -/

section Stacks

variable [NeZero n] {set : CacheSet (lru n 1)} {stack : List Nat}

def bitsOf (set : CacheSet (lru n 1)) : Fin n → Nat := set.replacement

/-- The set holds the tags of the stack, and its counters order them as the
stack does. -/
structure Stacked (set : CacheSet (lru n 1)) (stack : List Nat) : Prop where
  nodup : stack.Nodup
  mem : ∀ tag, tag ∈ stack ↔
    ∃ way, (set.infos way).isValid = true ∧ (set.infos way).tag = tag
  distinct : ∀ way other, (set.infos way).isValid = true →
    (set.infos way).tag = (set.infos other).tag → way = other
  injective : Injective (bitsOf set)
  below : ∀ way, bitsOf set way < n
  order : stack.Pairwise fun first second => ∀ way other,
    (set.infos way).tag = first → (set.infos other).tag = second →
    bitsOf set way < bitsOf set other
  free : ∀ way, (set.infos way).status.cstate ≠ .sharedUpgrading

theorem Stacked.start (small : n ≤ 256) :
    Stacked (CacheSet.start (lru n 1)) [] where
  nodup := List.nodup_nil
  mem := by
    intro tag
    constructor
    · intro member
      cases member
    · intro exists_way
      obtain ⟨way, isValid, -⟩ := exists_way
      cases isValid
  distinct := fun _ _ isValid => by cases isValid
  injective := (ordered_initialBits small).injective
  below := (ordered_initialBits small).below
  order := List.Pairwise.nil
  free := fun _ isUpgrading => by cases isUpgrading

theorem tag_of_notValid {info : CacheBlockInfo}
    (notValid : info.isValid = false) : info.tag = noTag := by
  rw [CacheBlockInfo.isValid] at notValid
  exact not_not.mp (of_decide_eq_false notValid)

theorem Stacked.noTag_notMem (stacked : Stacked set stack) :
    noTag ∉ stack := by
  intro member
  obtain ⟨way, isValid, isTag⟩ := (stacked.mem noTag).mp member
  exact of_decide_eq_true isValid isTag

/-- A way is touched, and holds a new tag or the one that it had. -/
theorem Stacked.touch (stacked : Stacked set stack) (way : Fin n)
    (info : CacheBlockInfo) (isValid : info.isValid = true)
    (free : info.status.cstate ≠ .sharedUpgrading)
    (fresh : ∀ other, other ≠ way → (set.infos other).tag ≠ info.tag) :
    Stacked ({ replacement := moveToMRU way (bitsOf set)
               infos := update set.infos way info } : CacheSet (lru n 1))
      (info.tag :: stack.erase (set.infos way).tag) := by
  have others : ∀ tag, tag ∈ stack.erase (set.infos way).tag ↔
      ∃ other, other ≠ way ∧ (set.infos other).isValid = true ∧
        (set.infos other).tag = tag := by
    intro tag
    rw [stacked.nodup.mem_erase_iff, stacked.mem]
    constructor
    · intro both
      obtain ⟨different, other, otherValid, isTag⟩ := both
      refine ⟨other, ?_, otherValid, isTag⟩
      intro same
      rw [same] at isTag
      exact different isTag.symm
    · intro exists_other
      obtain ⟨other, different, otherValid, isTag⟩ := exists_other
      refine ⟨?_, other, otherValid, isTag⟩
      intro same
      rw [← isTag] at same
      exact different (stacked.distinct other way otherValid same)
  have notMember : info.tag ∉ stack.erase (set.infos way).tag := by
    intro member
    obtain ⟨other, different, -, isTag⟩ := (others _).mp member
    exact fresh other different isTag
  constructor
  · apply List.nodup_cons.mpr
    exact ⟨notMember, stacked.nodup.erase _⟩
  · intro tag
    rw [List.mem_cons, others]
    constructor
    · intro either
      cases either with
      | inl same =>
          refine ⟨way, ?_⟩
          simp only [update_self]
          exact ⟨isValid, same.symm⟩
      | inr exists_other =>
          obtain ⟨other, different, found⟩ := exists_other
          refine ⟨other, ?_⟩
          simp only [update_of_ne different]
          exact found
    · intro exists_way
      obtain ⟨other, found⟩ := exists_way
      by_cases same : other = way
      · subst same
        simp only [update_self] at found
        exact Or.inl found.2.symm
      · simp only [update_of_ne same] at found
        exact Or.inr ⟨other, same, found⟩
  · intro first second firstValid same
    by_cases isFirst : first = way
    · by_cases isSecond : second = way
      · rw [isFirst, isSecond]
      · subst isFirst
        simp only [update_self, update_of_ne isSecond] at same
        exact absurd same.symm (fresh second isSecond)
    · by_cases isSecond : second = way
      · subst isSecond
        simp only [update_self, update_of_ne isFirst] at same
        exact absurd same (fresh first isFirst)
      · simp only [update_of_ne isFirst, update_of_ne isSecond]
          at firstValid same
        exact stacked.distinct first second firstValid same
  · exact moveToMRU_injective stacked.injective way
  · exact moveToMRU_le stacked.below way
  · apply List.pairwise_cons.mpr
    constructor
    · intro tag member first second isFirst isSecond
      have firstWay : first = way := by
        by_contra different
        simp only [update_of_ne different] at isFirst
        exact fresh first different isFirst
      have secondOther : second ≠ way := by
        intro same
        subst same
        simp only [update_self] at isSecond
        rw [← isSecond] at member
        exact notMember member
      rw [firstWay]
      change moveToMRU way (bitsOf set) way < moveToMRU way (bitsOf set) second
      rw [moveToMRU_self]
      apply moveToMRU_pos secondOther
      intro same
      exact secondOther (stacked.injective same)
    · have fewer : (stack.erase (set.infos way).tag).Sublist stack :=
        List.erase_sublist
      apply (stacked.order.sublist fewer).imp_of_mem
      intro firstTag secondTag firstMember secondMember less first second
        isFirst isSecond
      have firstOther : first ≠ way := by
        intro same
        subst same
        simp only [update_self] at isFirst
        rw [← isFirst] at firstMember
        exact notMember firstMember
      have secondOther : second ≠ way := by
        intro same
        subst same
        simp only [update_self] at isSecond
        rw [← isSecond] at secondMember
        exact notMember secondMember
      simp only [update_of_ne firstOther] at isFirst
      simp only [update_of_ne secondOther] at isSecond
      apply moveToMRU_lt firstOther secondOther
      · intro same
        exact secondOther (stacked.injective same)
      · exact less first second isFirst isSecond
  · intro other
    by_cases same : other = way
    · subst same
      simp only [update_self]
      exact free
    · simp only [update_of_ne same]
      exact stacked.free other

theorem Stacked.length_eq (stacked : Stacked set stack) :
    stack.length =
      ((List.finRange n).filter fun way => (set.infos way).isValid).length := by
  have distinct : (((List.finRange n).filter fun way =>
      (set.infos way).isValid).map fun way => (set.infos way).tag).Nodup := by
    apply List.Nodup.map_on
    · intro first isFirst second _ same
      exact stacked.distinct first second (List.mem_filter.mp isFirst).2 same
    · exact (List.nodup_finRange n).filter _
  have same := (List.perm_ext_iff_of_nodup stacked.nodup distinct).mpr (by
    intro tag
    rw [stacked.mem, List.mem_map]
    simp [List.mem_filter])
  rw [same.length_eq, List.length_map]

theorem Stacked.length_le (stacked : Stacked set stack) :
    stack.length ≤ n := by
  rw [stacked.length_eq]
  have most := List.length_filter_le (fun way => (set.infos way).isValid)
    (List.finRange n)
  rw [List.length_finRange] at most
  exact most

theorem Stacked.length_lt (stacked : Stacked set stack) {way : Fin n}
    (notValid : (set.infos way).isValid = false) : stack.length < n := by
  rw [stacked.length_eq]
  have less : ((List.finRange n).filter fun way =>
      (set.infos way).isValid).length < (List.finRange n).length := by
    apply List.length_filter_lt_length_iff_exists.mpr
    refine ⟨way, List.mem_finRange way, ?_⟩
    rw [notValid]
    exact Bool.false_ne_true
  rw [List.length_finRange] at less
  exact less

theorem Stacked.length_full (stacked : Stacked set stack)
    (full : ∀ way, (set.infos way).isValid = true) : stack.length = n := by
  rw [stacked.length_eq, List.filter_eq_self.mpr (fun way _ => full way),
    List.length_finRange]

/-- The victim of a full set has the last tag of the stack. -/
theorem Stacked.erase_victim (stacked : Stacked set stack)
    (full : ∀ way, (set.infos way).isValid = true) :
    stack.erase (set.infos (Lru.victim
      (fun way => (set.infos way).block) (bitsOf set))).tag =
      stack.take (n - 1) := by
  have length := stacked.length_full full
  generalize isVictim : Lru.victim
    (fun way => (set.infos way).block) (bitsOf set) = victim
  have largest : ∀ way, bitsOf set way ≤ bitsOf set victim := by
    intro way
    have replaceable : isValidReplacement
        (fun way => (set.infos way).block) way = true :=
      decide_eq_true (stacked.free way)
    cases Lru.victim_spec (fun way => (set.infos way).block) (bitsOf set) with
    | inl zeros =>
        rw [zeros.1 way replaceable]
        exact Nat.zero_le _
    | inr found =>
        rw [← isVictim]
        exact found.2.2 way replaceable
  have nonempty : stack ≠ [] := by
    intro empty
    rw [empty] at length
    exact NeZero.ne n length.symm
  obtain ⟨initial, last, rfl⟩ : ∃ initial last, stack = initial ++ [last] :=
    (List.eq_nil_or_concat' stack).resolve_left nonempty
  rw [List.length_append, List.length_singleton] at length
  have apart := List.nodup_append.mp stacked.nodup
  obtain ⟨way, isValid, isTag⟩ :=
    (stacked.mem last).mp
      (List.mem_append_right initial List.mem_cons_self)
  have isLast : way = victim := by
    by_contra different
    have member := (stacked.mem (set.infos victim).tag).mpr
      ⟨victim, full victim, rfl⟩
    cases List.mem_append.mp member with
    | inl earlier =>
        have less := (List.pairwise_append.mp stacked.order).2.2 _ earlier last
          List.mem_cons_self victim way rfl isTag
        exact Nat.not_lt.mpr (largest way) less
    | inr isLast =>
        rw [List.mem_singleton, ← isTag] at isLast
        exact different (stacked.distinct way victim isValid isLast.symm)
  have notMember : last ∉ initial := by
    intro member
    exact apart.2.2 last member last List.mem_cons_self rfl
  rw [← isLast, isTag, List.erase_append_right _ notMember,
    List.erase_cons_head, List.append_nil, ← length, Nat.add_sub_cancel,
    List.take_left]

/-- An access of a set hits if its tag is in the stack, and moves it to the
front. -/
theorem Stacked.accessSet (stacked : Stacked set stack) {tag : Nat}
    (noneSuch : tag ≠ noTag) (fuel : Nat) :
    ∃ next, ATD.accessSet set tag fuel = .ok (decide (tag ∈ stack), next) ∧
      Stacked next (tag :: (stack.erase tag).take (n - 1)) := by
  rw [ATD.accessSet]
  cases found : set.find tag with
  | some way =>
      have isTag := tag_of_find found
      have isValid := isValid_of_tag noneSuch isTag
      have member : tag ∈ stack := (stacked.mem tag).mpr ⟨way, isValid, isTag⟩
      have bits : (lru n 1).updateReplacementIndex way set.replacement =
          .ok (moveToMRU way (bitsOf set)) := by
        change (increment n (bitsOf set way) >>= fun _ => _) = _
        rw [increment, if_pos (stacked.below way)]
        rfl
      refine ⟨{ set with replacement := moveToMRU way (bitsOf set) }, ?_, ?_⟩
      · rw [decide_eq_true member]
        simp only [CacheSet.updateReplacement, if_pos, bits]
        rfl
      · have fresh : ∀ other, other ≠ way →
            (set.infos other).tag ≠ (set.infos way).tag := by
          intro other different same
          exact different (stacked.distinct way other isValid same.symm).symm
        have touched := stacked.touch way (set.infos way) isValid
          (stacked.free way) fresh
        rw [update_eq_self, isTag] at touched
        have short : (stack.erase tag).length ≤ n - 1 := by
          rw [List.length_erase_of_mem member]
          exact Nat.sub_le_sub_right stacked.length_le 1
        rw [List.take_of_length_le short]
        exact touched
  | none =>
      have absent : tag ∉ stack := by
        intro member
        obtain ⟨way, -, isTag⟩ := (stacked.mem tag).mp member
        exact find_none found way isTag
      have entered : ∀ way, stack.erase (set.infos way).tag =
          stack.take (n - 1) →
          Stacked ({ replacement := moveToMRU way (bitsOf set)
                     infos := update set.infos way
                       { tag := tag, status := { cstate := .modified } } } :
              CacheSet (lru n 1))
            (tag :: (stack.erase tag).take (n - 1)) := by
        intro way remaining
        have touched := stacked.touch way
          { tag := tag, status := { cstate := .modified } }
          (decide_eq_true noneSuch)
          (by intro isUpgrading; cases isUpgrading)
          (fun other _ => find_none found other)
        rw [remaining] at touched
        rw [List.erase_of_not_mem absent]
        exact touched
      rw [decide_eq_false absent]
      cases free : firstInvalid (fun way => (set.infos way).block) with
      | some way =>
          have notValid := notValid_of_firstInvalid free
          have short : stack.length ≤ n - 1 :=
            Nat.le_sub_one_of_lt (stacked.length_lt notValid)
          have remaining : stack.erase (set.infos way).tag =
              stack.take (n - 1) := by
            rw [tag_of_notValid notValid,
              List.erase_of_not_mem stacked.noTag_notMem,
              List.take_of_length_le short]
          have chosen : (lru n 1).getReplacementIndex fuel (fun _ _ => false)
              (fun way => (set.infos way).block) set.replacement =
                .ok (way, moveToMRU way (bitsOf set)) := by
            change Lru.getReplacementIndex 1 _ _ _ = _
            simp only [Lru.getReplacementIndex, free]
            rfl
          refine ⟨_, ?_, entered way remaining⟩
          simp only [CacheSet.insert, chosen]
          rfl
      | none =>
          have full := firstInvalid_eq_none.mp free
          let victim := Lru.victim (fun way => (set.infos way).block)
            (bitsOf set)
          have chosen : (lru n 1).getReplacementIndex fuel (fun _ _ => false)
              (fun way => (set.infos way).block) set.replacement =
                .ok (victim, moveToMRU victim (bitsOf set)) := by
            change Lru.getReplacementIndex 1 _ _ _ = _
            simp only [Lru.getReplacementIndex, free]
            rfl
          refine ⟨_, ?_, entered victim (stacked.erase_victim full)⟩
          simp only [CacheSet.insert, chosen]
          rfl

end Stacks

/-! ## Runs -/

/-- The tags of the accesses to a set, with the last access first. -/
def uses (base : CacheBase) (index : Nat) : List TagAccess → List Nat
  | [] => []
  | access :: before =>
      match base.splitAddress access.address with
      | none => uses base index before
      | some (tag, other) =>
          if other = index then tag :: uses base index before
          else uses base index before

/-- The counters after some accesses, with the last access first: an access
hits if less than `n` other lines of its set were used since its own line was.
-/
def stackCounters (base : CacheBase) (n : Nat) (sampled : List Nat) :
    List TagAccess → Counters
  | [] => {}
  | access :: before =>
      let counters := stackCounters base n sampled before
      match base.splitAddress access.address with
      | none => counters
      | some (tag, index) =>
          if index ∈ sampled then
            counters.count access
              (tag ∈ (recent (uses base index before)).take n)
          else counters

theorem splitTag_ne_noTag (large : 1 < base.blockSize)
    {address tag index : Nat} (inRange : address < 2 ^ 64)
    (split : base.splitAddress address = some (tag, index)) :
    tag ≠ noTag := by
  rw [CacheBase.splitAddress, Option.map_eq_some_iff] at split
  obtain ⟨_, _, same⟩ := split
  have isTag : address >>> base.logBlocksize = tag := congrArg Prod.fst same
  rw [Nat.shiftRight_eq_div_pow, ← base.blockSize_eq] at isTag
  rw [← isTag]
  exact tag_ne_noTag large inRange

/-- What the directory is behind some accesses, with the last access first. -/
structure ATD.Follows [NeZero n] (atd : ATD base (lru n 1))
    (sampled : List Nat) (accesses : List TagAccess) : Prop where
  counters : atd.counters = stackCounters base n sampled accesses
  present : ∀ index ∈ sampled, ∃ set, atd.sets index = some set ∧
    Stacked set ((recent (uses base index accesses)).take n)
  absent : ∀ index, index ∉ sampled → atd.sets index = none

section Follows

variable [NeZero n] {atd : ATD base (lru n 1)} {sampled : List Nat}

theorem ATD.Follows.start (small : n ≤ 256) {sampling : Sampling}
    (found : sampledSets base.numSets sampling = .ok sampled)
    (created : ATD.create base (lru n 1) sampling = .ok atd) :
    atd.Follows sampled [] := by
  rw [ATD.create, found] at created
  cases created
  constructor
  · rfl
  · intro index member
    refine ⟨CacheSet.start (lru n 1), if_pos member, ?_⟩
    rw [uses, recent, List.take_nil]
    exact Stacked.start small
  · intro index absent
    exact if_neg absent

theorem ATD.Follows.access {before : List TagAccess}
    (follows : atd.Follows sampled before) (large : 1 < base.blockSize)
    (fuel : Nat) {last : TagAccess} (inRange : last.address < 2 ^ 64)
    (splits : (base.splitAddress last.address).isSome = true) :
    ∃ next, atd.access fuel last = .ok next ∧
      next.Follows sampled (last :: before) := by
  obtain ⟨⟨tag, index⟩, split⟩ := Option.isSome_iff_exists.mp splits
  have noneSuch := splitTag_ne_noTag large inRange split
  have others : ∀ other, other ≠ index →
      uses base other (last :: before) = uses base other before := by
    intro other different
    simp only [uses, split]
    exact if_neg (Ne.symm different)
  have own : uses base index (last :: before) =
      tag :: uses base index before := by
    rw [uses, split]
    exact if_pos rfl
  by_cases member : index ∈ sampled
  · obtain ⟨set, isSet, stacked⟩ := follows.present index member
    obtain ⟨nextSet, accessed, nextStacked⟩ :=
      stacked.accessSet noneSuch fuel
    refine ⟨{ sets := update atd.sets index (some nextSet)
              counters := atd.counters.count last
                (tag ∈ (recent (uses base index before)).take n) }, ?_, ?_⟩
    · simp only [ATD.access, split, isSet, accessed]
      rfl
    · constructor
      · simp only [stackCounters, split, if_pos member, follows.counters]
      · intro other otherMember
        by_cases same : other = index
        · subst same
          refine ⟨nextSet, update_self _ _ _, ?_⟩
          have positive : n - 1 + 1 = n :=
            Nat.succ_pred_eq_of_ne_zero (NeZero.ne n)
          have front := take_recent_cons tag (uses base other before) (n - 1)
          rw [positive] at front
          rw [own, front]
          exact nextStacked
        · obtain ⟨otherSet, isOther, otherStacked⟩ :=
            follows.present other otherMember
          refine ⟨otherSet, ?_, ?_⟩
          · simp only [update_of_ne same, isOther]
          · rw [others other same]
            exact otherStacked
      · intro other otherAbsent
        have different : other ≠ index := by
          intro same
          rw [same] at otherAbsent
          exact otherAbsent member
        simp only [update_of_ne different, follows.absent other otherAbsent]
  · refine ⟨atd, ?_, ?_⟩
    · simp only [ATD.access, split, follows.absent index member]
    · constructor
      · simp only [stackCounters, split, if_neg member, follows.counters]
      · intro other otherMember
        have different : other ≠ index := by
          intro same
          rw [same] at otherMember
          exact member otherMember
        rw [others other different]
        exact follows.present other otherMember
      · exact follows.absent

/-- The accesses can be looked up. -/
def Located (base : CacheBase) (accesses : List TagAccess) : Prop :=
  ∀ access ∈ accesses, access.address < 2 ^ 64 ∧
    (base.splitAddress access.address).isSome = true

theorem ATD.Follows.accesses {before : List TagAccess}
    (follows : atd.Follows sampled before) (large : 1 < base.blockSize)
    (fuel : Nat) {accesses : List TagAccess}
    (located : Located base accesses) :
    ∃ last, accesses.foldlM (fun atd access => atd.access fuel access) atd =
        .ok last ∧
      last.Follows sampled (accesses.reverse ++ before) := by
  induction accesses generalizing atd before with
  | nil => exact ⟨atd, rfl, follows⟩
  | cons first rest ih =>
      obtain ⟨inRange, splits⟩ := located first List.mem_cons_self
      obtain ⟨next, accessed, nextFollows⟩ :=
        follows.access large fuel inRange splits
      obtain ⟨last, run, lastFollows⟩ := ih nextFollows
        (fun access member => located access (List.mem_cons_of_mem _ member))
      refine ⟨last, ?_, ?_⟩
      · rw [List.foldlM_cons, accessed]
        exact run
      · rw [List.reverse_cons, List.append_assoc]
        exact lastFollows

end Follows

/-- Loads of three lines of one set, the first of them twice. -/
def threeLines : List TagAccess :=
  [⟨false, true, 0⟩, ⟨false, true, 2⟩, ⟨true, false, 0⟩, ⟨false, true, 4⟩]

theorem located_threeLines : Located twoBytes threeLines := by
  unfold Located
  decide

/-- The misses do not grow, nor the shared hits that the directory misses, and
the accesses are the same. -/
structure Counters.Better (large small : Counters) : Prop where
  loads : large.loads = small.loads
  stores : large.stores = small.stores
  loadMisses : large.loadMisses ≤ small.loadMisses
  storeMisses : large.storeMisses ≤ small.storeMisses
  loadsConstructive : large.loadsConstructive ≤ small.loadsConstructive
  storesConstructive : large.storesConstructive ≤ small.storesConstructive
  loadsDestructive : small.loadsDestructive ≤ large.loadsDestructive
  storesDestructive : small.storesDestructive ≤ large.storesDestructive

theorem Counters.Better.refl (counters : Counters) :
    counters.Better counters := by
  constructor <;> rfl

theorem Counters.Better.count {large small : Counters}
    (better : large.Better small) (access : TagAccess) {hit smallHit : Bool}
    (includes : smallHit = true → hit = true) :
    (large.count access hit).Better (small.count access smallHit) := by
  obtain ⟨loads, stores, loadMisses, storeMisses, loadsConstructive,
    storesConstructive, loadsDestructive, storesDestructive⟩ := better
  obtain ⟨write, cacheHit, address⟩ := access
  cases smallHit with
  | true =>
      rw [includes rfl]
      cases write <;> cases cacheHit <;> constructor <;>
        simp only [Counters.count] <;> grind
  | false =>
      cases hit <;> cases write <;> cases cacheHit <;> constructor <;>
        simp only [Counters.count] <;> grind

theorem stackCounters_better {ways more : Nat} (fits : ways ≤ more)
    (base : CacheBase) (sampled : List Nat) (accesses : List TagAccess) :
    (stackCounters base more sampled accesses).Better
      (stackCounters base ways sampled accesses) := by
  induction accesses with
  | nil => exact Counters.Better.refl _
  | cons last before ih =>
      cases split : base.splitAddress last.address with
      | none =>
          simp only [stackCounters, split]
          exact ih
      | some location =>
          simp only [stackCounters, split]
          by_cases member : location.2 ∈ sampled
          · rw [if_pos member, if_pos member]
            apply ih.count
            intro isHit
            apply decide_eq_true
            exact take_recent_subset fits (of_decide_eq_true isHit)
          · rw [if_neg member, if_neg member]
            exact ih

/-- More ways in the sets of a directory never lead to more misses. -/
theorem atd_inclusion {ways more : Nat} [NeZero ways] [NeZero more]
    (fits : ways ≤ more) (small : more ≤ 256) (large : 1 < base.blockSize)
    {sampling : Sampling} {atd last : ATD base (lru ways 1)}
    {moreAtd moreLast : ATD base (lru more 1)}
    (created : ATD.create base (lru ways 1) sampling = .ok atd)
    (moreCreated : ATD.create base (lru more 1) sampling = .ok moreAtd)
    (fuel : Nat) {accesses : List TagAccess} (located : Located base accesses)
    (run : accesses.foldlM (fun atd access => atd.access fuel access) atd =
      .ok last)
    (moreRun : accesses.foldlM (fun atd access => atd.access fuel access)
      moreAtd = .ok moreLast) :
    moreLast.counters.Better last.counters := by
  obtain ⟨sampled, found⟩ : ∃ sampled,
      sampledSets base.numSets sampling = .ok sampled := by
    cases found : sampledSets base.numSets sampling with
    | ok sampled => exact ⟨sampled, rfl⟩
    | error failure =>
        rw [ATD.create, found] at created
        cases created
  obtain ⟨final, finalRun, follows⟩ :=
    (ATD.Follows.start (Nat.le_trans fits small) found created).accesses large
      fuel located
  obtain ⟨moreFinal, moreFinalRun, moreFollows⟩ :=
    (ATD.Follows.start small found moreCreated).accesses large fuel located
  rw [run] at finalRun
  rw [moreRun] at moreFinalRun
  cases finalRun
  cases moreFinalRun
  rw [follows.counters, moreFollows.counters]
  exact stackCounters_better fits base sampled _

theorem atd_inclusion_threeLines :
    ∃ last moreLast : Counters, moreLast.Better last ∧
      last.storeMisses = 1 ∧ moreLast.storeMisses = 0 := by
  have run : ∃ atd last, ATD.create twoBytes (lru 1 1) .full = .ok atd ∧
      threeLines.foldlM (fun atd access => atd.access 0 access) atd =
        .ok last ∧ last.counters.storeMisses = 1 := ⟨_, _, rfl, rfl, rfl⟩
  have moreRun : ∃ atd last, ATD.create twoBytes (lru 2 1) .full = .ok atd ∧
      threeLines.foldlM (fun atd access => atd.access 0 access) atd =
        .ok last ∧ last.counters.storeMisses = 0 := ⟨_, _, rfl, rfl, rfl⟩
  obtain ⟨atd, last, created, isRun, missed⟩ := run
  obtain ⟨moreAtd, moreLast, moreCreated, isMoreRun, moreMissed⟩ := moreRun
  exact ⟨last.counters, moreLast.counters,
    atd_inclusion (by decide) (by decide) (by decide) created moreCreated 0
      located_threeLines isRun isMoreRun, missed, moreMissed⟩

end ChipletSniper.Lines
