import ChipletSniper.Coherence.DirectoryLookups
import ChipletSniper.Library.Runs

/-!
# The calls of the directory controller

In every run of the controller an address has one directory entry at most, and
the entry stays what it is until it is invalidated.
-/

namespace ChipletSniper.Coherence

open DramDirectoryCache Function

variable {Info : Type*} {config : DirectoryConfig Info}

/-- What the controller calls.  It writes to the entries that it gets, and an
allocation sees the queues of its requests. -/
inductive DirectoryCall (Info : Type*) where
  | lookup (address : IntPtr) (change : Info → Info)
  | allocate (address : IntPtr) (queueSize : IntPtr → Nat)
      (change : Info → Info)
  | invalidate (address : IntPtr)

def DirectoryCall.address : DirectoryCall Info → IntPtr
  | .lookup address _ | .allocate address _ _ | .invalidate address => address

/-- The cache, what the controller got from it, and the addresses with a
NULLIFY request that is not done. -/
structure DirectorySystem (config : DirectoryConfig Info) where
  cache : DramDirectoryCache config
  known : Known Info
  nullify : List IntPtr

namespace DirectorySystem

variable (system : DirectorySystem config)

def step : DirectoryCall Info →
    Except DirectoryFailure (DirectorySystem config)
  | .lookup address change =>
      match system.cache.getDirectoryEntry address with
      | (none, cache) => .ok { system with cache := cache }
      | (some entry, cache) =>
          .ok
            { system with
              cache := cache.setInfo entry change
              known := update system.known address
                (some (entry, change (cache.entries entry).info)) }
  | .allocate address queueSize change =>
      (system.cache.processDirectoryEntryAllocationReq queueSize address).map
        fun (entry, replacedAddress, cache) =>
          { cache := cache.setInfo entry change
            known := update system.known address
              (some (entry, change (cache.entries entry).info))
            nullify := system.nullify ++ [replacedAddress] }
  | .invalidate address =>
      (system.cache.invalidateDirectoryEntry address).map fun cache =>
        { cache := cache
          known := update system.known address none
          nullify := system.nullify.erase address }

/-- The order that the controller keeps: it allocates an entry only after a
lookup returned none, and invalidates an entry only once after its
replacement. -/
def Legal : DirectoryCall Info → Prop
  | .lookup address _ => address ≠ invalidAddress
  | .allocate address _ _ =>
      address ≠ invalidAddress ∧
        (system.cache.getDirectoryEntry address).1 = none
  | .invalidate address => address ∈ system.nullify

/-- The states after calls in this order. -/
inductive Reached : DirectorySystem config → Prop
  | start (replacementPtrs : Nat → UInt32) :
      Reached ⟨initial config replacementPtrs, fun _ => none, []⟩
  | step {system next : DirectorySystem config} {call : DirectoryCall Info} :
      Reached system → system.Legal call → system.step call = .ok next →
      Reached next

/-- The invariant of the runs. -/
structure Inv : Prop where
  cache : system.cache.Inv system.known
  nullify : system.nullify =
    system.cache.replacedDirectoryEntryList.map system.cache.addressOf

end DirectorySystem

theorem DramDirectoryCache.inv_initial (replacementPtrs : Nat → UInt32) :
    (initial config replacementPtrs).Inv (fun _ => none) := by
  have none : ∀ {entry}, ¬ (initial config replacementPtrs).Holds entry := by
    rintro entry (⟨slot, there⟩ | listed)
    · cases there
    · cases listed
  constructor
  · exact fun holds => absurd holds none
  · exact fun there => absurd (Or.inl ⟨_, there⟩) none
  · exact fun there => absurd (Or.inl ⟨_, there⟩) none
  · exact List.nodup_nil
  · exact fun holds => absurd holds none
  · exact fun listed => absurd (Or.inr listed) none
  · exact fun there => absurd (Or.inl ⟨_, there⟩) none
  · exact fun listed => absurd (Or.inr listed) none
  · exact fun there => absurd (Or.inl ⟨_, there⟩) none
  · intro address entry info
    constructor
    · intro found
      cases found
    · rintro ⟨_, holds, _⟩
      exact absurd holds none

namespace DirectorySystem

variable {system next : DirectorySystem config} {address : IntPtr}
variable {change : Info → Info}

/-- The addresses in the list stay what they are. -/
theorem nullify_eq_of_same (inv : system.Inv)
    (cache : DramDirectoryCache config)
    (listed : cache.replacedDirectoryEntryList =
      system.cache.replacedDirectoryEntryList)
    (same : ∀ other ∈ system.cache.replacedDirectoryEntryList,
      cache.addressOf other = system.cache.addressOf other) :
    system.nullify =
      cache.replacedDirectoryEntryList.map cache.addressOf := by
  rw [inv.nullify, listed]
  exact (List.map_congr_left same).symm

/-- A lookup keeps the invariant and does not fail. -/
theorem Inv.lookup (inv : system.Inv) (valid : address ≠ invalidAddress)
    (change : Info → Info) :
    ∃ next, system.step (.lookup address change) = .ok next ∧ next.Inv := by
  cases state : system.known address with
  | some pair =>
      obtain ⟨entry, info⟩ := pair
      obtain ⟨cache, result, kept, grown⟩ :=
        getDirectoryEntry_of_known inv.cache state
      have is : cache.entries entry = ⟨address, info⟩ := (kept.knows.mp state).2.2
      refine ⟨_, by unfold step; dsimp only; rw [result], ?_, ?_⟩
      · dsimp only
        rw [is]
        exact kept.rewrite state change
      · apply nullify_eq_of_same inv (cache.setInfo entry change) grown.listed
        intro other listed
        rw [addressOf_setInfo, grown.addressOf (inv.cache.lt_of_mem listed)]
  | none =>
      obtain ⟨entry, cache, result, kept, listed, same⟩ |
          ⟨cache, result, kept, grown, _⟩ :=
        getDirectoryEntry_of_unknown inv.cache valid state
      · have found : update system.known address
            (some (entry, config.newInfo)) address =
              some (entry, config.newInfo) := update_self _ _ _
        have is : cache.entries entry = ⟨address, config.newInfo⟩ :=
          (kept.knows.mp found).2.2
        refine ⟨_, by unfold step; dsimp only; rw [result], ?_, ?_⟩
        · dsimp only
          rw [is]
          have written := kept.rewrite found change
          rw [update_idem] at written
          exact written
        · apply nullify_eq_of_same inv (cache.setInfo entry change) listed
          intro other member
          rw [addressOf_setInfo, same other member]
      · refine ⟨{ system with cache := cache },
          by unfold step; dsimp only; rw [result], kept, ?_⟩
        exact nullify_eq_of_same inv cache grown.listed fun other member =>
          grown.addressOf (inv.cache.lt_of_mem member)

/-- An allocation keeps the invariant.  It fails only if requests wait for each
entry of the set. -/
theorem Inv.allocate (inv : system.Inv) (valid : address ≠ invalidAddress)
    (nothing : (system.cache.getDirectoryEntry address).1 = none)
    (queueSize : IntPtr → Nat) (change : Info → Info) :
    system.step (.allocate address queueSize change) = .error .noCandidate ∨
      ∃ next, system.step (.allocate address queueSize change) = .ok next ∧
        next.Inv := by
  unfold step
  dsimp only
  obtain failed | ⟨entry, candidate, cache, result, kept, listed, same⟩ :=
    processDirectoryEntryAllocationReq_spec inv.cache valid nothing queueSize
  · rw [failed]
    exact Or.inl rfl
  · rw [result]
    refine Or.inr ⟨_, rfl, ?_, ?_⟩
    · have found : update system.known address
          (some (entry, config.newInfo)) address =
            some (entry, config.newInfo) := update_self _ _ _
      have is : cache.entries entry = ⟨address, config.newInfo⟩ :=
        (kept.knows.mp found).2.2
      have written := kept.rewrite found change
      rw [update_idem] at written
      dsimp only
      rw [is]
      exact written
    · have same' : (cache.setInfo entry change).addressOf = cache.addressOf :=
        funext fun other => addressOf_setInfo cache entry other change
      have listed' : (cache.setInfo entry
          change).replacedDirectoryEntryList =
            system.cache.replacedDirectoryEntryList ++ [candidate] := listed
      dsimp only
      rw [same', listed', List.map_append, inv.nullify]
      exact congrArg (· ++ [cache.addressOf candidate])
        (List.map_congr_left same).symm

/-- Deleting a value of a list of different values by its image. -/
theorem map_erase_of_unique {Value Image : Type*} [DecidableEq Value]
    [DecidableEq Image] {image : Value → Image} {values : List Value}
    {value : Value}
    (unique : ∀ other ∈ values, image other = image value → other = value) :
    (values.erase value).map image = (values.map image).erase (image value) := by
  induction values with
  | nil => rfl
  | cons first rest ih =>
      have rests := ih fun other member =>
        unique other (List.mem_cons_of_mem _ member)
      by_cases same : first = value
      · rw [same, List.erase_cons_head, List.map_cons, List.erase_cons_head]
      · have apart : image first ≠ image value :=
          mt (unique first List.mem_cons_self) same
        rw [List.erase_cons_tail (by rw [beq_iff_eq]; exact same),
          List.map_cons, List.map_cons, rests,
          List.erase_cons_tail (by rw [beq_iff_eq]; exact apart)]

/-- An invalidation of a replaced address keeps the invariant and does not
fail. -/
theorem Inv.invalidate (inv : system.Inv) (waits : address ∈ system.nullify) :
    ∃ next, system.step (.invalidate address) = .ok next ∧ next.Inv := by
  rw [inv.nullify] at waits
  obtain ⟨entry, listed, rfl⟩ := List.mem_map.mp waits
  unfold step
  dsimp only
  rw [invalidateDirectoryEntry_of_mem inv.cache listed]
  refine ⟨_, rfl, inv.cache.release listed, ?_⟩
  dsimp only
  rw [inv.nullify]
  exact (map_erase_of_unique fun other member =>
    inv.cache.unique (Or.inr member) (Or.inr listed)
      (inv.cache.named member)).symm

/-- A call in the order of the controller fails only for want of an entry that
no request waits for, and keeps the invariant otherwise. -/
theorem Inv.step {call : DirectoryCall Info} (inv : system.Inv)
    (legal : system.Legal call) :
    system.step call = .error .noCandidate ∨
      ∃ next, system.step call = .ok next ∧ next.Inv := by
  cases call with
  | lookup address change => exact Or.inr (inv.lookup legal change)
  | allocate address queueSize change =>
      exact inv.allocate legal.1 legal.2 queueSize change
  | invalidate address => exact Or.inr (inv.invalidate legal)

/-- The invariant holds along every run. -/
theorem Reached.inv (reached : system.Reached) : system.Inv := by
  induction reached with
  | start replacementPtrs => exact ⟨inv_initial replacementPtrs, rfl⟩
  | step _ legal result ih =>
      obtain failed | ⟨next, result', kept⟩ := ih.step legal
      · rw [failed] at result
        cases result
      · rw [result'] at result
        cases result
        exact kept

/-- An entry stays the entry of its address until it is invalidated. -/
theorem Inv.known_of_step {call : DirectoryCall Info} {entry : EntryPtr}
    {info : Info} (inv : system.Inv) (legal : system.Legal call)
    (result : system.step call = .ok next)
    (found : system.known address = some (entry, info))
    (kept : call ≠ .invalidate address) :
    ∃ info', next.known address = some (entry, info') ∧
      (call.address ≠ address → info' = info) := by
  cases call with
  | lookup other change =>
      unfold DirectorySystem.step at result
      dsimp only at result
      by_cases same : other = address
      · subst same
        obtain ⟨cache, returned, _⟩ := getDirectoryEntry_of_known inv.cache found
        rw [returned] at result
        cases result
        exact ⟨_, update_self _ _ _, fun apart => absurd rfl apart⟩
      · refine ⟨info, ?_, fun _ => rfl⟩
        split at result
        next =>
          cases result
          exact found
        next =>
          cases result
          exact (update_of_ne (Ne.symm same) _ _).trans found
  | allocate other queueSize change =>
      have apart : address ≠ other := by
        rintro rfl
        obtain ⟨_, returned, _⟩ := getDirectoryEntry_of_known inv.cache found
        have nothing := legal.2
        rw [returned] at nothing
        cases nothing
      obtain ⟨⟨_, _, _⟩, _, rfl⟩ := Library.map_eq_ok.mp result
      exact ⟨info, (update_of_ne apart _ _).trans found, fun _ => rfl⟩
  | invalidate other =>
      have apart : address ≠ other := by
        rintro rfl
        exact kept rfl
      obtain ⟨_, _, rfl⟩ := Library.map_eq_ok.mp result
      exact ⟨info, (update_of_ne apart _ _).trans found, fun _ => rfl⟩

/-- Equal members of a list without duplicates are one at most. -/
theorem length_le_one_of_nodup {Value : Type*} {values : List Value}
    (nodup : values.Nodup)
    (equal : ∀ value ∈ values, ∀ other ∈ values, value = other) :
    values.length ≤ 1 := by
  cases values with
  | nil => exact Nat.zero_le _
  | cons first rest =>
      have nothing : rest = [] := by
        apply List.eq_nil_iff_forall_not_mem.mpr
        intro other member
        have same := equal first List.mem_cons_self other
          (List.mem_cons_of_mem _ member)
        rw [← same] at member
        exact (List.nodup_cons.mp nodup).1 member
      rw [nothing]
      exact Nat.le_refl _

theorem length_entriesOf_le_one {cache : DramDirectoryCache config}
    {known : Known Info} (inv : cache.Inv known)
    (valid : address ≠ invalidAddress) :
    (cache.entriesOf address).length ≤ 1 := by
  have place : ∀ {entry}, entry ∈ (List.finRange
      config.associativity.toNat).filterMap (fun way =>
        cache.directoryEntryList (config.slot address way)) →
      ∃ slot, cache.directoryEntryList slot = some entry := by
    intro entry member
    obtain ⟨way, _, there⟩ := List.mem_filterMap.mp member
    exact ⟨_, there⟩
  apply length_le_one_of_nodup
  · apply List.Nodup.filter
    apply List.Nodup.append _ inv.nodup
    · intro entry member listed
      obtain ⟨slot, there⟩ := place member
      exact inv.apart there listed
    · apply List.Nodup.filterMap _ (List.nodup_finRange _)
      intro way other entry there there'
      exact config.slot_injective address (inv.single there there')
  · have member : ∀ {entry}, entry ∈ cache.entriesOf address →
        cache.Holds entry ∧ cache.addressOf entry = address := by
      intro entry member
      obtain ⟨inside, named⟩ := List.mem_filter.mp member
      refine ⟨?_, of_decide_eq_true named⟩
      obtain set | listed := List.mem_append.mp inside
      · exact Or.inl (place set)
      · exact Or.inr listed
    intro entry first other second
    obtain ⟨holds, named⟩ := member first
    obtain ⟨holds', named'⟩ := member second
    exact inv.unique holds holds' (named ▸ valid) (named.trans named'.symm)

/-- In every run of the controller an address has one entry at most in its set
and the list.  Lookups return the entry that the address got, with what was
written to it, until it is invalidated.  Neither a replacement nor an
invalidation fails. -/
theorem directory_entries_kept (reached : system.Reached) :
    (∀ address, address ≠ invalidAddress →
      (system.cache.entriesOf address).length ≤ 1) ∧
    (∀ address entry info, system.known address = some (entry, info) →
      (∃ cache, system.cache.getDirectoryEntry address = (some entry, cache) ∧
        cache.entries entry = ⟨address, info⟩) ∧
      ∀ call next, system.Legal call → system.step call = .ok next →
        call ≠ .invalidate address →
        ∃ info', next.known address = some (entry, info') ∧
          (call.address ≠ address → info' = info)) ∧
    ∀ call failure, system.Legal call → system.step call = .error failure →
      failure = .noCandidate := by
  have inv := reached.inv
  refine ⟨?_, ?_, ?_⟩
  · exact fun address valid => length_entriesOf_le_one inv.cache valid
  · intro address entry info found
    constructor
    · obtain ⟨cache, result, kept, _⟩ :=
        getDirectoryEntry_of_known inv.cache found
      exact ⟨cache, result, (kept.knows.mp found).2.2⟩
    · intro call next legal result apart
      exact inv.known_of_step legal result found apart
  · intro call failure legal result
    obtain failed | ⟨next, result', _⟩ := inv.step legal
    · rw [failed] at result
      exact (Except.error.inj result).symm
    · rw [result'] at result
      cases result

theorem oneEntry_fits : 0 < (1 : UInt32).toNat :=
  Nat.one_pos

theorem oneEntry_block : 0 < (64 : UInt32).toNat := by
  decide

/-- A directory with a place for one entry. -/
def oneEntry : DirectoryConfig Nat where
  totalEntries := 1
  associativity := 1
  cacheBlockSize := 64
  newInfo := 0
  getNumSharers := id
  ways_pos := oneEntry_fits
  ways_le := Nat.le_refl _
  block_pos := oneEntry_block

/-- The entry of one address is replaced by the entry of another one, and then
invalidated. -/
def twoAddresses : Except DirectoryFailure (DirectorySystem oneEntry) := do
  let system ← step ⟨initial oneEntry fun _ => 0, fun _ => none, []⟩
    (.lookup 0 (· + 1))
  let system ← system.step (.allocate 64 (fun _ => 0) id)
  system.step (.invalidate 0)

theorem directory_entries_kept_twoAddresses :
    ∃ system, twoAddresses = .ok system ∧
      system.cache.replacedDirectoryEntryList = [] ∧
      system.known 0 = none ∧ (system.cache.entriesOf 64).length ≤ 1 ∧
      ∃ cache, system.cache.getDirectoryEntry 64 = (some 1, cache) ∧
        cache.entries 1 = ⟨64, 0⟩ := by
  refine ⟨_, rfl, rfl, rfl, ?_⟩
  have valid : (0 : IntPtr) ≠ invalidAddress ∧
      (64 : IntPtr) ≠ invalidAddress := by decide
  have looked := @Reached.step _ oneEntry _ _ (.lookup 0 (· + 1))
    (.start fun _ => 0) valid.1 rfl
  have replaced := @Reached.step _ oneEntry _ _ (.allocate 64 (fun _ => 0) id)
    looked ⟨valid.2, rfl⟩ rfl
  obtain ⟨single, kept, _⟩ := directory_entries_kept
    (@Reached.step _ oneEntry _ _ (.invalidate 0) replaced
      List.mem_cons_self rfl)
  exact ⟨single 64 valid.2, (kept 64 1 0 rfl).1⟩

end DirectorySystem

end ChipletSniper.Coherence
