import ChipletSniper.Coherence.DirectoryEntries

/-!
# The operations of the directory cache

A lookup returns the entry of an address wherever it is, and makes one only if
there is none.  Only an address without an entry replaces another one.
-/

namespace ChipletSniper.Coherence

namespace DramDirectoryCache

variable {Info : Type*} {config : DirectoryConfig Info}
variable {cache next : DramDirectoryCache config} {known : Known Info}
variable {slot : config.Slot} {entry : EntryPtr} {address : IntPtr}
variable {info : Info}

/-! ## Lookups -/

/-- Nothing happened but that empty places were looked at. -/
structure Grown (cache next : DramDirectoryCache config) : Prop where
  slots : ∀ {slot entry}, cache.directoryEntryList slot = some entry →
    next.directoryEntryList slot = some entry
  entries : ∀ {entry}, entry < cache.created →
    next.entries entry = cache.entries entry
  created : cache.created ≤ next.created
  listed : next.replacedDirectoryEntryList = cache.replacedDirectoryEntryList

theorem Grown.refl (cache : DramDirectoryCache config) : cache.Grown cache :=
  ⟨id, fun _ => rfl, Nat.le_refl _, rfl⟩

theorem Grown.trans {last : DramDirectoryCache config}
    (first : cache.Grown next) (second : next.Grown last) :
    cache.Grown last where
  slots := fun there => second.slots (first.slots there)
  entries := fun old =>
    (second.entries (Nat.lt_of_lt_of_le old first.created)).trans
      (first.entries old)
  created := Nat.le_trans first.created second.created
  listed := second.listed.trans first.listed

theorem Grown.addressOf (grown : cache.Grown next)
    (old : entry < cache.created) :
    next.addressOf entry = cache.addressOf entry :=
  congrArg AddressedEntry.address (grown.entries old)

theorem slotEntry_spec (inv : cache.Inv known) (slot : config.Slot) :
    (cache.slotEntry slot).2.Inv known ∧ cache.Grown (cache.slotEntry slot).2 ∧
      (cache.slotEntry slot).2.directoryEntryList slot =
        some (cache.slotEntry slot).1 := by
  unfold slotEntry
  cases place : cache.directoryEntryList slot with
  | some entry => exact ⟨inv, Grown.refl cache, place⟩
  | none =>
      refine ⟨inv.create place, ⟨?_, ?_, Nat.le_succ _, rfl⟩, ?_⟩
      · intro other entry there
        rw [list_createDirectoryEntry, if_neg, there]
        rintro rfl
        rw [place] at there
        cases there
      · exact fun old => entries_createDirectoryEntry slot _ old
      · rw [list_createDirectoryEntry, if_pos rfl]

/-- A loop finds an entry with the address, or every way that it looked at has
one with another address. -/
theorem searchLoop_spec (inv : cache.Inv known) (home address : IntPtr)
    (ways : List config.Way) :
    (searchLoop home address ways cache).2.Inv known ∧
      cache.Grown (searchLoop home address ways cache).2 ∧
      ((∃ way entry, (searchLoop home address ways cache).1 =
            some (way, entry) ∧
          (searchLoop home address ways cache).2.directoryEntryList
            (config.slot home way) = some entry ∧
          (searchLoop home address ways cache).2.addressOf entry = address) ∨
        ((searchLoop home address ways cache).1 = none ∧
          ∀ way ∈ ways, ∃ entry,
            (searchLoop home address ways cache).2.directoryEntryList
              (config.slot home way) = some entry ∧
            (searchLoop home address ways cache).2.addressOf entry ≠
              address)) := by
  induction ways generalizing cache with
  | nil =>
      refine ⟨inv, Grown.refl cache, Or.inr ⟨rfl, ?_⟩⟩
      intro way member
      cases member
  | cons way rest ih =>
      obtain ⟨kept, grown, there⟩ :=
        slotEntry_spec inv (config.slot home way)
      unfold searchLoop
      dsimp only
      split
      next same =>
        exact ⟨kept, grown, Or.inl ⟨way, _, rfl, there, same⟩⟩
      next apart =>
        obtain ⟨kept', grown', result⟩ := ih kept
        refine ⟨kept', grown.trans grown', ?_⟩
        obtain found | ⟨nothing, others⟩ := result
        · exact Or.inl found
        · refine Or.inr ⟨nothing, ?_⟩
          intro other member
          obtain rfl | later := List.mem_cons.mp member
          · refine ⟨_, grown'.slots there, ?_⟩
            rw [grown'.addressOf (kept.lt_of_slot there)]
            exact apart
          · exact others other later

theorem search_spec (inv : cache.Inv known) (home address : IntPtr) :
    (cache.search home address).2.Inv known ∧
      cache.Grown (cache.search home address).2 ∧
      ((∃ way entry, (cache.search home address).1 = some (way, entry) ∧
          (cache.search home address).2.directoryEntryList
            (config.slot home way) = some entry ∧
          (cache.search home address).2.addressOf entry = address) ∨
        ((cache.search home address).1 = none ∧
          ∀ way, ∃ entry,
            (cache.search home address).2.directoryEntryList
              (config.slot home way) = some entry ∧
            (cache.search home address).2.addressOf entry ≠ address)) := by
  obtain ⟨kept, grown, result⟩ :=
    searchLoop_spec inv home address (List.finRange _)
  refine ⟨kept, grown, ?_⟩
  obtain found | ⟨nothing, others⟩ := result
  · exact Or.inl found
  · exact Or.inr ⟨nothing, fun way => others way (List.mem_finRange way)⟩

/-- A lookup in the set finds the entry of an address, if it is there. -/
theorem search_of_slot (inv : cache.Inv known) {way : config.Way}
    (valid : address ≠ invalidAddress)
    (there : cache.directoryEntryList (config.slot address way) = some entry)
    (named : cache.addressOf entry = address) :
    ∃ next, cache.search address address = (some (way, entry), next) ∧
      next.Inv known ∧ cache.Grown next := by
  obtain ⟨kept, grown, result⟩ := search_spec inv address address
  have still : (cache.search address address).2.addressOf entry = address :=
    (grown.addressOf (inv.lt_of_slot there)).trans named
  obtain ⟨other, third, found, here, equal⟩ | ⟨_, others⟩ := result
  · have same : third = entry := by
      apply kept.unique (Or.inl ⟨_, here⟩) (Or.inl ⟨_, grown.slots there⟩)
      · rw [equal]
        exact valid
      · rw [equal, still]
    subst same
    have ways : other = way :=
      config.slot_injective address (kept.single here (grown.slots there))
    subst ways
    exact ⟨_, Prod.ext found rfl, kept, grown⟩
  · obtain ⟨third, here, apart⟩ := others way
    rw [grown.slots there] at here
    cases here
    exact absurd still apart

theorem Inv.known_of_holds (inv : cache.Inv known)
    (valid : address ≠ invalidAddress) (holds : cache.Holds entry)
    (named : cache.addressOf entry = address) :
    known address = some (entry, (cache.entries entry).info) := by
  apply inv.knows.mpr
  refine ⟨valid, holds, ?_⟩
  rw [← named]
  rfl

/-- A lookup in the set finds nothing if the entry of the address waits in the
list, or if there is none. -/
theorem search_of_waiting (inv : cache.Inv known)
    (valid : address ≠ invalidAddress)
    (waits : ∀ {entry info}, known address = some (entry, info) →
      entry ∈ cache.replacedDirectoryEntryList) :
    ∃ next, cache.search address address = (none, next) ∧
      next.Inv known ∧ cache.Grown next := by
  obtain ⟨kept, grown, result⟩ := search_spec inv address address
  obtain ⟨_, third, _, here, named⟩ | ⟨nothing, _⟩ := result
  · have found := kept.known_of_holds valid (Or.inl ⟨_, here⟩) named
    have listed := waits found
    rw [← grown.listed] at listed
    exact absurd listed (kept.apart here)
  · exact ⟨_, Prod.ext nothing rfl, kept, grown⟩

/-- The loop over the list of replaced entries. -/
def findReplaced (cache : DramDirectoryCache config) (address : IntPtr) :
    Option EntryPtr :=
  cache.replacedDirectoryEntryList.find? fun entry =>
    cache.addressOf entry = address

theorem findReplaced_of_mem (inv : cache.Inv known)
    (listed : entry ∈ cache.replacedDirectoryEntryList) :
    cache.findReplaced (cache.addressOf entry) = some entry := by
  cases found : cache.findReplaced (cache.addressOf entry) with
  | none =>
      have none := List.find?_eq_none.mp found entry listed
      exact absurd (decide_eq_true rfl) none
  | some other =>
      unfold findReplaced at found
      have named : cache.addressOf other = cache.addressOf entry := by
        simpa using List.find?_some found
      have member := List.mem_of_find?_eq_some found
      rw [inv.unique (Or.inr member) (Or.inr listed) (inv.named member) named]

theorem findReplaced_eq_none (inv : cache.Inv known)
    (valid : address ≠ invalidAddress) (missing : known address = none) :
    cache.findReplaced address = none := by
  apply List.find?_eq_none.mpr
  intro entry listed named
  exact inv.missing valid missing (Or.inr listed) (of_decide_eq_true named)

/-- The three loops of a lookup one after the other. -/
theorem getDirectoryEntry_of_search {first second : DramDirectoryCache config}
    (nothing : cache.search address address = (none, first))
    (full : first.search address invalidAddress = (none, second)) :
    cache.getDirectoryEntry address = (second.findReplaced address, second) := by
  unfold getDirectoryEntry
  rw [nothing]
  dsimp only
  rw [full]
  rfl

/-- The entry of a known address is returned. -/
theorem getDirectoryEntry_of_known (inv : cache.Inv known)
    (found : known address = some (entry, info)) :
    ∃ next, cache.getDirectoryEntry address = (some entry, next) ∧
      next.Inv known ∧ cache.Grown next := by
  have named := inv.addressOf_eq found
  obtain ⟨valid, holds, _⟩ := inv.knows.mp found
  obtain ⟨slot, there⟩ | listed := holds
  · obtain ⟨way, rfl⟩ := inv.home there (named ▸ valid)
    rw [named] at there
    obtain ⟨next, result, kept, grown⟩ :=
      search_of_slot inv valid there named
    unfold getDirectoryEntry
    rw [result]
    exact ⟨next, rfl, kept, grown⟩
  · obtain ⟨first, nothing, kept, grown⟩ :=
      search_of_waiting inv valid (by
        intro other info' found'
        rw [found] at found'
        cases found'
        exact listed)
    obtain ⟨kept', grown', result⟩ :=
      search_spec kept address invalidAddress
    have whole := grown.trans grown'
    obtain ⟨way, other, _, here, unnamed⟩ | ⟨nothing', _⟩ := result
    · -- the set is full, as an entry of it was replaced
      obtain ⟨third, there, labelled⟩ := inv.full listed way
      rw [named] at there
      have same := whole.slots there
      rw [here] at same
      cases same
      rw [whole.addressOf (inv.lt_of_slot there)] at unnamed
      exact absurd unnamed labelled
    · refine ⟨_, getDirectoryEntry_of_search nothing
        (Prod.ext nothing' rfl) |>.trans ?_, kept', whole⟩
      have waiting := findReplaced_of_mem kept' (whole.listed ▸ listed)
      rw [whole.addressOf (inv.lt_of_mem listed), named] at waiting
      rw [waiting]

/-- An address without an entry gets one, unless its set is full. -/
theorem getDirectoryEntry_of_unknown (inv : cache.Inv known)
    (valid : address ≠ invalidAddress) (missing : known address = none) :
    (∃ entry next, cache.getDirectoryEntry address = (some entry, next) ∧
        next.Inv (Function.update known address
          (some (entry, config.newInfo))) ∧
        next.replacedDirectoryEntryList = cache.replacedDirectoryEntryList ∧
        ∀ other ∈ cache.replacedDirectoryEntryList,
          next.addressOf other = cache.addressOf other) ∨
      ∃ next, cache.getDirectoryEntry address = (none, next) ∧
        next.Inv known ∧ cache.Grown next ∧
        ∀ way, ∃ other,
          next.directoryEntryList (config.slot address way) = some other ∧
            next.addressOf other ≠ invalidAddress := by
  obtain ⟨first, nothing, kept, grown⟩ :=
    search_of_waiting inv valid (by
      intro entry info found
      rw [missing] at found
      cases found)
  obtain ⟨kept', grown', result⟩ :=
    search_spec kept address invalidAddress
  have whole := grown.trans grown'
  obtain ⟨way, entry, found, here, unnamed⟩ | ⟨nothing', others⟩ := result
  · refine Or.inl ⟨entry, _, ?_,
      kept'.name valid here unnamed missing, whole.listed, ?_⟩
    · unfold getDirectoryEntry
      rw [nothing]
      dsimp only
      rw [show first.search address invalidAddress =
        (some (way, entry), (first.search address invalidAddress).2) from
          Prod.ext found rfl]
    · intro other listed
      have apart : other ≠ entry := by
        rintro rfl
        exact kept'.apart here (whole.listed ▸ listed)
      rw [← whole.addressOf (inv.lt_of_mem listed)]
      exact congrArg AddressedEntry.address (entries_setAddress_of_ne apart _)
  · refine Or.inr ⟨_, getDirectoryEntry_of_search nothing
      (Prod.ext nothing' rfl) |>.trans ?_, kept', whole, others⟩
    rw [findReplaced_eq_none kept' valid missing]

/-! ## Replacement -/

/-- The candidates are entries of the set, which nothing was done to. -/
theorem candidateLoop_spec (start : UInt32)
    (full : ∀ way, ∃ other,
      cache.directoryEntryList (config.slot address way) = some other)
    (places : List config.Way) :
    (candidateLoop address start places cache).2 = cache ∧
      ∀ entry ∈ (candidateLoop address start places cache).1,
        ∃ way, cache.directoryEntryList (config.slot address way) =
          some entry := by
  induction places with
  | nil =>
      refine ⟨rfl, fun entry member => ?_⟩
      cases member
  | cons place rest ih =>
      obtain ⟨same, others⟩ := ih
      obtain ⟨entry, there⟩ := full
        ⟨(UInt32.ofNat place.val + start).toNat % config.associativity.toNat,
          Nat.mod_lt _ config.ways_pos⟩
      have looked : cache.slotEntry (config.slot address
          ⟨(UInt32.ofNat place.val + start).toNat %
            config.associativity.toNat, Nat.mod_lt _ config.ways_pos⟩) =
          (entry, cache) := by
        unfold slotEntry
        rw [there]
      unfold candidateLoop
      dsimp only
      rw [looked]
      refine ⟨same, ?_⟩
      intro other member
      obtain rfl | later := List.mem_cons.mp member
      · exact ⟨_, there⟩
      · exact others other later

/-- What is chosen is a candidate. -/
theorem mem_of_chooseCandidate {queueSize : IntPtr → Nat}
    {candidates : List EntryPtr} {chosen : Option EntryPtr}
    (result : cache.chooseCandidate queueSize candidates chosen = some entry) :
    entry ∈ candidates ∨ chosen = some entry := by
  induction candidates generalizing chosen with
  | nil => exact Or.inr result
  | cons first rest ih =>
      have either : cache.chooseCandidate queueSize (first :: rest) chosen =
            cache.chooseCandidate queueSize rest (some first) ∨
          cache.chooseCandidate queueSize (first :: rest) chosen =
            cache.chooseCandidate queueSize rest chosen :=
        ite_eq_or_eq _ _ _
      obtain taken | kept := either
      · rw [taken] at result
        obtain later | same := ih result
        · exact Or.inl (List.mem_cons_of_mem _ later)
        · rw [Option.some.inj same]
          exact Or.inl List.mem_cons_self
      · rw [kept] at result
        obtain later | same := ih result
        · exact Or.inl (List.mem_cons_of_mem _ later)
        · exact Or.inr same

theorem Inv.replacementPtrs (inv : cache.Inv known)
    (replacementPtrs : Nat → UInt32) :
    ({ cache with replacementPtrs := replacementPtrs } :
      DramDirectoryCache config).Inv known :=
  ⟨inv.old, inv.single, inv.apart, inv.nodup, inv.unique, inv.named, inv.home,
    inv.full, inv.blank, inv.knows⟩

/-- An entry of a full set is replaced by one for an address that is not
known. -/
theorem replaceDirectoryEntry_spec {way : config.Way} (inv : cache.Inv known)
    (valid : address ≠ invalidAddress) (missing : known address = none)
    (full : ∀ way, ∃ other,
      cache.directoryEntryList (config.slot address way) = some other ∧
        cache.addressOf other ≠ invalidAddress)
    (there : cache.directoryEntryList (config.slot address way) =
      some entry) :
    ∃ new next,
      cache.replaceDirectoryEntry (cache.addressOf entry) address =
        .ok (new, next) ∧
      next.Inv (Function.update known address (some (new, config.newInfo))) ∧
      next.replacedDirectoryEntryList =
        cache.replacedDirectoryEntryList ++ [entry] ∧
      ∀ other ∈ cache.replacedDirectoryEntryList ++ [entry],
        next.addressOf other = cache.addressOf other := by
  have named : cache.addressOf entry ≠ invalidAddress := by
    obtain ⟨other, here, labelled⟩ := full way
    rw [there] at here
    cases here
    exact labelled
  obtain ⟨home, equal⟩ := inv.home there named
  rw [equal] at there
  obtain ⟨next, found, kept, grown⟩ := search_of_slot inv named there rfl
  have still := grown.slots there
  rw [← equal] at still
  have fullThen : ∀ way, ∃ other,
      next.directoryEntryList (config.slot address way) = some other ∧
        next.addressOf other ≠ invalidAddress := by
    intro way
    obtain ⟨other, here, labelled⟩ := full way
    refine ⟨other, grown.slots here, ?_⟩
    rw [grown.addressOf (inv.lt_of_slot here)]
    exact labelled
  refine ⟨next.created, next.replaced (config.slot address way) entry address,
    ?_, kept.replace valid still fullThen missing, ?_, ?_⟩
  · unfold replaceDirectoryEntry
    rw [found]
    dsimp only
    rw [← equal]
    rfl
  · exact congrArg (· ++ [entry]) grown.listed
  · intro other listed
    have old : other < cache.created := by
      obtain before | single := List.mem_append.mp listed
      · exact inv.lt_of_mem before
      · rw [List.mem_singleton.mp single]
        exact inv.lt_of_slot there
    rw [addressOf_replaced_of_lt _ _ _ (Nat.lt_of_lt_of_le old grown.created),
      grown.addressOf old]

/-- The candidates are the entries of the set, which is full. -/
theorem getReplacementCandidates_spec (inv : cache.Inv known)
    (valid : address ≠ invalidAddress)
    (nothing : (cache.getDirectoryEntry address).1 = none) :
    known address = none ∧ ∃ candidates next,
      cache.getReplacementCandidates address = .ok (candidates, next) ∧
      next.Inv known ∧ cache.Grown next ∧
      (∀ way, ∃ other,
        next.directoryEntryList (config.slot address way) = some other ∧
          next.addressOf other ≠ invalidAddress) ∧
      ∀ entry ∈ candidates, ∃ way,
        next.directoryEntryList (config.slot address way) = some entry := by
  cases state : known address with
  | some pair =>
      obtain ⟨next, result, _⟩ := getDirectoryEntry_of_known inv state
      rw [result] at nothing
      cases nothing
  | none =>
      obtain ⟨entry, next, result, _⟩ | ⟨next, result, kept, grown, full⟩ :=
        getDirectoryEntry_of_unknown inv valid state
      · rw [result] at nothing
        cases nothing
      · have places : ∀ way, ∃ other,
            next.directoryEntryList (config.slot address way) = some other :=
          fun way => (full way).imp fun _ both => both.1
        obtain ⟨same, members⟩ := candidateLoop_spec
          (next.replacementPtrs (config.setIndex address).toNat) places
          (List.finRange _)
        refine ⟨rfl, _,
          { next with
            replacementPtrs := Function.update next.replacementPtrs
              (config.setIndex address).toNat
              (next.replacementPtrs (config.setIndex address).toNat + 1) },
          ?_, kept.replacementPtrs _,
          ⟨grown.slots, grown.entries, grown.created, grown.listed⟩, full,
          members⟩
        unfold getReplacementCandidates
        rw [result]
        dsimp only
        rw [same]

/-- An allocation moves an entry of the set to the list, unless requests wait
for each entry of the set. -/
theorem processDirectoryEntryAllocationReq_spec (inv : cache.Inv known)
    (valid : address ≠ invalidAddress)
    (nothing : (cache.getDirectoryEntry address).1 = none)
    (queueSize : IntPtr → Nat) :
    cache.processDirectoryEntryAllocationReq queueSize address =
        .error .noCandidate ∨
      ∃ entry candidate next,
        cache.processDirectoryEntryAllocationReq queueSize address =
          .ok (entry, next.addressOf candidate, next) ∧
        next.Inv (Function.update known address
          (some (entry, config.newInfo))) ∧
        next.replacedDirectoryEntryList =
          cache.replacedDirectoryEntryList ++ [candidate] ∧
        ∀ other ∈ cache.replacedDirectoryEntryList,
          next.addressOf other = cache.addressOf other := by
  obtain ⟨missing, candidates, middle, result, kept, grown, full, members⟩ :=
    getReplacementCandidates_spec inv valid nothing
  unfold processDirectoryEntryAllocationReq
  rw [result]
  dsimp only [bind, Except.bind]
  cases choice : middle.chooseCandidate queueSize candidates none with
  | none => exact Or.inl rfl
  | some candidate =>
      obtain member | impossible := mem_of_chooseCandidate choice
      · obtain ⟨way, there⟩ := members candidate member
        obtain ⟨entry, next, replaced, kept', listed, same⟩ :=
          replaceDirectoryEntry_spec kept valid missing full there
        refine Or.inr ⟨entry, candidate, next, ?_, kept', ?_, ?_⟩
        · dsimp only
          rw [replaced, same candidate
            (List.mem_append_right _ List.mem_cons_self)]
          rfl
        · rw [listed, grown.listed]
        · intro other before
          rw [same other (List.mem_append_left _ (grown.listed ▸ before)),
            grown.addressOf (inv.lt_of_mem before)]
      · cases impossible

/-! ## Invalidation -/

/-- The entry of a replaced address is deleted. -/
theorem invalidateDirectoryEntry_of_mem (inv : cache.Inv known)
    (listed : entry ∈ cache.replacedDirectoryEntryList) :
    cache.invalidateDirectoryEntry (cache.addressOf entry) =
      .ok (cache.released entry) := by
  have only : ∀ other ∈ cache.replacedDirectoryEntryList,
      decide (cache.addressOf other = cache.addressOf entry) = true ↔
        other = entry := by
    intro other member
    rw [decide_eq_true_iff]
    constructor
    · exact inv.unique (Or.inr member) (Or.inr listed) (inv.named member)
    · exact congrArg cache.addressOf
  have found : (cache.replacedDirectoryEntryList.any fun other =>
      cache.addressOf other = cache.addressOf entry) = true :=
    List.any_eq_true.mpr ⟨entry, listed, decide_eq_true rfl⟩
  unfold invalidateDirectoryEntry
  rw [if_pos found, eraseP_eq_erase only]
  rfl

end DramDirectoryCache

end ChipletSniper.Coherence
