import ChipletSniper.Coherence.DramDirectoryCache

/-!
# The entries of the directory cache

The directory cache stands for a map from addresses to entries.  Once an entry
of a set was replaced the set stays full.  Every change of the tables keeps
this.
-/

namespace ChipletSniper.Coherence

open Function

namespace DramDirectoryCache

variable {Info : Type*} {config : DirectoryConfig Info}

/-- The cache refers to an entry in its sets or in its list. -/
def Holds (cache : DramDirectoryCache config) (entry : EntryPtr) : Prop :=
  (∃ slot, cache.directoryEntryList slot = some entry) ∨
    entry ∈ cache.replacedDirectoryEntryList

/-- The entries that the controller got for the addresses, with what it last
wrote to them. -/
abbrev Known (Info : Type*) :=
  IntPtr → Option (EntryPtr × Info)

/-- Which entries there are, and for which addresses. -/
structure Inv (cache : DramDirectoryCache config) (known : Known Info) :
    Prop where
  old : ∀ {entry}, cache.Holds entry → entry < cache.created
  single : ∀ {slot other entry}, cache.directoryEntryList slot = some entry →
    cache.directoryEntryList other = some entry → slot = other
  apart : ∀ {slot entry}, cache.directoryEntryList slot = some entry →
    entry ∉ cache.replacedDirectoryEntryList
  nodup : cache.replacedDirectoryEntryList.Nodup
  unique : ∀ {entry other}, cache.Holds entry → cache.Holds other →
    cache.addressOf entry ≠ invalidAddress →
    cache.addressOf entry = cache.addressOf other → entry = other
  named : ∀ {entry}, entry ∈ cache.replacedDirectoryEntryList →
    cache.addressOf entry ≠ invalidAddress
  home : ∀ {slot entry}, cache.directoryEntryList slot = some entry →
    cache.addressOf entry ≠ invalidAddress →
    ∃ way, slot = config.slot (cache.addressOf entry) way
  full : ∀ {entry}, entry ∈ cache.replacedDirectoryEntryList →
    ∀ way, ∃ other, cache.directoryEntryList
        (config.slot (cache.addressOf entry) way) = some other ∧
      cache.addressOf other ≠ invalidAddress
  blank : ∀ {slot entry}, cache.directoryEntryList slot = some entry →
    cache.addressOf entry = invalidAddress →
    (cache.entries entry).info = config.newInfo
  knows : ∀ {address entry info}, known address = some (entry, info) ↔
    address ≠ invalidAddress ∧ cache.Holds entry ∧
      cache.entries entry = ⟨address, info⟩

variable {cache next : DramDirectoryCache config} {known : Known Info}
variable {slot : config.Slot} {entry : EntryPtr} {address : IntPtr}
variable {info : Info}

/-! ## A new entry -/

theorem list_createDirectoryEntry (cache : DramDirectoryCache config)
    (slot other : config.Slot) (address : IntPtr) :
    (cache.createDirectoryEntry slot address).directoryEntryList other =
      if other = slot then some cache.created
      else cache.directoryEntryList other :=
  update_apply _ _ _ _

theorem entries_created (cache : DramDirectoryCache config)
    (slot : config.Slot) (address : IntPtr) :
    (cache.createDirectoryEntry slot address).entries cache.created =
      ⟨address, config.newInfo⟩ :=
  update_self _ _ _

theorem entries_createDirectoryEntry (slot : config.Slot) (address : IntPtr)
    (old : entry < cache.created) :
    (cache.createDirectoryEntry slot address).entries entry =
      cache.entries entry :=
  update_of_ne (Nat.ne_of_lt old) _ _

theorem addressOf_createDirectoryEntry (slot : config.Slot) (address : IntPtr)
    (old : entry < cache.created) :
    (cache.createDirectoryEntry slot address).addressOf entry =
      cache.addressOf entry :=
  congrArg AddressedEntry.address (entries_createDirectoryEntry slot address old)

theorem holds_createDirectoryEntry
    (empty : cache.directoryEntryList slot = none) (address : IntPtr) :
    (cache.createDirectoryEntry slot address).Holds entry ↔
      cache.Holds entry ∨ entry = cache.created := by
  unfold Holds
  constructor
  · rintro (⟨other, there⟩ | listed)
    · rw [list_createDirectoryEntry] at there
      split at there
      next => exact Or.inr (Option.some.inj there).symm
      next => exact Or.inl (Or.inl ⟨other, there⟩)
    · exact Or.inl (Or.inr listed)
  · rintro ((⟨other, there⟩ | listed) | rfl)
    · refine Or.inl ⟨other, ?_⟩
      rw [list_createDirectoryEntry, if_neg, there]
      rintro rfl
      rw [empty] at there
      cases there
    · exact Or.inr listed
    · exact Or.inl ⟨slot, by rw [list_createDirectoryEntry, if_pos rfl]⟩

/-- An entry of the list of places is the new one or was there before. -/
theorem cases_createDirectoryEntry {other : config.Slot}
    (there : (cache.createDirectoryEntry slot address).directoryEntryList
      other = some entry) :
    (other = slot ∧ entry = cache.created) ∨
      (other ≠ slot ∧ cache.directoryEntryList other = some entry) := by
  rw [list_createDirectoryEntry] at there
  split at there
  next same => exact Or.inl ⟨same, (Option.some.inj there).symm⟩
  next apart => exact Or.inr ⟨apart, there⟩

theorem Inv.lt_of_slot (inv : cache.Inv known)
    (there : cache.directoryEntryList slot = some entry) :
    entry < cache.created :=
  inv.old (Or.inl ⟨slot, there⟩)

theorem Inv.lt_of_mem (inv : cache.Inv known)
    (listed : entry ∈ cache.replacedDirectoryEntryList) :
    entry < cache.created :=
  inv.old (Or.inr listed)

/-- Looking at an empty place makes an entry without an address. -/
theorem Inv.create (inv : cache.Inv known)
    (empty : cache.directoryEntryList slot = none) :
    (cache.createDirectoryEntry slot invalidAddress).Inv known := by
  have blank : (cache.createDirectoryEntry slot invalidAddress).addressOf
      cache.created = invalidAddress :=
    congrArg AddressedEntry.address (entries_created cache slot _)
  have same : ∀ {entry}, entry < cache.created →
      (cache.createDirectoryEntry slot invalidAddress).addressOf entry =
        cache.addressOf entry :=
    fun old => addressOf_createDirectoryEntry slot invalidAddress old
  have held : ∀ {entry}, (cache.createDirectoryEntry slot
      invalidAddress).Holds entry →
      (cache.createDirectoryEntry slot invalidAddress).addressOf entry ≠
        invalidAddress → cache.Holds entry := by
    intro entry holds named
    obtain old | rfl := (holds_createDirectoryEntry empty _).mp holds
    · exact old
    · exact absurd blank named
  constructor
  · intro entry holds
    obtain old | rfl := (holds_createDirectoryEntry empty _).mp holds
    · exact Nat.lt_succ_of_lt (inv.old old)
    · exact Nat.lt_succ_self _
  · intro first second entry there there'
    obtain ⟨rfl, new⟩ | ⟨_, before⟩ := cases_createDirectoryEntry there
    · obtain ⟨rfl, _⟩ | ⟨_, before'⟩ := cases_createDirectoryEntry there'
      · rfl
      · exact absurd new (Nat.ne_of_lt (inv.lt_of_slot before'))
    · obtain ⟨_, new⟩ | ⟨_, before'⟩ := cases_createDirectoryEntry there'
      · exact absurd new (Nat.ne_of_lt (inv.lt_of_slot before))
      · exact inv.single before before'
  · intro other entry there listed
    obtain ⟨_, rfl⟩ | ⟨_, before⟩ := cases_createDirectoryEntry there
    · exact Nat.lt_irrefl _ (inv.lt_of_mem listed)
    · exact inv.apart before listed
  · exact inv.nodup
  · intro entry other holds holds' named equal
    have old := held holds named
    have old' := held holds' (equal ▸ named)
    rw [same (inv.old old)] at named equal
    rw [same (inv.old old')] at equal
    exact inv.unique old old' named equal
  · intro entry listed
    rw [same (inv.lt_of_mem listed)]
    exact inv.named listed
  · intro other entry there named
    obtain ⟨_, rfl⟩ | ⟨_, before⟩ := cases_createDirectoryEntry there
    · exact absurd blank named
    · rw [same (inv.lt_of_slot before)] at named ⊢
      exact inv.home before named
  · intro entry listed way
    obtain ⟨other, there, named⟩ := inv.full listed way
    rw [same (inv.lt_of_mem listed)]
    refine ⟨other, ?_, ?_⟩
    · rw [list_createDirectoryEntry, if_neg, there]
      intro here
      rw [here, empty] at there
      cases there
    · rw [same (inv.lt_of_slot there)]
      exact named
  · intro other entry there unnamed
    obtain ⟨_, rfl⟩ | ⟨_, before⟩ := cases_createDirectoryEntry there
    · rw [entries_created]
    · rw [same (inv.lt_of_slot before)] at unnamed
      rw [entries_createDirectoryEntry _ _ (inv.lt_of_slot before)]
      exact inv.blank before unnamed
  · intro address entry info
    rw [inv.knows]
    constructor
    · rintro ⟨valid, holds, is⟩
      refine ⟨valid, (holds_createDirectoryEntry empty _).mpr (Or.inl holds),
        ?_⟩
      rw [entries_createDirectoryEntry _ _ (inv.old holds)]
      exact is
    · rintro ⟨valid, holds, is⟩
      have old : cache.Holds entry := by
        apply held holds
        unfold addressOf
        rw [is]
        exact valid
      rw [entries_createDirectoryEntry _ _ (inv.old old)] at is
      exact ⟨valid, old, is⟩

/-! ## Changes of an entry -/

/-- An address that is not known has no entry. -/
theorem Inv.missing (inv : cache.Inv known) (valid : address ≠ invalidAddress)
    (missing : known address = none) (holds : cache.Holds entry) :
    cache.addressOf entry ≠ address := by
  intro same
  have found : known address = some (entry, (cache.entries entry).info) := by
    apply inv.knows.mpr
    refine ⟨valid, holds, ?_⟩
    rw [← same]
    rfl
  rw [missing] at found
  cases found

theorem Inv.addressOf_eq (inv : cache.Inv known)
    (found : known address = some (entry, info)) :
    cache.addressOf entry = address :=
  congrArg AddressedEntry.address (inv.knows.mp found).2.2

theorem entries_setInfo_self (cache : DramDirectoryCache config)
    (entry : EntryPtr) (change : Info → Info) :
    (cache.setInfo entry change).entries entry =
      ⟨cache.addressOf entry, change (cache.entries entry).info⟩ :=
  update_self _ _ _

theorem entries_setInfo_of_ne {other : EntryPtr} (apart : other ≠ entry)
    (change : Info → Info) :
    (cache.setInfo entry change).entries other = cache.entries other :=
  update_of_ne apart _ _

theorem addressOf_setInfo (cache : DramDirectoryCache config)
    (entry other : EntryPtr) (change : Info → Info) :
    (cache.setInfo entry change).addressOf other = cache.addressOf other := by
  by_cases same : other = entry
  · have changed := congrArg AddressedEntry.address
      (entries_setInfo_self cache entry change)
    rw [same]
    exact changed
  · exact congrArg AddressedEntry.address (entries_setInfo_of_ne same _)

theorem entries_setAddress_self (cache : DramDirectoryCache config)
    (entry : EntryPtr) (address : IntPtr) :
    (cache.setAddress entry address).entries entry =
      ⟨address, (cache.entries entry).info⟩ :=
  update_self _ _ _

theorem entries_setAddress_of_ne {other : EntryPtr} (apart : other ≠ entry)
    (address : IntPtr) :
    (cache.setAddress entry address).entries other = cache.entries other :=
  update_of_ne apart _ _

/-- The entry of an address is written to. -/
theorem Inv.rewrite (inv : cache.Inv known)
    (found : known address = some (entry, info)) (change : Info → Info) :
    (cache.setInfo entry change).Inv
      (update known address (some (entry, change info))) := by
  have named := inv.addressOf_eq found
  obtain ⟨valid, holds, is⟩ := inv.knows.mp found
  have changed : (cache.setInfo entry change).entries entry =
      ⟨address, change info⟩ := by
    rw [entries_setInfo_self, named, is]
  refine ⟨inv.old, inv.single, inv.apart, inv.nodup, ?_, ?_, ?_, ?_, ?_, ?_⟩
  · intro first second holds holds' named equal
    rw [addressOf_setInfo] at named equal
    rw [addressOf_setInfo] at equal
    exact inv.unique holds holds' named equal
  · intro other listed
    rw [addressOf_setInfo]
    exact inv.named listed
  · intro slot other there named
    rw [addressOf_setInfo] at named ⊢
    exact inv.home there named
  · intro other listed way
    obtain ⟨third, there, named⟩ := inv.full listed way
    rw [addressOf_setInfo]
    refine ⟨third, there, ?_⟩
    rw [addressOf_setInfo]
    exact named
  · intro slot third there unnamed
    rw [addressOf_setInfo] at unnamed
    rw [entries_setInfo_of_ne]
    · exact inv.blank there unnamed
    · rintro rfl
      exact valid (named.symm.trans unnamed)
  · intro address' third info'
    by_cases same : address' = address
    · rw [same, update_self]
      constructor
      · intro equal
        cases equal
        exact ⟨valid, holds, changed⟩
      · rintro ⟨_, holds', is'⟩
        have one : third = entry := by
          symm
          apply inv.unique holds holds' (named ▸ valid)
          rw [named, ← addressOf_setInfo cache entry third change]
          unfold addressOf
          rw [is']
        rw [one, changed] at is'
        cases is'
        rw [one]
    · rw [update_of_ne same, inv.knows]
      refine and_congr Iff.rfl (and_congr Iff.rfl ?_)
      by_cases one : third = entry
      · rw [one, changed, is]
        constructor <;> intro equal <;> cases equal <;> exact absurd rfl same
      · rw [entries_setInfo_of_ne one]

/-- An entry without an address gets one that no entry has. -/
theorem Inv.name {way : config.Way} (inv : cache.Inv known)
    (valid : address ≠ invalidAddress)
    (there : cache.directoryEntryList (config.slot address way) = some entry)
    (unnamed : cache.addressOf entry = invalidAddress)
    (missing : known address = none) :
    (cache.setAddress entry address).Inv
      (update known address (some (entry, config.newInfo))) := by
  have otherAddress : ∀ {third}, third ≠ entry →
      (cache.setAddress entry address).addressOf third =
        cache.addressOf third :=
    fun apart =>
      congrArg AddressedEntry.address (entries_setAddress_of_ne apart _)
  have changed : (cache.setAddress entry address).entries entry =
      ⟨address, config.newInfo⟩ := by
    rw [entries_setAddress_self, inv.blank there unnamed]
  have changedAddress : (cache.setAddress entry address).addressOf entry =
      address := congrArg AddressedEntry.address changed
  have unlisted : ∀ {third}, third ∈ cache.replacedDirectoryEntryList →
      third ≠ entry := by
    rintro third listed rfl
    exact inv.apart there listed
  refine ⟨inv.old, inv.single, inv.apart, inv.nodup, ?_, ?_, ?_, ?_, ?_, ?_⟩
  · intro first second holds holds' named equal
    by_cases one : first = entry
    · by_cases two : second = entry
      · rw [one, two]
      · rw [one, changedAddress, otherAddress two] at equal
        exact absurd equal.symm (inv.missing valid missing holds')
    · rw [otherAddress one] at named equal
      by_cases two : second = entry
      · rw [two, changedAddress] at equal
        exact absurd equal (inv.missing valid missing holds)
      · rw [otherAddress two] at equal
        exact inv.unique holds holds' named equal
  · intro third listed
    rw [otherAddress (unlisted listed)]
    exact inv.named listed
  · intro slot third here named
    by_cases one : third = entry
    · rw [one] at here
      rw [one, changedAddress]
      exact ⟨way, inv.single here there⟩
    · rw [otherAddress one] at named ⊢
      exact inv.home here named
  · intro third listed place
    obtain ⟨fourth, here, named⟩ := inv.full listed place
    rw [otherAddress (unlisted listed)]
    refine ⟨fourth, here, ?_⟩
    rw [otherAddress]
    · exact named
    · rintro rfl
      exact named unnamed
  · intro slot third here nameless
    by_cases one : third = entry
    · rw [one, changedAddress] at nameless
      exact absurd nameless valid
    · rw [otherAddress one] at nameless
      rw [entries_setAddress_of_ne one]
      exact inv.blank here nameless
  · intro address' third info
    by_cases same : address' = address
    · rw [same, update_self]
      constructor
      · intro equal
        cases equal
        exact ⟨valid, Or.inl ⟨_, there⟩, changed⟩
      · rintro ⟨_, holds, is⟩
        by_cases one : third = entry
        · rw [one, changed] at is
          cases is
          rw [one]
        · rw [entries_setAddress_of_ne one] at is
          exact absurd (congrArg AddressedEntry.address is)
            (inv.missing valid missing holds)
    · rw [update_of_ne same, inv.knows]
      by_cases one : third = entry
      · subst one
        rw [changed]
        constructor
        · rintro ⟨valid', _, is⟩
          exact absurd
            ((congrArg AddressedEntry.address is).symm.trans unnamed) valid'
        · rintro ⟨_, _, is⟩
          cases is
          exact absurd rfl same
      · rw [entries_setAddress_of_ne one]
        exact Iff.rfl

/-- Addresses with a common place share all places of their set. -/
theorem slot_eq_of_slot_eq {first second : IntPtr} {way other : config.Way}
    (same : config.slot first way = config.slot second other)
    (place : config.Way) :
    config.slot first place = config.slot second place := by
  have values := congrArg Fin.val same
  have sets : config.setIndex first = config.setIndex second := by
    apply UInt32.toNat_inj.mp
    have quotient := congrArg (· / config.associativity.toNat) values
    dsimp only [DirectoryConfig.slot] at quotient
    rw [Nat.add_comm, Nat.add_mul_div_right _ _ config.ways_pos,
      Nat.div_eq_of_lt way.isLt, Nat.zero_add, Nat.add_comm,
      Nat.add_mul_div_right _ _ config.ways_pos,
      Nat.div_eq_of_lt other.isLt, Nat.zero_add] at quotient
    exact quotient
  unfold DirectoryConfig.slot
  rw [Fin.mk.injEq, sets]

section Replacement

variable (cache) in
/-- What `replaceDirectoryEntry` leaves: an entry in the list and a new one in
its place. -/
def replaced (slot : config.Slot) (entry : EntryPtr) (address : IntPtr) :
    DramDirectoryCache config :=
  createDirectoryEntry
    { cache with
      replacedDirectoryEntryList := cache.replacedDirectoryEntryList ++ [entry] }
    slot address

theorem entries_replaced_of_lt {other : EntryPtr} (slot : config.Slot)
    (entry : EntryPtr) (address : IntPtr) (old : other < cache.created) :
    (cache.replaced slot entry address).entries other = cache.entries other :=
  update_of_ne (Nat.ne_of_lt old) _ _

theorem addressOf_replaced_of_lt {other : EntryPtr} (slot : config.Slot)
    (entry : EntryPtr) (address : IntPtr) (old : other < cache.created) :
    (cache.replaced slot entry address).addressOf other =
      cache.addressOf other :=
  congrArg AddressedEntry.address (entries_replaced_of_lt slot entry address old)

theorem entries_replaced_created (slot : config.Slot) (entry : EntryPtr)
    (address : IntPtr) :
    (cache.replaced slot entry address).entries cache.created =
      ⟨address, config.newInfo⟩ :=
  update_self _ _ _

theorem addressOf_replaced_created (slot : config.Slot) (entry : EntryPtr)
    (address : IntPtr) :
    (cache.replaced slot entry address).addressOf cache.created = address :=
  congrArg AddressedEntry.address (entries_replaced_created slot entry address)

theorem mem_replaced {other : EntryPtr} :
    other ∈ (cache.replaced slot entry address).replacedDirectoryEntryList ↔
      other ∈ cache.replacedDirectoryEntryList ∨ other = entry := by
  unfold replaced createDirectoryEntry
  rw [List.mem_append, List.mem_singleton]

theorem list_replaced (slot other : config.Slot) (entry : EntryPtr)
    (address : IntPtr) :
    (cache.replaced slot entry address).directoryEntryList other =
      if other = slot then some cache.created
      else cache.directoryEntryList other :=
  update_apply _ _ _ _

theorem cases_replaced {other : config.Slot} {third : EntryPtr}
    (there : (cache.replaced slot entry address).directoryEntryList other =
      some third) :
    (other = slot ∧ third = cache.created) ∨
      (other ≠ slot ∧ cache.directoryEntryList other = some third) := by
  rw [list_replaced] at there
  split at there
  next same => exact Or.inl ⟨same, (Option.some.inj there).symm⟩
  next apart => exact Or.inr ⟨apart, there⟩

theorem holds_replaced {third : EntryPtr}
    (there : cache.directoryEntryList slot = some entry) :
    (cache.replaced slot entry address).Holds third ↔
      cache.Holds third ∨ third = cache.created := by
  constructor
  · rintro (⟨other, here⟩ | listed)
    · obtain ⟨_, new⟩ | ⟨_, before⟩ := cases_replaced here
      · exact Or.inr new
      · exact Or.inl (Or.inl ⟨other, before⟩)
    · obtain before | rfl := mem_replaced.mp listed
      · exact Or.inl (Or.inr before)
      · exact Or.inl (Or.inl ⟨slot, there⟩)
  · rintro ((⟨other, here⟩ | listed) | rfl)
    · by_cases same : other = slot
      · rw [same, there] at here
        exact Or.inr (mem_replaced.mpr (Or.inr (Option.some.inj here).symm))
      · refine Or.inl ⟨other, ?_⟩
        rw [list_replaced, if_neg same, here]
    · exact Or.inr (mem_replaced.mpr (Or.inl listed))
    · exact Or.inl ⟨slot, by rw [list_replaced, if_pos rfl]⟩

/-- An entry moves to the list and another one takes its place. -/
theorem Inv.replace {way : config.Way} (inv : cache.Inv known)
    (valid : address ≠ invalidAddress)
    (there : cache.directoryEntryList (config.slot address way) = some entry)
    (full : ∀ way, ∃ other,
      cache.directoryEntryList (config.slot address way) = some other ∧
        cache.addressOf other ≠ invalidAddress)
    (missing : known address = none) :
    (cache.replaced (config.slot address way) entry address).Inv
      (update known address
        (some (cache.created, config.newInfo))) := by
  have named : cache.addressOf entry ≠ invalidAddress := by
    obtain ⟨other, here, named⟩ := full way
    rw [there] at here
    rw [Option.some.inj here]
    exact named
  have same : ∀ {other}, other < cache.created →
      (cache.replaced (config.slot address way) entry address).addressOf
        other = cache.addressOf other :=
    fun old => addressOf_replaced_of_lt _ _ _ old
  have new : (cache.replaced (config.slot address way) entry
      address).addressOf cache.created = address :=
    addressOf_replaced_created _ _ _
  have occupied : ∀ {place other},
      cache.directoryEntryList place = some other →
      cache.addressOf other ≠ invalidAddress →
      ∃ third, (cache.replaced (config.slot address way) entry
          address).directoryEntryList place = some third ∧
        (cache.replaced (config.slot address way) entry address).addressOf
          third ≠ invalidAddress := by
    intro place other here labelled
    by_cases taken : place = config.slot address way
    · refine ⟨cache.created, by rw [list_replaced, if_pos taken], ?_⟩
      rw [new]
      exact valid
    · refine ⟨other, by rw [list_replaced, if_neg taken, here], ?_⟩
      rw [same (inv.lt_of_slot here)]
      exact labelled
  constructor
  · intro third holds
    obtain old | rfl := (holds_replaced there).mp holds
    · exact Nat.lt_succ_of_lt (inv.old old)
    · exact Nat.lt_succ_self _
  · intro first second third here here'
    obtain ⟨rfl, created⟩ | ⟨_, before⟩ := cases_replaced here
    · obtain ⟨rfl, _⟩ | ⟨_, before'⟩ := cases_replaced here'
      · rfl
      · exact absurd created (Nat.ne_of_lt (inv.lt_of_slot before'))
    · obtain ⟨_, created⟩ | ⟨_, before'⟩ := cases_replaced here'
      · exact absurd created (Nat.ne_of_lt (inv.lt_of_slot before))
      · exact inv.single before before'
  · intro place third here listed
    obtain ⟨_, rfl⟩ | ⟨apart, before⟩ := cases_replaced here
    · obtain old | rfl := mem_replaced.mp listed
      · exact Nat.lt_irrefl _ (inv.lt_of_mem old)
      · exact Nat.lt_irrefl _ (inv.lt_of_slot there)
    · obtain old | rfl := mem_replaced.mp listed
      · exact inv.apart before old
      · exact apart (inv.single before there)
  · apply List.nodup_append.mpr
    refine ⟨inv.nodup, List.nodup_singleton _, ?_⟩
    rintro third listed other single rfl
    rw [List.mem_singleton.mp single] at listed
    exact inv.apart there listed
  · intro first second holds holds' labelled equal
    obtain old | rfl := (holds_replaced there).mp holds
    · rw [same (inv.old old)] at labelled equal
      obtain old' | rfl := (holds_replaced there).mp holds'
      · rw [same (inv.old old')] at equal
        exact inv.unique old old' labelled equal
      · rw [new] at equal
        exact absurd equal (inv.missing valid missing old)
    · obtain old' | rfl := (holds_replaced there).mp holds'
      · rw [new, same (inv.old old')] at equal
        exact absurd equal.symm (inv.missing valid missing old')
      · rfl
  · intro third listed
    obtain old | rfl := mem_replaced.mp listed
    · rw [same (inv.lt_of_mem old)]
      exact inv.named old
    · rw [same (inv.lt_of_slot there)]
      exact named
  · intro place third here labelled
    obtain ⟨rfl, rfl⟩ | ⟨_, before⟩ := cases_replaced here
    · rw [new]
      exact ⟨way, rfl⟩
    · rw [same (inv.lt_of_slot before)] at labelled ⊢
      exact inv.home before labelled
  · intro third listed place
    obtain old | rfl := mem_replaced.mp listed
    · obtain ⟨other, here, labelled⟩ := inv.full old place
      rw [same (inv.lt_of_mem old)]
      exact occupied here labelled
    · obtain ⟨home, equal⟩ := inv.home there named
      obtain ⟨other, here, labelled⟩ := full place
      rw [same (inv.lt_of_slot there), ← slot_eq_of_slot_eq equal]
      exact occupied here labelled
  · intro place third here unnamed
    obtain ⟨_, rfl⟩ | ⟨_, before⟩ := cases_replaced here
    · rw [new] at unnamed
      exact absurd unnamed valid
    · rw [same (inv.lt_of_slot before)] at unnamed
      rw [entries_replaced_of_lt _ _ _ (inv.lt_of_slot before)]
      exact inv.blank before unnamed
  · intro address' third info
    rw [holds_replaced there]
    by_cases equal : address' = address
    · rw [equal, update_self]
      constructor
      · intro found
        cases found
        exact ⟨valid, Or.inr rfl, entries_replaced_created _ _ _⟩
      · rintro ⟨_, old | rfl, is⟩
        · rw [entries_replaced_of_lt _ _ _ (inv.old old)] at is
          exact absurd (congrArg AddressedEntry.address is)
            (inv.missing valid missing old)
        · rw [entries_replaced_created] at is
          cases is
          rfl
    · rw [update_of_ne equal, inv.knows]
      constructor
      · rintro ⟨valid', old, is⟩
        rw [entries_replaced_of_lt _ _ _ (inv.old old)]
        exact ⟨valid', Or.inl old, is⟩
      · rintro ⟨valid', old | rfl, is⟩
        · rw [entries_replaced_of_lt _ _ _ (inv.old old)] at is
          exact ⟨valid', old, is⟩
        · rw [entries_replaced_created] at is
          cases is
          exact absurd rfl equal

end Replacement

/-! ## A deleted entry -/

/-- Deleting the first entry that passes a test, when only one does. -/
theorem eraseP_eq_erase {test : EntryPtr → Bool} {listed : List EntryPtr}
    (only : ∀ other ∈ listed, test other = true ↔ other = entry) :
    listed.eraseP test = listed.erase entry := by
  induction listed with
  | nil => rfl
  | cons first rest ih =>
      have rests := ih fun other member =>
        only other (List.mem_cons_of_mem _ member)
      have head := only first List.mem_cons_self
      by_cases same : first = entry
      · rw [List.eraseP_cons_of_pos (head.mpr same), same,
          List.erase_cons_head]
      · rw [List.eraseP_cons_of_neg (mt head.mp same), rests,
          List.erase_cons_tail]
        rw [beq_iff_eq]
        exact same

/-- What `invalidateDirectoryEntry` leaves. -/
def released (cache : DramDirectoryCache config) (entry : EntryPtr) :
    DramDirectoryCache config :=
  { cache with
    replacedDirectoryEntryList :=
      cache.replacedDirectoryEntryList.erase entry }

/-- The entry of an address that waits in the list is deleted. -/
theorem Inv.release (inv : cache.Inv known)
    (listed : entry ∈ cache.replacedDirectoryEntryList) :
    (cache.released entry).Inv
      (update known (cache.addressOf entry) none) := by
  have sublist : ∀ {other},
      other ∈ (cache.released entry).replacedDirectoryEntryList →
      other ∈ cache.replacedDirectoryEntryList :=
    fun member => List.mem_of_mem_erase member
  have held : ∀ {other}, (cache.released entry).Holds other ↔
      cache.Holds other ∧ other ≠ entry := by
    intro other
    constructor
    · rintro (⟨slot, there⟩ | member)
      · refine ⟨Or.inl ⟨slot, there⟩, ?_⟩
        rintro rfl
        exact inv.apart there listed
      · obtain ⟨apart, member⟩ := inv.nodup.mem_erase_iff.mp member
        exact ⟨Or.inr member, apart⟩
    · rintro ⟨⟨slot, there⟩ | member, apart⟩
      · exact Or.inl ⟨slot, there⟩
      · exact Or.inr (inv.nodup.mem_erase_iff.mpr ⟨apart, member⟩)
  constructor
  · intro other holds
    exact inv.old (held.mp holds).1
  · exact inv.single
  · exact fun there member => inv.apart there (sublist member)
  · exact inv.nodup.erase entry
  · exact fun holds holds' =>
      inv.unique (held.mp holds).1 (held.mp holds').1
  · exact fun member => inv.named (sublist member)
  · exact inv.home
  · exact fun member => inv.full (sublist member)
  · exact inv.blank
  · intro address other info
    rw [held]
    by_cases same : address = cache.addressOf entry
    · rw [same, update_self]
      constructor
      · intro found
        cases found
      · rintro ⟨valid, ⟨holds, apart⟩, is⟩
        refine absurd ?_ apart
        exact (inv.unique (Or.inr listed) holds valid
          (congrArg AddressedEntry.address is).symm).symm
    · rw [update_of_ne same, inv.knows]
      constructor
      · rintro ⟨valid, holds, is⟩
        refine ⟨valid, ⟨holds, ?_⟩, is⟩
        rintro rfl
        exact same (congrArg AddressedEntry.address is).symm
      · rintro ⟨valid, ⟨holds, _⟩, is⟩
        exact ⟨valid, holds, is⟩

end DramDirectoryCache

end ChipletSniper.Coherence
