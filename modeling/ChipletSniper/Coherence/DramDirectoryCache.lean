import ChipletSniper.Misc.Utils
import Mathlib.Data.List.FinRange
import Mathlib.Logic.Function.Basic

/-!
# The directory cache

`DramDirectoryCache` keeps the directory entries of a controller in sets.  An
entry that was replaced waits in a list until it is invalidated.  Entries are
referred to by pointers, and what they know about sharers is left open.
-/

namespace ChipletSniper.Coherence

open Misc

/-- `IntPtr`. -/
abbrev IntPtr := UInt64

/-- `INVALID_ADDRESS`. -/
def invalidAddress : IntPtr := -1

/-- A pointer to a directory entry: the number of entries created before. -/
abbrev EntryPtr := Nat

/-- The parameters of the constructor, with what `createDirectoryEntry` makes.
-/
structure DirectoryConfig (Info : Type*) where
  totalEntries : UInt32
  associativity : UInt32
  cacheBlockSize : UInt32
  newInfo : Info
  getNumSharers : Info → Nat
  ways_pos : 0 < associativity.toNat
  ways_le : associativity.toNat ≤ totalEntries.toNat
  block_pos : 0 < cacheBlockSize.toNat

namespace DirectoryConfig

variable {Info : Type*} (config : DirectoryConfig Info)

def numSets : UInt32 :=
  config.totalEntries / config.associativity

def logCacheBlockSize : UInt64 :=
  UInt64.ofNat (floorLog2 config.cacheBlockSize.toNat).toNat

/-- `splitAddress`, without the tag, which nothing reads. -/
def setIndex (address : IntPtr) : UInt32 :=
  (address >>> config.logCacheBlockSize).toUInt32 &&& (config.numSets - 1)

theorem setIndex_lt (address : IntPtr) :
    (config.setIndex address).toNat < config.numSets.toNat := by
  have positive : 0 < config.numSets.toNat := by
    unfold numSets
    rw [UInt32.toNat_div]
    exact Nat.div_pos config.ways_le config.ways_pos
  have one : (1 : UInt32) ≤ config.numSets := by
    rw [UInt32.le_iff_toNat_le]
    exact positive
  unfold setIndex
  rw [UInt32.toNat_and, UInt32.toNat_sub_of_le _ _ one]
  apply Nat.lt_of_le_of_lt Nat.and_le_right
  exact Nat.sub_lt positive Nat.one_pos

abbrev Way := Fin config.associativity.toNat

/-- A place in `m_directory_entry_list`. -/
abbrev Slot := Fin config.totalEntries.toNat

/-- The place of a way of a set, which the directory asserts to be there. -/
def slot (address : IntPtr) (way : config.Way) : config.Slot :=
  ⟨(config.setIndex address).toNat * config.associativity.toNat + way.val, by
    have inside := config.setIndex_lt address
    have sets : config.numSets.toNat * config.associativity.toNat ≤
        config.totalEntries.toNat := by
      unfold numSets
      rw [UInt32.toNat_div]
      exact Nat.div_mul_le_self _ _
    have next := Nat.mul_le_mul_right config.associativity.toNat inside
    rw [Nat.succ_mul] at next
    exact Nat.lt_of_lt_of_le
      (Nat.add_lt_add_left way.isLt _) (Nat.le_trans next sets)⟩

theorem slot_injective (address : IntPtr) :
    Function.Injective (config.slot address) := by
  intro way other same
  apply Fin.ext
  exact Nat.add_left_cancel (congrArg Fin.val same)

end DirectoryConfig

/-- A directory entry: its address and all the rest. -/
structure AddressedEntry (Info : Type*) where
  address : IntPtr
  info : Info

/-- The errors and assertions of the cache and of its controller. -/
inductive DirectoryFailure where
  | stillThere
  | noCandidate
  | notReplaced
  | notInvalidated
  deriving DecidableEq, Repr

/-- `DramDirectoryCache` with its `Directory`.  An entry is created when it is
first looked at. -/
structure DramDirectoryCache {Info : Type*} (config : DirectoryConfig Info) where
  entries : EntryPtr → AddressedEntry Info
  created : Nat
  directoryEntryList : config.Slot → Option EntryPtr
  replacementPtrs : Nat → UInt32
  replacedDirectoryEntryList : List EntryPtr

namespace DramDirectoryCache

variable {Info : Type*} {config : DirectoryConfig Info}
variable (cache : DramDirectoryCache config)

def addressOf (entry : EntryPtr) : IntPtr :=
  (cache.entries entry).address

/-- `createDirectoryEntry` for a place of the list. -/
def createDirectoryEntry (slot : config.Slot) (address : IntPtr) :
    DramDirectoryCache config :=
  { cache with
    entries := Function.update cache.entries cache.created
      ⟨address, config.newInfo⟩
    created := cache.created + 1
    directoryEntryList :=
      Function.update cache.directoryEntryList slot (some cache.created) }

/-- `Directory::getDirectoryEntry`. -/
def slotEntry (slot : config.Slot) : EntryPtr × DramDirectoryCache config :=
  match cache.directoryEntryList slot with
  | some entry => (entry, cache)
  | none => (cache.created, cache.createDirectoryEntry slot invalidAddress)

def setAddress (entry : EntryPtr) (address : IntPtr) :
    DramDirectoryCache config :=
  { cache with
    entries := Function.update cache.entries entry
      { cache.entries entry with address := address } }

/-- What the controller does to an entry it has a pointer to. -/
def setInfo (entry : EntryPtr) (change : Info → Info) :
    DramDirectoryCache config :=
  { cache with
    entries := Function.update cache.entries entry
      { cache.entries entry with info := change (cache.entries entry).info } }

/-- A loop over ways of the set of `home` for an entry with the given
address. -/
def searchLoop (home address : IntPtr) :
    List config.Way → DramDirectoryCache config →
      Option (config.Way × EntryPtr) × DramDirectoryCache config
  | [], cache => (none, cache)
  | way :: rest, cache =>
      let (entry, cache) := cache.slotEntry (config.slot home way)
      if cache.addressOf entry = address then (some (way, entry), cache)
      else searchLoop home address rest cache

/-- The loops go over all ways. -/
def search (home address : IntPtr) :
    Option (config.Way × EntryPtr) × DramDirectoryCache config :=
  searchLoop home address (List.finRange _) cache

def getDirectoryEntry (address : IntPtr) :
    Option EntryPtr × DramDirectoryCache config :=
  match cache.search address address with
  | (some (_, entry), cache) => (some entry, cache)
  | (none, cache) =>
      match cache.search address invalidAddress with
      | (some (_, entry), cache) => (some entry, cache.setAddress entry address)
      | (none, cache) =>
          (cache.replacedDirectoryEntryList.find? fun entry =>
            cache.addressOf entry = address, cache)

/-- The loop of `getReplacementCandidates`, with the value of the pointer of
the set. -/
def candidateLoop (address : IntPtr) (start : UInt32) :
    List config.Way → DramDirectoryCache config →
      List EntryPtr × DramDirectoryCache config
  | [], cache => ([], cache)
  | i :: rest, cache =>
      let way : config.Way :=
        ⟨(UInt32.ofNat i.val + start).toNat % config.associativity.toNat,
          Nat.mod_lt _ config.ways_pos⟩
      let (entry, cache) := cache.slotEntry (config.slot address way)
      let (others, cache) := candidateLoop address start rest cache
      (entry :: others, cache)

def getReplacementCandidates (address : IntPtr) :
    Except DirectoryFailure (List EntryPtr × DramDirectoryCache config) :=
  match cache.getDirectoryEntry address with
  | (some _, _) => .error .stillThere
  | (none, cache) =>
      let set := (config.setIndex address).toNat
      let (candidates, cache) := candidateLoop address
        (cache.replacementPtrs set) (List.finRange _) cache
      .ok (candidates,
        { cache with
          replacementPtrs := Function.update cache.replacementPtrs set
            (cache.replacementPtrs set + 1) })

def replaceDirectoryEntry (replacedAddress address : IntPtr) :
    Except DirectoryFailure (EntryPtr × DramDirectoryCache config) :=
  match cache.search replacedAddress replacedAddress with
  | (some (way, entry), cache) =>
      let cache :=
        { cache with
          replacedDirectoryEntryList :=
            cache.replacedDirectoryEntryList ++ [entry] }
      .ok (cache.created,
        cache.createDirectoryEntry (config.slot replacedAddress way) address)
  | (none, _) => .error .notReplaced

def invalidateDirectoryEntry (address : IntPtr) :
    Except DirectoryFailure (DramDirectoryCache config) :=
  if cache.replacedDirectoryEntryList.any fun entry =>
      cache.addressOf entry = address then
    .ok { cache with
      replacedDirectoryEntryList :=
        cache.replacedDirectoryEntryList.eraseP fun entry =>
          cache.addressOf entry = address }
  else .error .notInvalidated

/-! ## The controller -/

/-- The loop over the candidates in `processDirectoryEntryAllocationReq`, with
the numbers of requests that wait for an address. -/
def chooseCandidate (queueSize : IntPtr → Nat) :
    List EntryPtr → Option EntryPtr → Option EntryPtr
  | [], chosen => chosen
  | entry :: rest, chosen =>
      let sharers (entry : EntryPtr) :=
        config.getNumSharers (cache.entries entry).info
      let fewer : Bool := match chosen with
        | none => true
        | some other => decide (sharers entry < sharers other)
      if fewer = true ∧ queueSize (cache.addressOf entry) = 0 then
        chooseCandidate queueSize rest (some entry)
      else chooseCandidate queueSize rest chosen

/-- `processDirectoryEntryAllocationReq` up to its NULLIFY request: the new
entry and the address that was replaced. -/
def processDirectoryEntryAllocationReq (queueSize : IntPtr → Nat)
    (address : IntPtr) :
    Except DirectoryFailure
      (EntryPtr × IntPtr × DramDirectoryCache config) := do
  let (candidates, cache) ← cache.getReplacementCandidates address
  match cache.chooseCandidate queueSize candidates none with
  | none => .error .noCandidate
  | some candidate =>
      let replacedAddress := cache.addressOf candidate
      let (entry, cache) ← cache.replaceDirectoryEntry replacedAddress address
      return (entry, replacedAddress, cache)

/-- The entries of an address in its set and in the list. -/
def entriesOf (address : IntPtr) : List EntryPtr :=
  ((List.finRange _).filterMap (fun way =>
      cache.directoryEntryList (config.slot address way)) ++
    cache.replacedDirectoryEntryList).filter fun entry =>
      cache.addressOf entry = address

/-- The cache of the constructor.  `m_replacement_ptrs` is not initialised. -/
def initial (config : DirectoryConfig Info) (replacementPtrs : Nat → UInt32) :
    DramDirectoryCache config where
  entries := fun _ => ⟨invalidAddress, config.newInfo⟩
  created := 0
  directoryEntryList := fun _ => none
  replacementPtrs := replacementPtrs
  replacedDirectoryEntryList := []

end DramDirectoryCache

end ChipletSniper.Coherence
