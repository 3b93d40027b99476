import ChipletSniper.Library.ExclusiveOr
import ChipletSniper.Misc.Utils

/-!
# Tags and sets of addresses

`CacheBase` splits an address into a tag and the index of a set, which it
takes from the number of the block by one of seven hash functions.  Addresses
have 64 bits and set indices 32.
-/

namespace ChipletSniper.Cache

open Library Misc

/-! ## Home lookup -/

/-- `AddressHomeLookup`, with as many modules as there are cores in its list. -/
structure AddressHomeLookup where
  ahlParam : Nat
  totalModules : Nat
  param_lt : ahlParam < 64
  modules_pos : 0 < totalModules

namespace AddressHomeLookup

variable (lookup : AddressHomeLookup)

def getLinearBlock (address : Nat) : Nat :=
  (address >>> lookup.ahlParam) / lookup.totalModules

def getLinearAddress (address : Nat) : Nat :=
  (lookup.getLinearBlock address <<< lookup.ahlParam) % 2 ^ 64 |||
    (address &&& (2 ^ lookup.ahlParam - 1))

end AddressHomeLookup

/-! ## Hash functions -/

/-- `CacheBase::hash_t`. -/
inductive Hash where
  | mask
  | mod
  | rng1Mod
  | rng2Mod
  | primeDis
  | xorMod
  | merMod
  deriving DecidableEq, Repr

/-- `CacheBase`, with what its constructor and the one of the home lookup
assert. -/
structure CacheBase where
  hash : Hash
  numSets : Nat
  blockSize : Nat
  ahl : Option AddressHomeLookup
  sets_pos : 0 < numSets
  sets_lt : numSets < 2 ^ 32
  block_power : ∃ log < 32, blockSize = 2 ^ log
  mask_power : numSets = 2 ^ (floorLog2 numSets).toNat ∨ hash ≠ .mask
  interleaving : ∀ lookup, ahl = some lookup → blockSize ≤ 2 ^ lookup.ahlParam

/-- A remainder, with no result for the divisor `0`. -/
def modulo (number divisor : Nat) : Option Nat :=
  if divisor = 0 then none else some (number % divisor)

namespace CacheBase

variable (cache : CacheBase)

def logBlocksize : Nat := (floorLog2 cache.blockSize).toNat

def logNumSets : Nat := (floorLog2 cache.numSets).toNat

def linearAddress (addr : Nat) : Nat :=
  match cache.ahl with
  | some lookup => lookup.getLinearAddress addr
  | none => addr

def blockNum (addr : Nat) : Nat :=
  cache.linearAddress addr >>> cache.logBlocksize

/-- The `switch` of `splitAddress`. -/
def setIndex (block : Nat) : Option Nat :=
  match cache.hash with
  | .mask => some (block &&& (cache.numSets - 1))
  | .mod => modulo block cache.numSets
  | .rng1Mod => modulo (rngNext (rngSeed block)).1 cache.numSets
  | .rng2Mod =>
      modulo (rngNext (rngNext (rngSeed block)).2).1 cache.numSets
  | .primeDis => do
      let si ← modulo block cache.numSets
      modulo ((3 * (block >>> cache.logNumSets) + si) % 2 ^ 64) cache.numSets
  | .xorMod => do
      let si ← modulo block cache.numSets
      let ti ← modulo (block >>> cache.logNumSets) cache.numSets
      return si ^^^ ti
  | .merMod => modulo block (cache.numSets - 1)

/-- The tag and the index, which is cut to 32 bits. -/
def splitAddress (addr : Nat) : Option (Nat × Nat) :=
  (cache.setIndex (cache.blockNum addr)).map fun index =>
    (addr >>> cache.logBlocksize, index % 2 ^ 32)

def tagToAddress (tag : Nat) : Nat := (tag <<< cache.logBlocksize) % 2 ^ 64

/-- An address is split into a tag that stands for its block, and a set of the
cache. -/
def SplitsCorrectly : Prop :=
  ∀ addr < 2 ^ 64, ∃ tag index,
    cache.splitAddress addr = some (tag, index) ∧ index < cache.numSets ∧
    cache.tagToAddress tag = addr / cache.blockSize * cache.blockSize ∧
    ∀ other < 2 ^ 64,
      (other / cache.blockSize = addr / cache.blockSize →
        cache.splitAddress other = some (tag, index)) ∧
      (other / cache.blockSize ≠ addr / cache.blockSize →
        ∀ otherTag otherIndex,
          cache.splitAddress other = some (otherTag, otherIndex) →
            otherTag ≠ tag)

/-- The number of blocks that are numbered. -/
def attainableBlocks : Nat :=
  match cache.ahl with
  | some lookup =>
      ((2 ^ (64 - lookup.ahlParam) - 1) / lookup.totalModules + 1) *
        (2 ^ lookup.ahlParam / cache.blockSize)
  | none => 2 ^ 64 / cache.blockSize

/-! ## Tags -/

theorem blockSize_eq : cache.blockSize = 2 ^ cache.logBlocksize := by
  obtain ⟨log, small, power⟩ := cache.block_power
  have bound : 2 ^ log < 2 ^ 32 := Nat.pow_lt_pow_right (by decide) small
  rw [logBlocksize, power, floorLog2_eq (Nat.two_pow_pos log) bound,
    Int.toNat_natCast, Nat.log2_two_pow]

theorem logNumSets_eq : cache.logNumSets = cache.numSets.log2 := by
  rw [logNumSets, floorLog2_eq cache.sets_pos cache.sets_lt, Int.toNat_natCast]

theorem logBlocksize_lt : cache.logBlocksize < 32 := by
  obtain ⟨log, small, power⟩ := cache.block_power
  rw [blockSize_eq] at power
  rw [Nat.pow_right_injective (Nat.le_refl 2) power]
  exact small

theorem tagToAddress_tag {addr : Nat} (bound : addr < 2 ^ 64) :
    cache.tagToAddress (addr >>> cache.logBlocksize) =
      addr / cache.blockSize * cache.blockSize := by
  rw [tagToAddress, Nat.shiftLeft_eq, Nat.shiftRight_eq_div_pow,
    ← blockSize_eq]
  apply Nat.mod_eq_of_lt
  exact Nat.lt_of_le_of_lt (Nat.div_mul_le_self addr cache.blockSize) bound

/-! ## Block numbers -/

/-- With a home lookup, a block is numbered within its module. -/
theorem blockNum_lookup {lookup : AddressHomeLookup}
    (isLookup : cache.ahl = some lookup) {addr : Nat} (bound : addr < 2 ^ 64) :
    cache.blockNum addr =
      addr / 2 ^ lookup.ahlParam / lookup.totalModules *
          (2 ^ lookup.ahlParam / cache.blockSize) +
        addr % 2 ^ lookup.ahlParam / cache.blockSize := by
  have large := cache.interleaving lookup isLookup
  have linear : lookup.getLinearAddress addr =
      addr / 2 ^ lookup.ahlParam / lookup.totalModules *
          2 ^ lookup.ahlParam +
        addr % 2 ^ lookup.ahlParam := by
    have fits : lookup.getLinearBlock addr <<< lookup.ahlParam < 2 ^ 64 := by
      rw [Nat.shiftLeft_eq, AddressHomeLookup.getLinearBlock,
        Nat.shiftRight_eq_div_pow]
      apply Nat.lt_of_le_of_lt _ bound
      exact Nat.le_trans
        (Nat.mul_le_mul_right _ (Nat.div_le_self _ lookup.totalModules))
        (Nat.div_mul_le_self _ _)
    rw [AddressHomeLookup.getLinearAddress, Nat.mod_eq_of_lt fits,
      Nat.and_two_pow_sub_one_eq_mod,
      ← Nat.shiftLeft_add_eq_or_of_lt (Nat.mod_lt _ (Nat.two_pow_pos _)),
      Nat.shiftLeft_eq, AddressHomeLookup.getLinearBlock,
      Nat.shiftRight_eq_div_pow]
  rw [blockNum, linearAddress, isLookup]
  dsimp only
  rw [linear, Nat.shiftRight_eq_div_pow, ← blockSize_eq]
  rw [blockSize_eq] at large ⊢
  have split : 2 ^ lookup.ahlParam =
      2 ^ lookup.ahlParam / 2 ^ cache.logBlocksize *
        2 ^ cache.logBlocksize := by
    rw [Nat.div_mul_cancel]
    apply pow_dvd_pow 2
    exact (Nat.pow_le_pow_iff_right (by decide)).mp large
  generalize 2 ^ lookup.ahlParam / 2 ^ cache.logBlocksize = blocks at split ⊢
  rw [split, ← Nat.mul_assoc, Nat.add_comm,
    Nat.add_mul_div_right _ _ (Nat.two_pow_pos _), Nat.add_comm]

theorem blockNum_none (isNone : cache.ahl = none) (addr : Nat) :
    cache.blockNum addr = addr / cache.blockSize := by
  rw [blockNum, linearAddress, isNone, blockSize_eq,
    Nat.shiftRight_eq_div_pow]

/-- The addresses of a block have one number. -/
theorem blockNum_congr {addr other : Nat} (bound : addr < 2 ^ 64)
    (otherBound : other < 2 ^ 64)
    (same : other / cache.blockSize = addr / cache.blockSize) :
    cache.blockNum other = cache.blockNum addr := by
  cases isLookup : cache.ahl with
  | none => rw [cache.blockNum_none isLookup, cache.blockNum_none isLookup, same]
  | some lookup =>
      have large := cache.interleaving lookup isLookup
      rw [blockSize_eq] at large
      have split : 2 ^ lookup.ahlParam =
          cache.blockSize * 2 ^ (lookup.ahlParam - cache.logBlocksize) := by
        rw [blockSize_eq, ← pow_add, Nat.add_sub_cancel'
          ((Nat.pow_le_pow_iff_right (by decide)).mp large)]
      rw [cache.blockNum_lookup isLookup bound,
        cache.blockNum_lookup isLookup otherBound, split,
        ← Nat.div_div_eq_div_mul, ← Nat.div_div_eq_div_mul, same,
        Nat.mod_mul_right_div_self, Nat.mod_mul_right_div_self, same]

/-- Every number below the bound belongs to a block, and no other does. -/
theorem exists_blockNum_iff (block : Nat) :
    (∃ addr < 2 ^ 64, cache.blockNum addr = block) ↔
      block < cache.attainableBlocks := by
  have positive : 0 < cache.blockSize := by
    rw [blockSize_eq]
    exact Nat.two_pow_pos _
  rw [attainableBlocks]
  cases isLookup : cache.ahl with
  | none =>
      have whole : 2 ^ 64 / cache.blockSize * cache.blockSize = 2 ^ 64 := by
        apply Nat.div_mul_cancel
        rw [blockSize_eq]
        exact pow_dvd_pow 2 (by have := cache.logBlocksize_lt; omega)
      constructor
      · intro exists_addr
        obtain ⟨addr, bound, rfl⟩ := exists_addr
        rw [cache.blockNum_none isLookup]
        rw [← whole] at bound
        exact (Nat.div_lt_iff_lt_mul positive).mpr bound
      · intro small
        refine ⟨block * cache.blockSize, ?_, ?_⟩
        · rw [← whole]
          exact Nat.mul_lt_mul_of_pos_right small positive
        · rw [cache.blockNum_none isLookup, Nat.mul_div_cancel _ positive]
  | some lookup =>
      have large := cache.interleaving lookup isLookup
      have param := lookup.param_lt
      have modules := lookup.modules_pos
      have whole : 2 ^ lookup.ahlParam / cache.blockSize * cache.blockSize =
          2 ^ lookup.ahlParam := by
        apply Nat.div_mul_cancel
        rw [blockSize_eq] at large ⊢
        exact pow_dvd_pow 2 ((Nat.pow_le_pow_iff_right (by decide)).mp large)
      have space : 2 ^ (64 - lookup.ahlParam) * 2 ^ lookup.ahlParam =
          2 ^ 64 := by
        rw [← pow_add, Nat.sub_add_cancel (Nat.le_of_lt param)]
      have inModule : 0 < 2 ^ lookup.ahlParam := Nat.two_pow_pos _
      have spaces : 0 < 2 ^ (64 - lookup.ahlParam) := Nat.two_pow_pos _
      have number := fun addr bound =>
        @blockNum_lookup cache lookup isLookup addr bound
      dsimp only
      generalize 2 ^ lookup.ahlParam / cache.blockSize = perModule
        at whole number ⊢
      generalize 2 ^ (64 - lookup.ahlParam) = inSpace at space spaces ⊢
      generalize 2 ^ lookup.ahlParam = interleaved at *
      rw [← space] at number ⊢
      constructor
      · intro exists_addr
        obtain ⟨addr, bound, rfl⟩ := exists_addr
        rw [number addr bound]
        have inner : addr % interleaved / cache.blockSize < perModule := by
          rw [Nat.div_lt_iff_lt_mul positive, whole]
          exact Nat.mod_lt _ inModule
        have outer : addr / interleaved / lookup.totalModules ≤
            (inSpace - 1) / lookup.totalModules := by
          apply Nat.div_le_div_right
          have below := (Nat.div_lt_iff_lt_mul inModule).mpr bound
          omega
        have most := Nat.mul_le_mul_right perModule outer
        rw [Nat.add_mul, Nat.one_mul]
        omega
      · intro small
        have perPositive : 0 < perModule := by
          apply Nat.pos_of_mul_pos_right (b := cache.blockSize)
          rw [whole]
          exact inModule
        have quotient : block / perModule ≤
            (inSpace - 1) / lookup.totalModules := by
          rw [← Nat.lt_succ_iff, Nat.div_lt_iff_lt_mul perPositive]
          exact small
        have rest : block % perModule * cache.blockSize < interleaved := by
          rw [← whole]
          exact Nat.mul_lt_mul_of_pos_right (Nat.mod_lt _ perPositive) positive
        have fits : block / perModule * lookup.totalModules + 1 ≤ inSpace := by
          have most := Nat.mul_le_mul_right lookup.totalModules quotient
          have atMost := Nat.div_mul_le_self (inSpace - 1) lookup.totalModules
          omega
        have bound : block / perModule * lookup.totalModules * interleaved +
            block % perModule * cache.blockSize < inSpace * interleaved := by
          have most := Nat.mul_le_mul_right interleaved fits
          rw [Nat.add_mul, Nat.one_mul] at most
          omega
        have module : (block / perModule * lookup.totalModules * interleaved +
            block % perModule * cache.blockSize) / interleaved =
              block / perModule * lookup.totalModules := by
          rw [Nat.add_comm, Nat.add_mul_div_right _ _ inModule,
            Nat.div_eq_of_lt rest, Nat.zero_add]
        refine ⟨_, bound, ?_⟩
        rw [number _ bound, module, Nat.mul_add_mod', Nat.mod_eq_of_lt rest,
          Nat.mul_div_cancel _ positive, Nat.mul_div_cancel _ modules,
          Nat.mul_comm]
        exact Nat.div_add_mod block perModule

/-! ## Sets -/

theorem modulo_of_pos (number : Nat) {divisor : Nat} (positive : 0 < divisor) :
    modulo number divisor = some (number % divisor) :=
  if_neg (Nat.pos_iff_ne_zero.mp positive)

/-- The index of a block is there, and one of the cache. -/
def IndexInRange (block : Nat) : Prop :=
  ∃ index, cache.setIndex block = some index ∧
    index % 2 ^ 32 < cache.numSets

theorem indexInRange_of_lt {block index : Nat}
    (found : cache.setIndex block = some index)
    (small : index < cache.numSets) : cache.IndexInRange block := by
  refine ⟨index, found, ?_⟩
  rw [Nat.mod_eq_of_lt (Nat.lt_trans small cache.sets_lt)]
  exact small

theorem indexInRange_modulo {block number : Nat}
    (found : cache.setIndex block = modulo number cache.numSets) :
    cache.IndexInRange block := by
  rw [modulo_of_pos number cache.sets_pos] at found
  exact cache.indexInRange_of_lt found (Nat.mod_lt _ cache.sets_pos)

theorem indexInRange_mask (isMask : cache.hash = .mask) (block : Nat) :
    cache.IndexInRange block := by
  have power := cache.mask_power.resolve_right (fun other => other isMask)
  have small : block &&& (cache.numSets - 1) < cache.numSets := by
    rw [power, Nat.and_two_pow_sub_one_eq_mod]
    exact Nat.mod_lt _ (Nat.two_pow_pos _)
  exact cache.indexInRange_of_lt (by rw [setIndex, isMask]) small

theorem indexInRange_primeDis (isPrime : cache.hash = .primeDis)
    (block : Nat) : cache.IndexInRange block := by
  have index : cache.setIndex block = modulo
      ((3 * (block >>> cache.logNumSets) + block % cache.numSets) % 2 ^ 64)
        cache.numSets := by
    rw [setIndex, isPrime]
    dsimp only
    rw [modulo_of_pos block cache.sets_pos]
    rfl
  exact cache.indexInRange_modulo index

/-- A cache of one set has no other set that the Mersenne function may use. -/
theorem indexInRange_merMod_iff (isMersenne : cache.hash = .merMod)
    (block : Nat) : cache.IndexInRange block ↔ cache.numSets ≠ 1 := by
  have positive := cache.sets_pos
  have index : cache.setIndex block = modulo block (cache.numSets - 1) := by
    rw [setIndex, isMersenne]
  constructor
  · intro inRange one
    obtain ⟨number, found, -⟩ := inRange
    rw [index, one] at found
    cases found
  · intro other
    have more : 0 < cache.numSets - 1 := by omega
    rw [modulo_of_pos block more] at index
    apply cache.indexInRange_of_lt index
    have below := Nat.mod_lt block more
    omega

theorem indexInRange_xorMod_iff (isXor : cache.hash = .xorMod) (block : Nat) :
    cache.IndexInRange block ↔
      combined cache.numSets block < cache.numSets := by
  have index : cache.setIndex block = some (combined cache.numSets block) := by
    rw [setIndex, isXor]
    dsimp only
    rw [modulo_of_pos _ cache.sets_pos, modulo_of_pos _ cache.sets_pos,
      logNumSets_eq, Nat.shiftRight_eq_div_pow]
    rfl
  have fits : combined cache.numSets block < 2 ^ 32 := by
    apply Nat.xor_lt_two_pow
    · exact Nat.lt_trans (Nat.mod_lt _ cache.sets_pos) cache.sets_lt
    · exact Nat.lt_trans (Nat.mod_lt _ cache.sets_pos) cache.sets_lt
  constructor
  · intro inRange
    obtain ⟨number, found, small⟩ := inRange
    rw [index] at found
    cases found
    rw [Nat.mod_eq_of_lt fits] at small
    exact small
  · exact cache.indexInRange_of_lt index

/-- The exclusive or stays in the cache for a power of two, and otherwise
before the first block for which it does not. -/
theorem xorMod_inRange_iff (isXor : cache.hash = .xorMod) (blocks : Nat) :
    (∀ block < blocks, cache.IndexInRange block) ↔
      (∃ log, cache.numSets = 2 ^ log) ∨
        blocks ≤ firstOutside cache.numSets := by
  by_cases power : cache.numSets = 2 ^ cache.numSets.log2
  · apply iff_of_true _ (Or.inl ⟨_, power⟩)
    intro block _
    rw [cache.indexInRange_xorMod_iff isXor, combined]
    have first := Nat.mod_lt block cache.sets_pos
    have second := Nat.mod_lt (block / 2 ^ cache.numSets.log2) cache.sets_pos
    generalize block % cache.numSets = si at *
    generalize block / 2 ^ cache.numSets.log2 % cache.numSets = ti at *
    rw [power] at first second ⊢
    exact Nat.xor_lt_two_pow first second
  · have noPower : ¬ ∃ log, cache.numSets = 2 ^ log := by
      intro exists_log
      obtain ⟨log, isPower⟩ := exists_log
      rw [isPower, Nat.log2_two_pow] at power
      exact power rfl
    obtain ⟨inside, outside⟩ := combined_spec cache.sets_pos power
    rw [or_iff_right noPower]
    constructor
    · intro inRange
      by_contra more
      have first := inRange (firstOutside cache.numSets) (by omega)
      rw [cache.indexInRange_xorMod_iff isXor] at first
      omega
    · intro few block small
      rw [cache.indexInRange_xorMod_iff isXor]
      exact inside block (by omega)

theorem attainableBlocks_pos : 0 < cache.attainableBlocks := by
  rw [← cache.exists_blockNum_iff 0]
  refine ⟨0, Nat.two_pow_pos 64, ?_⟩
  cases isLookup : cache.ahl with
  | none => rw [cache.blockNum_none isLookup, Nat.zero_div]
  | some lookup =>
      rw [cache.blockNum_lookup isLookup (Nat.two_pow_pos 64)]
      simp

/-- Whether every block has its set. -/
theorem indexInRange_iff :
    (∀ block < cache.attainableBlocks, cache.IndexInRange block) ↔
      (cache.hash = .merMod → cache.numSets ≠ 1) ∧
      (cache.hash = .xorMod → (∃ log, cache.numSets = 2 ^ log) ∨
        cache.attainableBlocks ≤ firstOutside cache.numSets) := by
  cases isHash : cache.hash with
  | mask => simp [cache.indexInRange_mask isHash]
  | mod =>
      simp [fun block => cache.indexInRange_modulo
        (by rw [setIndex, isHash] : cache.setIndex block = modulo block _)]
  | rng1Mod =>
      simp [fun block => cache.indexInRange_modulo
        (by rw [setIndex, isHash] : cache.setIndex block =
          modulo (rngNext (rngSeed block)).1 _)]
  | rng2Mod =>
      simp [fun block => cache.indexInRange_modulo
        (by rw [setIndex, isHash] : cache.setIndex block =
          modulo (rngNext (rngNext (rngSeed block)).2).1 _)]
  | primeDis => simp [cache.indexInRange_primeDis isHash]
  | xorMod => simp [cache.xorMod_inRange_iff isHash]
  | merMod =>
      constructor
      · intro inRange
        have first := inRange 0 cache.attainableBlocks_pos
        rw [cache.indexInRange_merMod_iff isHash] at first
        exact ⟨fun _ => first, fun other => by cases other⟩
      · intro condition block _
        rw [cache.indexInRange_merMod_iff isHash]
        exact condition.1 rfl

/-! ## Addresses -/

theorem splitsCorrectly_iff_inRange :
    cache.SplitsCorrectly ↔
      ∀ block < cache.attainableBlocks, cache.IndexInRange block := by
  constructor
  · intro splits block small
    obtain ⟨addr, bound, rfl⟩ := (cache.exists_blockNum_iff block).mpr small
    obtain ⟨tag, index, split, inRange, -⟩ := splits addr bound
    obtain ⟨found, isIndex, same⟩ := Option.map_eq_some_iff.mp split
    refine ⟨found, isIndex, ?_⟩
    rw [(Prod.mk.inj same).2]
    exact inRange
  · intro inRange addr bound
    obtain ⟨index, isIndex, small⟩ := inRange _
      ((cache.exists_blockNum_iff _).mp ⟨addr, bound, rfl⟩)
    refine ⟨_, _, by rw [splitAddress, isIndex, Option.map_some], small,
      cache.tagToAddress_tag bound, fun other otherBound => ⟨?_, ?_⟩⟩
    · intro same
      rw [splitAddress, cache.blockNum_congr bound otherBound same, isIndex,
        Option.map_some, Nat.shiftRight_eq_div_pow, Nat.shiftRight_eq_div_pow,
        ← blockSize_eq, same]
    · intro different otherTag otherIndex split same
      obtain ⟨found, -, isTag⟩ := Option.map_eq_some_iff.mp split
      rw [← (Prod.mk.inj isTag).1, Nat.shiftRight_eq_div_pow,
        Nat.shiftRight_eq_div_pow, ← blockSize_eq] at same
      exact different same

/-- Addresses are split correctly except by the Mersenne function for one set,
and by the exclusive or when the sets are no power of two and there are enough
blocks. -/
theorem splitsCorrectly_iff (cache : CacheBase) :
    cache.SplitsCorrectly ↔
      (cache.hash = .merMod → cache.numSets ≠ 1) ∧
      (cache.hash = .xorMod → (∃ log, cache.numSets = 2 ^ log) ∨
        cache.attainableBlocks ≤ firstOutside cache.numSets) :=
  cache.splitsCorrectly_iff_inRange.trans cache.indexInRange_iff

theorem three_pos : 0 < 3 := by decide

/-- A cache of three sets with lines of 64 bytes. -/
def threeSets : CacheBase where
  hash := .xorMod
  numSets := 3
  blockSize := 64
  ahl := none
  sets_pos := three_pos
  sets_lt := by decide
  block_power := ⟨6, by decide, rfl⟩
  mask_power := Or.inr (by decide)
  interleaving := by
    intro lookup isLookup
    cases isLookup

/-- The address 128 belongs to a set that is not there. -/
theorem splitAddress_threeSets :
    threeSets.splitAddress 128 = some (2, 3) ∧ ¬ threeSets.SplitsCorrectly := by
  have split : threeSets.splitAddress 128 = some (2, 3) := by decide
  refine ⟨split, fun splits => ?_⟩
  obtain ⟨tag, index, same, inRange, -⟩ := splits 128 (by decide)
  rw [split] at same
  cases same
  exact absurd inRange (by decide)

end CacheBase

end ChipletSniper.Cache
