import ChipletSniper.Cache.AddressHash
import ChipletSniper.Cache.CacheSet
import ChipletSniper.Library.LineStore

/-!
# Lines of a cache

`Cache` with the tags and states of its lines.  A set looks for a tag among its
ways, and a way is replaced when a line is inserted.  The bytes of the lines are
only there for fault injection, and no answer depends on them.
-/

namespace ChipletSniper.Lines

open Library Function ChipletSniper.Cache

/-! ## Blocks -/

/-- The fields of `CacheBlockInfo` beside its tag. -/
structure Status where
  cstate : CState := .invalid
  owner : Nat := 0
  used : Nat := 0
  options : Nat := 0
  deriving DecidableEq, Repr

/-- The tag of a line that is not there, `~0`. -/
def noTag : Nat := 2 ^ 64 - 1

/-- `CacheBlockInfo`. -/
structure CacheBlockInfo where
  tag : Nat := noTag
  status : Status := {}
  deriving DecidableEq, Repr

namespace CacheBlockInfo

def isValid (info : CacheBlockInfo) : Bool := info.tag ≠ noTag

def invalidate (info : CacheBlockInfo) : CacheBlockInfo where
  tag := noTag
  status := { info.status with cstate := .invalid }

/-- What the replacement policies see. -/
def block (info : CacheBlockInfo) : Block := ⟨info.isValid, info.status.cstate⟩

end CacheBlockInfo

/-! ## Sets -/

/-- `access_t`. -/
inductive AccessType where
  | load
  | store
  deriving DecidableEq, Repr

variable {n : Nat} {policy : Policy n}

/-- `CacheSet`, without `m_blocks`. -/
structure CacheSet (policy : Policy n) where
  replacement : policy.State
  infos : Fin n → CacheBlockInfo

namespace CacheSet

variable (set : CacheSet policy) (blocksize : Nat)

def start (policy : Policy n) : CacheSet policy where
  replacement := policy.start
  infos := fun _ => {}

/-- The search goes from the last way to the first. -/
def find (tag : Nat) : Option (Fin n) :=
  (List.finRange n).reverse.find? fun way => (set.infos way).tag = tag

def setInfo (way : Fin n) (info : CacheBlockInfo) : CacheSet policy :=
  { set with infos := update set.infos way info }

def updateReplacement (way : Fin n) (wanted : Bool) :
    Except Failure (CacheSet policy) :=
  if wanted then do
    let replacement ← policy.updateReplacementIndex way set.replacement
    return { set with replacement := replacement }
  else .ok set

/-- What `read_line` and `write_line` do beside the copying of bytes. -/
def touchLine (way : Fin n) (offset bytes : Nat) (wanted : Bool) :
    Except Failure (CacheSet policy) :=
  if offset + bytes ≤ blocksize then set.updateReplacement way wanted
  else .error .error

def readLine (way : Fin n) (offset bytes : Nat) (wanted : Bool) :
    Except Failure (CacheSet policy) :=
  set.touchLine blocksize way offset bytes wanted

def writeLine (way : Fin n) (offset bytes : Nat) (wanted : Bool) :
    Except Failure (CacheSet policy) :=
  set.touchLine blocksize way offset bytes wanted

def accessLine (access : AccessType) (way : Fin n) (offset bytes : Nat)
    (wanted : Bool) : Except Failure (CacheSet policy) :=
  match access with
  | .load => set.readLine blocksize way offset bytes wanted
  | .store => set.writeLine blocksize way offset bytes wanted

def invalidate (tag : Nat) : Bool × CacheSet policy :=
  match set.find tag with
  | some way => (true, set.setInfo way (set.infos way).invalidate)
  | none => (false, set)

/-- The block that was replaced, if it was valid. -/
def insert (info : CacheBlockInfo) (fuel : Nat) (queries : Queries n) :
    Except Failure (Option CacheBlockInfo × CacheSet policy) := do
  let (way, replacement) ← policy.getReplacementIndex fuel queries
    (fun way => (set.infos way).block) set.replacement
  let evicted :=
    if (set.infos way).isValid then some (set.infos way) else none
  return (evicted, {
    replacement := replacement
    infos := update set.infos way info })

end CacheSet

/-! ## Caches -/

/-- `Cache`, whose sets and block size are those of its base. -/
structure Cache (base : CacheBase) (policy : Policy n) where
  sets : Fin base.numSets → CacheSet policy

namespace Cache

variable {base : CacheBase} (cache : Cache base policy)

def start (base : CacheBase) (policy : Policy n) : Cache base policy where
  sets := fun _ => CacheSet.start policy

/-- `splitAddress`, with an index that is one of a set. -/
def locate (base : CacheBase) (addr : Nat) :
    Except Failure (Nat × Fin base.numSets) :=
  match base.splitAddress addr with
  | some (tag, index) =>
      if inRange : index < base.numSets then .ok (tag, ⟨index, inRange⟩)
      else .error .error
  | none => .error .error

def blockOffset (base : CacheBase) (addr : Nat) : Nat :=
  addr &&& (base.blockSize - 1)

def setSet (index : Fin base.numSets) (set : CacheSet policy) :
    Cache base policy where
  sets := update cache.sets index set

@[simp] theorem sets_setSet (index : Fin base.numSets)
    (set : CacheSet policy) : (cache.setSet index set).sets index = set := by
  simp only [setSet, update_self]

@[simp] theorem sets_setSet_of_ne {index other : Fin base.numSets}
    (different : other ≠ index) (set : CacheSet policy) :
    (cache.setSet index set).sets other = cache.sets other := by
  simp only [setSet, update_of_ne different]

theorem setSet_self (index : Fin base.numSets) :
    cache.setSet index (cache.sets index) = cache := by
  rw [setSet, update_eq_self]

def peekSingleLine (addr : Nat) : Except Failure (Option Status) := do
  let (tag, index) ← locate base addr
  return ((cache.sets index).find tag).map fun way =>
    ((cache.sets index).infos way).status

/-- The caller changes the block behind the pointer that it has got. -/
def changeSingleLine (addr : Nat) (change : Status → Status) :
    Except Failure (Bool × Cache base policy) := do
  let (tag, index) ← locate base addr
  let set := cache.sets index
  match set.find tag with
  | some way =>
      let info := set.infos way
      return (true, cache.setSet index
        (set.setInfo way { info with status := change info.status }))
  | none => return (false, cache)

/-- The state of the block that is found. -/
def accessSingleLine (addr : Nat) (access : AccessType) (bytes : Nat)
    (wanted : Bool) : Except Failure (Option Status × Cache base policy) := do
  let (tag, index) ← locate base addr
  let set := cache.sets index
  match set.find tag with
  | some way =>
      let next ← set.accessLine base.blockSize access way
        (blockOffset base addr) bytes wanted
      return (some (set.infos way).status, cache.setSet index next)
  | none => return (none, cache)

def invalidateSingleLine (addr : Nat) :
    Except Failure (Bool × Cache base policy) := do
  let (tag, index) ← locate base addr
  let (found, set) := (cache.sets index).invalidate tag
  return (found, cache.setSet index set)

/-- The address and the state of the line that was evicted. -/
def insertSingleLine (addr fuel : Nat) (queries : Queries n) :
    Except Failure (Option (Nat × Status) × Cache base policy) := do
  let (tag, index) ← locate base addr
  let (evicted, set) ← (cache.sets index).insert { tag := tag } fuel queries
  return (evicted.map fun info => (base.tagToAddress info.tag, info.status),
    cache.setSet index set)

end Cache

end ChipletSniper.Lines
