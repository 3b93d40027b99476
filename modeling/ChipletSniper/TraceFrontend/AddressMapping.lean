import Mathlib.Data.Set.Function
import Mathlib.Logic.Function.Basic
import ChipletSniper.Misc.Utils

/-!
# Physical addresses of traces

Every application has an address space of its own: its number is written above
the 48 bits of a virtual address.  With address randomization, the last three
bytes of the page number are replaced by a table of the application.  The
sequential scheduler takes the core instead of the application, so that the
applications of a core share their addresses.
-/

namespace ChipletSniper.TraceFrontend

open Misc

/-! ## The table -/

/-- A step of the shuffle: the item at `j` moves to `i`, and `i` takes its
place. -/
def shuffleStep (draws : Nat → Nat) (table : Nat → Nat) (i : Nat) : Nat → Nat :=
  let j := draws i % (i + 1) % 2 ^ 8
  Function.update (Function.update table i (table j)) j i

/-- The loop of the constructor of `TraceThread`, with what the generator
returns in its steps. -/
@[irreducible]
def shuffle (draws : Nat → Nat) : Nat → Nat :=
  (List.range' 1 255).foldl (shuffleStep draws) fun _ => 0

/-- The table permutes the numbers below `m`. -/
structure PermutesBelow (table : Nat → Nat) (m : Nat) : Prop where
  maps : ∀ k < m, table k < m
  injective : ∀ k < m, ∀ l < m, table k = table l → k = l
  surjective : ∀ v < m, ∃ k < m, table k = v

theorem shuffleStep_at (draws table : Nat → Nat) {i : Nat} (small : i < 256) :
    ∃ j ≤ i, ∀ k, shuffleStep draws table i k =
      if k = j then i else if k = i then table j else table k := by
  have bound : draws i % (i + 1) < i + 1 := Nat.mod_lt _ (Nat.succ_pos i)
  refine ⟨draws i % (i + 1) % 2 ^ 8, ?_, fun k => ?_⟩
  · rw [Nat.mod_eq_of_lt (by omega)]
    omega
  · rw [shuffleStep, Function.update_apply, Function.update_apply]

theorem PermutesBelow.step {table : Nat → Nat} {i : Nat}
    (permutes : PermutesBelow table i) (draws : Nat → Nat) (small : i < 256) :
    PermutesBelow (shuffleStep draws table i) (i + 1) := by
  obtain ⟨j, inside, next⟩ := shuffleStep_at draws table small
  constructor
  · intro k below
    rw [next]
    split_ifs with isNew isLast
    · exact Nat.lt_succ_self i
    · have old := permutes.maps j (by omega)
      omega
    · have old := permutes.maps k (by omega)
      omega
  · intro k kBelow l lBelow same
    have maps := permutes.maps
    have injective := permutes.injective
    rw [next, next] at same
    split_ifs at same with kNew lNew lLast kLast lNew lLast lNew lLast
    · omega
    · have old := maps j (by omega)
      omega
    · have old := maps l (by omega)
      omega
    · have old := maps j (by omega)
      omega
    · omega
    · have equal := injective j (by omega) l (by omega) same
      omega
    · have old := maps k (by omega)
      omega
    · have equal := injective k (by omega) j (by omega) same
      omega
    · exact injective k (by omega) l (by omega) same
  · intro v below
    rcases Nat.lt_or_ge v i with old | new
    · obtain ⟨k, kBelow, isValue⟩ := permutes.surjective v old
      by_cases moved : k = j
      · refine ⟨i, Nat.lt_succ_self i, ?_⟩
        rw [next, if_neg (by omega), if_pos rfl, ← moved]
        exact isValue
      · refine ⟨k, by omega, ?_⟩
        rw [next, if_neg moved, if_neg (by omega)]
        exact isValue
    · refine ⟨j, by omega, ?_⟩
      rw [next, if_pos rfl]
      omega

theorem permutesBelow_foldl (draws : Nat → Nat) {steps : Nat}
    (small : steps ≤ 255) :
    PermutesBelow ((List.range' 1 steps).foldl (shuffleStep draws)
      fun _ => 0) (steps + 1) := by
  induction steps with
  | zero =>
      refine ⟨fun _ _ => Nat.one_pos, fun _ _ _ _ _ => by omega, ?_⟩
      intro v below
      have zero : 0 = v := by omega
      exact ⟨0, Nat.one_pos, zero⟩
  | succ steps ih =>
      rw [List.range'_concat, List.foldl_append, Nat.one_mul, Nat.add_comm 1]
      exact (ih (by omega)).step draws (by omega)

/-- Whatever the generator returns, the table is a permutation. -/
theorem permutesBelow_shuffle (draws : Nat → Nat) :
    PermutesBelow (shuffle draws) 256 := by
  unfold shuffle
  exact permutesBelow_foldl draws (Nat.le_refl 255)

/-- What the generator of an application returns in the steps of the loop. -/
def draws (appId : Nat) (i : Nat) : Nat :=
  (rngNext ((fun state => (rngNext state).2)^[i - 1] (rngSeed appId))).1

/-! ## Pages -/

/-- Replaces the byte number `k` of a word. -/
def remapByte (table : Nat → Nat) (k word : Nat) : Nat :=
  (word / 256 ^ k / 256 * 256 + table (word / 256 ^ k % 256)) * 256 ^ k +
    word % 256 ^ k

/-- `remapAddress`. -/
def remapAddress (table : Nat → Nat) (vaPage : Nat) : Nat :=
  remapByte table 2 (remapByte table 1 (remapByte table 0 vaPage))

theorem eq_of_parts (k : Nat) {first second : Nat}
    (low : first % 256 ^ k = second % 256 ^ k)
    (byte : first / 256 ^ k % 256 = second / 256 ^ k % 256)
    (high : first / 256 ^ k / 256 = second / 256 ^ k / 256) :
    first = second := by
  have quotient : first / 256 ^ k = second / 256 ^ k := by omega
  rw [← Nat.div_add_mod first (256 ^ k), quotient, low, Nat.div_add_mod]

section Remapping

variable {table : Nat → Nat} (permutes : PermutesBelow table 256) (k : Nat)
include permutes

/-- The parts of a word whose byte is replaced. -/
theorem remapByte_parts (word : Nat) :
    remapByte table k word % 256 ^ k = word % 256 ^ k ∧
    remapByte table k word / 256 ^ k % 256 =
      table (word / 256 ^ k % 256) ∧
    remapByte table k word / 256 ^ k / 256 = word / 256 ^ k / 256 := by
  have power : 0 < 256 ^ k := Nat.pow_pos (by decide)
  have entry := permutes.maps (word / 256 ^ k % 256) (Nat.mod_lt _ (by decide))
  have quotient : remapByte table k word / 256 ^ k =
      word / 256 ^ k / 256 * 256 + table (word / 256 ^ k % 256) := by
    rw [remapByte, Nat.add_comm, Nat.add_mul_div_right _ _ power,
      Nat.div_eq_of_lt (Nat.mod_lt _ power), Nat.zero_add]
  refine ⟨?_, ?_, ?_⟩
  · rw [remapByte, Nat.mul_add_mod', Nat.mod_mod]
  · rw [quotient]
    omega
  · rw [quotient]
    omega

theorem remapByte_injective : Function.Injective (remapByte table k) := by
  intro first second same
  obtain ⟨firstLow, firstByte, firstHigh⟩ := remapByte_parts permutes k first
  obtain ⟨secondLow, secondByte, secondHigh⟩ :=
    remapByte_parts permutes k second
  rw [same] at firstLow firstByte firstHigh
  apply eq_of_parts k
  · rw [← firstLow, secondLow]
  · apply permutes.injective _ (Nat.mod_lt _ (by decide)) _
      (Nat.mod_lt _ (by decide))
    rw [← firstByte, secondByte]
  · rw [← firstHigh, secondHigh]

theorem remapByte_surjective : Function.Surjective (remapByte table k) := by
  intro word
  obtain ⟨byte, small, isByte⟩ := permutes.surjective (word / 256 ^ k % 256)
    (Nat.mod_lt _ (by decide))
  have power : 0 < 256 ^ k := Nat.pow_pos (by decide)
  refine ⟨(word / 256 ^ k / 256 * 256 + byte) * 256 ^ k + word % 256 ^ k, ?_⟩
  have quotient : ((word / 256 ^ k / 256 * 256 + byte) * 256 ^ k +
      word % 256 ^ k) / 256 ^ k = word / 256 ^ k / 256 * 256 + byte := by
    rw [Nat.add_comm, Nat.add_mul_div_right _ _ power,
      Nat.div_eq_of_lt (Nat.mod_lt _ power), Nat.zero_add]
  obtain ⟨low, replaced, high⟩ := remapByte_parts permutes k
    ((word / 256 ^ k / 256 * 256 + byte) * 256 ^ k + word % 256 ^ k)
  apply eq_of_parts k
  · rw [low, Nat.mul_add_mod', Nat.mod_mod]
  · rw [replaced, quotient, ← isByte]
    congr 1
    omega
  · rw [high, quotient]
    omega

/-- The bits above the byte stay. -/
theorem remapByte_lt_iff {word width : Nat} (above : 8 * (k + 1) ≤ width) :
    remapByte table k word < 2 ^ width ↔ word < 2 ^ width := by
  obtain ⟨-, -, high⟩ := remapByte_parts permutes k word
  have split : 2 ^ width = 2 ^ (width - 8 * (k + 1)) * (256 ^ k * 256) := by
    rw [← pow_succ, (by rfl : 256 = 2 ^ 8), ← pow_mul, ← pow_add,
      Nat.sub_add_cancel above]
  have power : 0 < 256 ^ k * 256 := Nat.mul_pos (Nat.pow_pos (by decide))
    (by decide)
  rw [split, ← Nat.div_lt_iff_lt_mul power, ← Nat.div_lt_iff_lt_mul power,
    ← Nat.div_div_eq_div_mul, ← Nat.div_div_eq_div_mul, high]

end Remapping

section Pages

variable {table : Nat → Nat} (permutes : PermutesBelow table 256)
include permutes

theorem remapAddress_injective : Function.Injective (remapAddress table) :=
  (remapByte_injective permutes 2).comp
    ((remapByte_injective permutes 1).comp (remapByte_injective permutes 0))

theorem remapAddress_lt_iff {vaPage width : Nat} (above : 24 ≤ width) :
    remapAddress table vaPage < 2 ^ width ↔ vaPage < 2 ^ width := by
  rw [remapAddress, remapByte_lt_iff permutes 2 (by omega),
    remapByte_lt_iff permutes 1 (by omega),
    remapByte_lt_iff permutes 0 (by omega)]

/-- The remapping is a bijection on page numbers. -/
theorem remapAddress_bijOn {width : Nat} (above : 24 ≤ width) :
    Set.BijOn (remapAddress table) {page | page < 2 ^ width}
      {page | page < 2 ^ width} := by
  refine ⟨fun page small => (remapAddress_lt_iff permutes above).mpr small,
    (remapAddress_injective permutes).injOn, fun page small => ?_⟩
  obtain ⟨second, rfl⟩ := remapByte_surjective permutes 2 page
  obtain ⟨first, rfl⟩ := remapByte_surjective permutes 1 second
  obtain ⟨vaPage, rfl⟩ := remapByte_surjective permutes 0 first
  exact ⟨vaPage, (remapAddress_lt_iff permutes above).mp small, rfl⟩

end Pages

/-! ## Addresses -/

/-- `TraceThread`, as far as addresses go, for a trace without physical
addresses. -/
structure TraceThread where
  appId : Nat
  coreId : Nat
  addressRandomization : Bool
  appidFromCoreid : Bool
  addressRandomizationTable : Nat → Nat

namespace TraceThread

variable (thread : TraceThread)

def haddr : Nat :=
  if thread.appidFromCoreid then thread.coreId else thread.appId

def va2pa (va : Nat) : Nat :=
  if thread.addressRandomization then
    ((thread.haddr <<< 48) % 2 ^ 64) |||
      ((remapAddress thread.addressRandomizationTable (va >>> 12) <<< 12) %
        2 ^ 64) |||
      (va &&& (2 ^ 12 - 1))
  else
    ((thread.haddr <<< 48) % 2 ^ 64) ||| (va &&& (2 ^ 48 - 1))

/-- The page number that is written below the application. -/
def page (va : Nat) : Nat :=
  if thread.addressRandomization then
    remapAddress thread.addressRandomizationTable (va / 2 ^ 12)
  else va / 2 ^ 12

variable {thread}

theorem page_lt (permutes : PermutesBelow thread.addressRandomizationTable 256)
    {va : Nat} (bound : va < 2 ^ 48) : thread.page va < 2 ^ 36 := by
  have small : va / 2 ^ 12 < 2 ^ 36 := by omega
  rw [page]
  split
  · exact (remapAddress_lt_iff permutes (by decide)).mpr small
  · exact small

/-- The three fields of an address do not overlap. -/
theorem va2pa_eq (permutes : PermutesBelow thread.addressRandomizationTable 256)
    (haddrBound : thread.haddr < 2 ^ 16) {va : Nat} (bound : va < 2 ^ 48) :
    thread.va2pa va =
      (thread.haddr * 2 ^ 36 + thread.page va) * 2 ^ 12 + va % 2 ^ 12 := by
  have pageBound := page_lt permutes bound
  rw [va2pa, page] at *
  have high : (thread.haddr <<< 48) % 2 ^ 64 = thread.haddr <<< 48 := by
    apply Nat.mod_eq_of_lt
    rw [Nat.shiftLeft_eq]
    omega
  rw [high]
  split at pageBound
  next randomized =>
    rw [if_pos randomized, if_pos randomized, Nat.and_two_pow_sub_one_eq_mod,
      Nat.shiftRight_eq_div_pow]
    generalize remapAddress thread.addressRandomizationTable (va / 2 ^ 12) =
      remapped at pageBound ⊢
    have middle : (remapped <<< 12) % 2 ^ 64 = remapped <<< 12 := by
      apply Nat.mod_eq_of_lt
      rw [Nat.shiftLeft_eq]
      omega
    have fields : thread.haddr <<< 48 ||| remapped <<< 12 =
        (thread.haddr * 2 ^ 36 + remapped) <<< 12 := by
      rw [← Nat.shiftLeft_add_eq_or_of_lt (by
        rw [Nat.shiftLeft_eq]
        omega), Nat.shiftLeft_eq, Nat.shiftLeft_eq, Nat.shiftLeft_eq]
      omega
    rw [middle, fields,
      ← Nat.shiftLeft_add_eq_or_of_lt (Nat.mod_lt _ (Nat.two_pow_pos 12)),
      Nat.shiftLeft_eq]
  next plain =>
    rw [if_neg plain, if_neg plain, Nat.and_two_pow_sub_one_eq_mod,
      Nat.mod_eq_of_lt bound, ← Nat.shiftLeft_add_eq_or_of_lt bound,
      Nat.shiftLeft_eq]
    omega

/-- The page offset is kept. -/
theorem va2pa_offset
    (permutes : PermutesBelow thread.addressRandomizationTable 256)
    (haddrBound : thread.haddr < 2 ^ 16) {va : Nat} (bound : va < 2 ^ 48) :
    thread.va2pa va % 2 ^ 12 = va % 2 ^ 12 := by
  rw [va2pa_eq permutes haddrBound bound]
  omega

/-- Threads that remap alike have different addresses for different numbers
and for different virtual addresses. -/
theorem va2pa_injective {other : TraceThread}
    (permutes : PermutesBelow thread.addressRandomizationTable 256)
    (otherPermutes : PermutesBelow other.addressRandomizationTable 256)
    (haddrBound : thread.haddr < 2 ^ 16) (otherHaddr : other.haddr < 2 ^ 16)
    (mode : other.addressRandomization = thread.addressRandomization)
    (alike : thread.addressRandomization = true →
      thread.haddr = other.haddr →
        other.addressRandomizationTable = thread.addressRandomizationTable)
    {va otherVa : Nat} (bound : va < 2 ^ 48) (otherBound : otherVa < 2 ^ 48)
    (same : thread.va2pa va = other.va2pa otherVa) :
    thread.haddr = other.haddr ∧ va = otherVa := by
  have pageBound := page_lt permutes bound
  have otherPage := page_lt otherPermutes otherBound
  rw [va2pa_eq permutes haddrBound bound,
    va2pa_eq otherPermutes otherHaddr otherBound] at same
  have sameHaddr : thread.haddr = other.haddr := by omega
  have samePage : thread.page va = other.page otherVa := by omega
  refine ⟨sameHaddr, ?_⟩
  have sameNumber : va / 2 ^ 12 = otherVa / 2 ^ 12 := by
    rw [page, page, mode] at samePage
    split at samePage
    next randomized =>
      rw [alike randomized sameHaddr] at samePage
      exact remapAddress_injective permutes samePage
    next => exact samePage
  omega

/-- A thread as its constructor leaves it, with what the generator returns for
its application. -/
def create (addressRandomization sequential : Bool) (streams : Nat → Nat → Nat)
    (appId coreId : Nat) : TraceThread where
  appId := appId
  coreId := coreId
  addressRandomization := addressRandomization
  appidFromCoreid := sequential
  addressRandomizationTable := shuffle (streams appId)

theorem haddr_create (addressRandomization sequential : Bool)
    (streams : Nat → Nat → Nat) (appId coreId : Nat) :
    (create addressRandomization sequential streams appId coreId).haddr =
      if sequential then coreId else appId :=
  rfl

theorem permutes_create (addressRandomization sequential : Bool)
    (streams : Nat → Nat → Nat) (appId coreId : Nat) :
    PermutesBelow (create addressRandomization sequential streams appId
      coreId).addressRandomizationTable 256 := by
  rw [create]
  exact permutesBelow_shuffle (streams appId)

/-- The tables are permutations, and addresses are private to an application,
or to a core with the sequential scheduler. -/
theorem va2pa_private (addressRandomization : Bool)
    (streams : Nat → Nat → Nat) :
    (∀ appId, PermutesBelow (shuffle (streams appId)) 256 ∧
      Set.BijOn (remapAddress (shuffle (streams appId)))
        {page | page < 2 ^ 64} {page | page < 2 ^ 64}) ∧
    (∀ sequential appId coreId va, appId < 2 ^ 16 → coreId < 2 ^ 16 →
      va < 2 ^ 48 →
      (create addressRandomization sequential streams appId coreId).va2pa va %
        2 ^ 12 = va % 2 ^ 12) ∧
    (∀ appId coreId va otherApp otherCore otherVa, appId < 2 ^ 16 →
      otherApp < 2 ^ 16 → va < 2 ^ 48 → otherVa < 2 ^ 48 →
      (create addressRandomization false streams appId coreId).va2pa va =
        (create addressRandomization false streams otherApp otherCore).va2pa
          otherVa →
      appId = otherApp ∧ va = otherVa) ∧
    (∀ appId coreId va otherApp otherCore otherVa, coreId < 2 ^ 16 →
      otherCore < 2 ^ 16 → va < 2 ^ 48 → otherVa < 2 ^ 48 →
      (addressRandomization = true → appId = otherApp) →
      (create addressRandomization true streams appId coreId).va2pa va =
        (create addressRandomization true streams otherApp otherCore).va2pa
          otherVa →
      coreId = otherCore ∧ va = otherVa) := by
  refine ⟨fun appId => ⟨permutesBelow_shuffle (streams appId),
    remapAddress_bijOn (permutesBelow_shuffle (streams appId)) (by decide)⟩,
    ?_, ?_, ?_⟩
  · intro sequential appId coreId va appBound coreBound bound
    have haddrBound : (create addressRandomization sequential streams appId
        coreId).haddr < 2 ^ 16 := by
      rw [haddr_create]
      split
      · exact coreBound
      · exact appBound
    exact va2pa_offset (permutes_create _ _ _ _ _) haddrBound bound
  · intro appId coreId va otherApp otherCore otherVa appBound otherBound bound
      otherVaBound same
    have injective := @va2pa_injective
      (create addressRandomization false streams appId coreId)
      (create addressRandomization false streams otherApp otherCore)
      (permutes_create _ _ _ _ _) (permutes_create _ _ _ _ _)
    rw [haddr_create, haddr_create] at injective
    apply injective appBound otherBound rfl _ bound otherVaBound same
    intro _ sameApp
    exact congrArg (fun appId => shuffle (streams appId)) sameApp.symm
  · intro appId coreId va otherApp otherCore otherVa coreBound otherBound bound
      otherVaBound alike same
    have injective := @va2pa_injective
      (create addressRandomization true streams appId coreId)
      (create addressRandomization true streams otherApp otherCore)
      (permutes_create _ _ _ _ _) (permutes_create _ _ _ _ _)
    rw [haddr_create, haddr_create] at injective
    apply injective coreBound otherBound rfl _ bound otherVaBound same
    intro randomized _
    exact congrArg (fun appId => shuffle (streams appId)) (alike randomized).symm

/-- Two applications on two cores do not share a page. -/
theorem va2pa_private_twoApps :
    (create true false draws 1 0).va2pa 4096 ≠
      (create true false draws 2 1).va2pa 4096 := by
  intro same
  have apps := (va2pa_private true draws).2.2.1 1 0 4096 2 1 4096 (by decide)
    (by decide) (by decide) (by decide) same
  exact absurd apps.1 (by decide)

/-- With the sequential scheduler, two applications on one core do. -/
theorem va2pa_sequential_alias :
    (create false true draws 1 0).va2pa 4096 =
      (create false true draws 2 0).va2pa 4096 := by
  decide

end TraceThread

end ChipletSniper.TraceFrontend
