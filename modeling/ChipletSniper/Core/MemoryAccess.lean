import ChipletSniper.Library.Consecutive
import ChipletSniper.Library.Walk
import Mathlib.Algebra.Order.Ring.Nat

/-!
# Memory accesses that are split into lines

`Core::initiateMemoryAccess` goes over the lines that an access touches, and
makes a request for each of them.
-/

namespace ChipletSniper.Core

open Library

/-- What the loop reads.  `dataBuf` is `none` for a null pointer. -/
structure Access where
  cacheBlockSize : UInt32
  address : UInt64
  dataBuf : Option Nat
  dataSize : UInt32

/-- The arguments of `coreInitiateMemoryAccess` that differ between the
requests of an access. -/
structure Request where
  line : UInt64
  offset : UInt32
  dataBuf : Option Nat
  size : UInt32
  deriving DecidableEq

/-- `HitWhere::where_t`. -/
abbrev HitWhere := Nat

/-- `HitWhere::UNKNOWN`. -/
def HitWhere.unknown : HitWhere := 21

/-- The variables of the loop, with the requests made so far.  `head` is how
far `curr_data_buffer_head` is behind `data_buf`. -/
structure LoopState where
  currAddrAligned : UInt64
  head : Nat
  requests : List Request
  hitWhere : HitWhere
  deriving DecidableEq

namespace Access

variable (access : Access)

def endAddr : UInt64 :=
  access.address + access.dataSize.toUInt64

def beginAddrAligned : UInt64 :=
  access.address - access.address % access.cacheBlockSize.toUInt64

def endAddrAligned : UInt64 :=
  access.endAddr - access.endAddr % access.cacheBlockSize.toUInt64

def currOffset (currAddrAligned : UInt64) : UInt32 :=
  if currAddrAligned = access.beginAddrAligned then
    (access.address % access.cacheBlockSize.toUInt64).toUInt32
  else 0

def currSize (currAddrAligned : UInt64) : UInt32 :=
  let currOffset := access.currOffset currAddrAligned
  if currAddrAligned = access.endAddrAligned then
    (access.endAddr % access.cacheBlockSize.toUInt64 -
      currOffset.toUInt64).toUInt32
  else access.cacheBlockSize - currOffset

/-- What becomes of `hit_where` with the answer to a request. -/
def mergeHit (hitWhere answer : HitWhere) : HitWhere :=
  if hitWhere = HitWhere.unknown ∨
      answer ≠ HitWhere.unknown ∧ hitWhere < answer then
    answer
  else hitWhere

/-- A round of the loop, which is over when there is none.  `answers` tells
where the requests hit. -/
def round (answers : Nat → HitWhere) (state : LoopState) : Option LoopState :=
  let line := state.currAddrAligned
  if line ≤ access.endAddrAligned then
    let size := access.currSize line
    let next := line + access.cacheBlockSize.toUInt64
    if line = access.endAddrAligned ∧ size = 0 then
      some { state with currAddrAligned := next }
    else
      some
        { currAddrAligned := next
          head := state.head + size.toNat
          requests := state.requests ++
            [{ line := line
               offset := access.currOffset line
               dataBuf := access.dataBuf.map (· + state.head)
               size := size }]
          hitWhere := mergeHit state.hitWhere
            (answers state.requests.length) }
  else none

def start : LoopState where
  currAddrAligned := access.beginAddrAligned
  head := 0
  requests := []
  hitWhere := HitWhere.unknown

/-- The requests of `initiateMemoryAccess` and where it hits, if the loop is
over after the given number of rounds. -/
def initiateMemoryAccess (memComponent : HitWhere) (answers : Nat → HitWhere)
    (rounds : Nat) : Option (List Request × HitWhere) :=
  if access.dataSize ≤ 0 then some ([], memComponent)
  else
    (after (access.round answers) rounds access.start).bind fun last =>
      if (access.round answers last).isNone then
        some (last.requests, last.hitWhere)
      else none

end Access

/-- The assertions about the line in `processMemOpFromCore`. -/
def Request.insideLine (request : Request) (cacheBlockSize : UInt32) : Bool :=
  decide (request.line &&& (cacheBlockSize - 1).toUInt64 = 0) &&
    decide (request.offset + request.size ≤ cacheBlockSize)

/-- The first byte of a request. -/
def Request.first (request : Request) : Nat :=
  request.line.toNat + request.offset.toNat

/-! ## A round in natural numbers -/

/-- The end of the access stays below the last line. -/
structure Access.Ordinary (access : Access) : Prop where
  power : ∃ log, access.cacheBlockSize.toNat = 2 ^ log
  below : access.address.toNat + access.dataSize.toNat <
    2 ^ 64 - access.cacheBlockSize.toNat

/-- Multiples of the size of a line are a line apart. -/
theorem add_le_of_dvd {size x y : Nat} (left : size ∣ x) (right : size ∣ y)
    (less : x < y) : x + size ≤ y := by
  obtain ⟨k, rfl⟩ := left
  obtain ⟨m, rfl⟩ := right
  rw [← Nat.mul_succ]
  exact Nat.mul_le_mul_left size (Nat.lt_of_mul_lt_mul_left less)

section Ordinary

variable {access : Access}

namespace Access.Ordinary

theorem size_pos (ordinary : access.Ordinary) :
    0 < access.cacheBlockSize.toNat := by
  obtain ⟨log, power⟩ := ordinary.power
  rw [power]
  exact Nat.two_pow_pos log

theorem toNat_endAddr (ordinary : access.Ordinary) :
    access.endAddr.toNat = access.address.toNat + access.dataSize.toNat := by
  have below := ordinary.below
  unfold endAddr
  rw [UInt64.toNat_add, UInt32.toNat_toUInt64]
  exact Nat.mod_eq_of_lt (by omega)

theorem toNat_aligned (size : UInt32) (address : UInt64) :
    (address - address % size.toUInt64).toNat =
      address.toNat - address.toNat % size.toNat := by
  have bound : address % size.toUInt64 ≤ address := by
    rw [UInt64.le_iff_toNat_le, UInt64.toNat_mod]
    exact Nat.mod_le _ _
  rw [UInt64.toNat_sub_of_le _ _ bound, UInt64.toNat_mod,
    UInt32.toNat_toUInt64]

theorem dvd_aligned (size : UInt32) (address : UInt64) :
    size.toNat ∣ (address - address % size.toUInt64).toNat := by
  rw [toNat_aligned]
  exact Nat.dvd_sub_mod _

theorem toNat_beginAddrAligned (access : Access) :
    access.beginAddrAligned.toNat = access.address.toNat -
      access.address.toNat % access.cacheBlockSize.toNat :=
  toNat_aligned _ _

theorem toNat_endAddrAligned (ordinary : access.Ordinary) :
    access.endAddrAligned.toNat =
      access.address.toNat + access.dataSize.toNat -
        (access.address.toNat + access.dataSize.toNat) %
          access.cacheBlockSize.toNat := by
  unfold endAddrAligned
  rw [toNat_aligned, ordinary.toNat_endAddr]

/-- A line that the loop comes to: it is not before the first line and not
behind the last one. -/
structure Reached (access : Access) (line : UInt64) : Prop where
  aligned : access.cacheBlockSize.toNat ∣ line.toNat
  low : access.beginAddrAligned.toNat ≤ line.toNat
  high : line.toNat ≤ access.endAddrAligned.toNat

variable {line : UInt64}

/-- The request of a line starts where the access or the line does. -/
theorem toNat_currOffset (ordinary : access.Ordinary)
    (reached : Reached access line) :
    (access.currOffset line).toNat =
      max access.address.toNat line.toNat - line.toNat := by
  have positive := ordinary.size_pos
  have low := reached.low
  have below := ordinary.below
  have rest := Nat.mod_lt access.address.toNat positive
  have part := Nat.mod_le access.address.toNat access.cacheBlockSize.toNat
  have size := access.cacheBlockSize.toNat_lt
  rw [toNat_beginAddrAligned] at low
  unfold currOffset
  by_cases first : line = access.beginAddrAligned
  · rw [if_pos first, UInt64.toNat_toUInt32, UInt64.toNat_mod,
      UInt32.toNat_toUInt64, first, toNat_beginAddrAligned]
    rw [Nat.mod_eq_of_lt (by omega)]
    omega
  · have apart : access.beginAddrAligned.toNat < line.toNat := by
      apply Nat.lt_of_le_of_ne reached.low
      intro same
      exact first (UInt64.toNat_inj.mp same.symm)
    have step := add_le_of_dvd (dvd_aligned _ _) reached.aligned apart
    have start : (access.address - access.address %
        access.cacheBlockSize.toUInt64).toNat =
          access.address.toNat - access.address.toNat %
            access.cacheBlockSize.toNat := toNat_beginAddrAligned access
    rw [if_neg first, UInt32.toNat_zero]
    omega

/-- The first byte that a line is asked for lies in it and before the end of
the access. -/
theorem position_bounds (ordinary : access.Ordinary)
    (reached : Reached access line) :
    max access.address.toNat line.toNat <
        line.toNat + access.cacheBlockSize.toNat ∧
      max access.address.toNat line.toNat ≤
        access.address.toNat + access.dataSize.toNat := by
  have positive := ordinary.size_pos
  have low := reached.low
  have high := reached.high
  have rest := Nat.mod_lt access.address.toNat positive
  rw [toNat_beginAddrAligned] at low
  rw [ordinary.toNat_endAddrAligned] at high
  omega

/-- The request of a line ends where the access or the line does. -/
theorem toNat_currSize (ordinary : access.Ordinary)
    (reached : Reached access line) :
    (access.currSize line).toNat =
      min (line.toNat + access.cacheBlockSize.toNat)
          (access.address.toNat + access.dataSize.toNat) -
        max access.address.toNat line.toNat := by
  have offset := ordinary.toNat_currOffset reached
  obtain ⟨inLine, inAccess⟩ := ordinary.position_bounds reached
  have last := ordinary.toNat_endAddrAligned
  have size := access.cacheBlockSize.toNat_lt
  have rest := Nat.mod_lt (access.address.toNat + access.dataSize.toNat)
    ordinary.size_pos
  have part := Nat.mod_le (access.address.toNat + access.dataSize.toNat)
    access.cacheBlockSize.toNat
  unfold currSize
  by_cases final : line = access.endAddrAligned
  · have here : line.toNat = _ := (congrArg UInt64.toNat final).trans last
    have bound : (access.currOffset line).toUInt64 ≤
        access.endAddr % access.cacheBlockSize.toUInt64 := by
      rw [UInt64.le_iff_toNat_le, UInt64.toNat_mod, UInt32.toNat_toUInt64,
        UInt32.toNat_toUInt64, ordinary.toNat_endAddr]
      omega
    rw [if_pos final, UInt64.toNat_toUInt32, UInt64.toNat_sub_of_le _ _ bound,
      UInt64.toNat_mod, UInt32.toNat_toUInt64, UInt32.toNat_toUInt64,
      ordinary.toNat_endAddr]
    rw [Nat.mod_eq_of_lt (by omega)]
    omega
  · have apart : line.toNat < access.endAddrAligned.toNat := by
      apply Nat.lt_of_le_of_ne reached.high
      intro same
      exact final (UInt64.toNat_inj.mp same)
    have step := add_le_of_dvd reached.aligned (dvd_aligned _ _) apart
    have top : (access.endAddr - access.endAddr %
        access.cacheBlockSize.toUInt64).toNat = _ := last
    have bound : access.currOffset line ≤ access.cacheBlockSize := by
      rw [UInt32.le_iff_toNat_le]
      omega
    rw [if_neg final, UInt32.toNat_sub_of_le _ _ bound]
    omega

end Access.Ordinary

/-! ## The loop -/

/-- The requests cut an access into the parts of its lines. -/
structure SplitsExactly (access : Access) (requests : List Request) : Prop where
  nonempty : ∀ request ∈ requests, 0 < request.size
  inside : ∀ request ∈ requests,
    access.cacheBlockSize.toNat ∣ request.line.toNat ∧
      request.offset.toNat + request.size.toNat ≤
        access.cacheBlockSize.toNat
  asserted : ∀ request ∈ requests,
    request.insideLine access.cacheBlockSize = true
  bytes : requests.flatMap (fun request =>
      List.range' request.first request.size.toNat) =
    List.range' access.address.toNat access.dataSize.toNat
  data : ∀ request ∈ requests, access.address.toNat ≤ request.first ∧
    request.dataBuf =
      access.dataBuf.map (· + (request.first - access.address.toNat))
  parts : requests.flatMap (fun request =>
      List.range' (request.first - access.address.toNat)
        request.size.toNat) =
    List.range' 0 access.dataSize.toNat

/-- How much of the access is behind the loop when it comes to a line. -/
def Access.behind (access : Access) (line : Nat) : Nat :=
  min (max access.address.toNat line)
    (access.address.toNat + access.dataSize.toNat) - access.address.toNat

/-- What holds of a request. -/
structure Request.Proper (access : Access) (request : Request) : Prop where
  positive : 0 < request.size.toNat
  aligned : access.cacheBlockSize.toNat ∣ request.line.toNat
  inside : request.offset.toNat + request.size.toNat ≤
    access.cacheBlockSize.toNat
  behind : access.address.toNat ≤ request.first
  data : request.dataBuf =
    access.dataBuf.map (· + (request.first - access.address.toNat))

/-- The invariant of the loop. -/
structure LoopState.Inv (access : Access) (state : LoopState) : Prop where
  aligned : access.cacheBlockSize.toNat ∣ state.currAddrAligned.toNat
  low : access.beginAddrAligned.toNat ≤ state.currAddrAligned.toNat
  high : state.currAddrAligned.toNat ≤
    access.endAddrAligned.toNat + access.cacheBlockSize.toNat
  head : state.head = access.behind state.currAddrAligned.toNat
  filled : Consecutive Request.first (fun request => request.size.toNat)
    access.address.toNat state.requests (access.address.toNat + state.head)
  proper : ∀ request ∈ state.requests, request.Proper access

/-- The first line is not behind the last one. -/
theorem Access.Ordinary.begin_le_end (ordinary : access.Ordinary) :
    access.beginAddrAligned.toNat ≤ access.endAddrAligned.toNat := by
  have begins := toNat_beginAddrAligned access
  have ends := ordinary.toNat_endAddrAligned
  have rest := Nat.mod_lt (access.address.toNat + access.dataSize.toNat)
    ordinary.size_pos
  by_contra before
  have step := add_le_of_dvd (dvd_aligned access.cacheBlockSize access.endAddr)
    (dvd_aligned access.cacheBlockSize access.address)
    (Nat.lt_of_not_le before)
  change access.endAddrAligned.toNat + _ ≤ access.beginAddrAligned.toNat
    at step
  omega

theorem inv_start (ordinary : access.Ordinary) :
    access.start.Inv access where
  aligned := Access.Ordinary.dvd_aligned _ _
  low := Nat.le_refl _
  high := Nat.le_add_right_of_le ordinary.begin_le_end
  head := by
    have begins := Access.Ordinary.toNat_beginAddrAligned access
    unfold Access.behind Access.start
    dsimp only
    omega
  filled := .nil
  proper := fun request member => by cases member

/-- The next line does not overflow. -/
theorem Access.Ordinary.toNat_next {line : UInt64} (ordinary : access.Ordinary)
    (high : line.toNat ≤ access.endAddrAligned.toNat) :
    (line + access.cacheBlockSize.toUInt64).toNat =
      line.toNat + access.cacheBlockSize.toNat := by
  have ends := ordinary.toNat_endAddrAligned
  have below := ordinary.below
  rw [UInt64.toNat_add, UInt32.toNat_toUInt64]
  exact Nat.mod_eq_of_lt (by omega)

namespace LoopState.Inv

variable {state : LoopState}

theorem reached (inv : state.Inv access)
    (more : state.currAddrAligned ≤ access.endAddrAligned) :
    Access.Ordinary.Reached access state.currAddrAligned :=
  ⟨inv.aligned, inv.low, UInt64.le_iff_toNat_le.mp more⟩

/-- The end of the access is the start of the last line: nothing is asked
for. -/
theorem skip (ordinary : access.Ordinary) (inv : state.Inv access)
    (more : state.currAddrAligned ≤ access.endAddrAligned)
    (empty : access.currSize state.currAddrAligned = 0) :
    LoopState.Inv access { state with
      currAddrAligned :=
        state.currAddrAligned + access.cacheBlockSize.toUInt64 } := by
  have here := inv.reached more
  have next := ordinary.toNat_next here.high
  have size := ordinary.toNat_currSize here
  obtain ⟨inLine, inAccess⟩ := ordinary.position_bounds here
  rw [empty, UInt32.toNat_zero] at size
  refine ⟨?_, ?_, ?_, ?_, inv.filled, inv.proper⟩
  · rw [next]
    exact Nat.dvd_add inv.aligned (Nat.dvd_refl _)
  · rw [next]
    exact Nat.le_add_right_of_le inv.low
  · rw [next]
    exact Nat.add_le_add_right here.high _
  · have head := inv.head
    unfold Access.behind at head ⊢
    dsimp only
    rw [next]
    omega

/-- The request of a line. -/
theorem request (ordinary : access.Ordinary) (inv : state.Inv access)
    (more : state.currAddrAligned ≤ access.endAddrAligned)
    (asks : ¬ (state.currAddrAligned = access.endAddrAligned ∧
      access.currSize state.currAddrAligned = 0)) (hitWhere : HitWhere) :
    LoopState.Inv access
      { currAddrAligned :=
          state.currAddrAligned + access.cacheBlockSize.toUInt64
        head := state.head + (access.currSize state.currAddrAligned).toNat
        requests := state.requests ++
          [{ line := state.currAddrAligned
             offset := access.currOffset state.currAddrAligned
             dataBuf := access.dataBuf.map (· + state.head)
             size := access.currSize state.currAddrAligned }]
        hitWhere := hitWhere } := by
  have here := inv.reached more
  have next := ordinary.toNat_next here.high
  have size := ordinary.toNat_currSize here
  have offset := ordinary.toNat_currOffset here
  have head := inv.head
  obtain ⟨inLine, inAccess⟩ := ordinary.position_bounds here
  have ends := ordinary.toNat_endAddrAligned
  unfold Access.behind at head
  have position : state.currAddrAligned.toNat +
      (access.currOffset state.currAddrAligned).toNat =
        access.address.toNat + state.head := by omega
  have positive : 0 < (access.currSize state.currAddrAligned).toNat := by
    by_contra empty
    have zero : access.currSize state.currAddrAligned = 0 := by
      apply UInt32.toNat_inj.mp
      rw [UInt32.toNat_zero]
      omega
    have apart : state.currAddrAligned.toNat <
        access.endAddrAligned.toNat := by
      apply Nat.lt_of_le_of_ne here.high
      intro same
      exact asks ⟨UInt64.toNat_inj.mp same, zero⟩
    have step := add_le_of_dvd inv.aligned
      (Access.Ordinary.dvd_aligned access.cacheBlockSize access.endAddr) apart
    change _ ≤ access.endAddrAligned.toNat at step
    omega
  refine ⟨?_, ?_, ?_, ?_, ?_, ?_⟩
  · rw [next]
    exact Nat.dvd_add inv.aligned (Nat.dvd_refl _)
  · rw [next]
    exact Nat.le_add_right_of_le inv.low
  · rw [next]
    exact Nat.add_le_add_right here.high _
  · unfold Access.behind
    dsimp only
    rw [next]
    omega
  · rw [← Nat.add_assoc]
    exact .concat inv.filled position
  · intro other member
    obtain old | new := List.mem_append.mp member
    · exact inv.proper other old
    · rw [List.mem_singleton.mp new]
      refine ⟨positive, inv.aligned, ?_, ?_, ?_⟩
      · dsimp only
        omega
      · unfold Request.first
        dsimp only
        omega
      · unfold Request.first
        dsimp only
        rw [position, Nat.add_sub_cancel_left]

/-- A round keeps the invariant and goes on to the next line. -/
theorem round (answers : Nat → HitWhere) (ordinary : access.Ordinary)
    (inv : state.Inv access)
    (more : state.currAddrAligned ≤ access.endAddrAligned) :
    ∃ next, access.round answers state = some next ∧ next.Inv access ∧
      next.currAddrAligned.toNat =
        state.currAddrAligned.toNat + access.cacheBlockSize.toNat := by
  have next := ordinary.toNat_next (inv.reached more).high
  unfold Access.round
  dsimp only
  rw [if_pos more]
  split
  next nothing => exact ⟨_, rfl, inv.skip ordinary more nothing.2, next⟩
  next asks => exact ⟨_, rfl, inv.request ordinary more asks _, next⟩

/-- The loop stops behind the last line. -/
theorem round_eq_none {answers : Nat → HitWhere} :
    access.round answers state = none ↔
      ¬ state.currAddrAligned ≤ access.endAddrAligned := by
  unfold Access.round
  dsimp only
  split
  next more =>
    constructor
    · intro stops
      split at stops <;> cases stops
    · exact absurd more
  next ended => exact iff_of_true rfl ended

end LoopState.Inv

/-- What the loop is over with. -/
structure LoopState.Done (access : Access) (state : LoopState) : Prop where
  filled : Consecutive Request.first (fun request => request.size.toNat)
    access.address.toNat state.requests
      (access.address.toNat + access.dataSize.toNat)
  proper : ∀ request ∈ state.requests, request.Proper access

theorem LoopState.Inv.done {state : LoopState} (ordinary : access.Ordinary)
    (inv : state.Inv access)
    (ended : ¬ state.currAddrAligned ≤ access.endAddrAligned) :
    state.Done access := by
  have ends := ordinary.toNat_endAddrAligned
  have rest := Nat.mod_lt (access.address.toNat + access.dataSize.toNat)
    ordinary.size_pos
  have head := inv.head
  have behind : access.endAddrAligned.toNat < state.currAddrAligned.toNat := by
    rw [UInt64.le_iff_toNat_le] at ended
    exact Nat.lt_of_not_le ended
  have step := add_le_of_dvd
    (Access.Ordinary.dvd_aligned access.cacheBlockSize access.endAddr)
    inv.aligned behind
  change access.endAddrAligned.toNat + _ ≤ _ at step
  have all : state.head = access.dataSize.toNat := by
    unfold Access.behind at head
    omega
  exact ⟨all ▸ inv.filled, inv.proper⟩

/-- The loop ends, with all requests made. -/
theorem exists_rounds (ordinary : access.Ordinary)
    (answers : Nat → HitWhere) :
    ∃ rounds last, after (access.round answers) rounds access.start =
        some last ∧
      access.round answers last = none ∧ last.Done access := by
  obtain ⟨rounds, last, reached, inv, ended⟩ :=
    @exists_after_of_rank LoopState (access.round answers)
      (fun state => state.Inv access)
      (fun state => ¬ state.currAddrAligned ≤ access.endAddrAligned)
      (fun state => access.endAddrAligned.toNat +
        access.cacheBlockSize.toNat - state.currAddrAligned.toNat)
      (by
        intro state inv more
        rw [not_not] at more
        obtain ⟨next, taken, kept, moved⟩ :=
          LoopState.Inv.round answers ordinary inv more
        have positive := ordinary.size_pos
        have high := UInt64.le_iff_toNat_le.mp more
        refine ⟨next, taken, kept, ?_⟩
        omega)
      access.start (inv_start ordinary)
  exact ⟨rounds, last, reached, LoopState.Inv.round_eq_none.mpr ended,
    inv.done ordinary ended⟩

/-- The assertions about a line hold for a request of the loop. -/
theorem Request.Proper.insideLine {request : Request}
    (ordinary : access.Ordinary) (proper : request.Proper access) :
    request.insideLine access.cacheBlockSize = true := by
  obtain ⟨log, power⟩ := ordinary.power
  have size := access.cacheBlockSize.toNat_lt
  have positive := ordinary.size_pos
  have bound := proper.inside
  unfold Request.insideLine
  rw [Bool.and_eq_true, decide_eq_true_eq, decide_eq_true_eq]
  constructor
  · apply UInt64.toNat_inj.mp
    have one : (1 : UInt32) ≤ access.cacheBlockSize := by
      rw [UInt32.le_iff_toNat_le]
      exact positive
    rw [UInt64.toNat_and, UInt32.toNat_toUInt64,
      UInt32.toNat_sub_of_le _ _ one, power]
    change request.line.toNat &&& (2 ^ log - 1) = 0
    rw [Nat.and_two_pow_sub_one_eq_mod, ← power]
    exact Nat.mod_eq_zero_of_dvd proper.aligned
  · rw [UInt32.le_iff_toNat_le, UInt32.toNat_add]
    rw [Nat.mod_eq_of_lt (by omega)]
    exact bound

theorem LoopState.Done.splitsExactly {state : LoopState}
    (ordinary : access.Ordinary) (done : state.Done access) :
    SplitsExactly access state.requests where
  nonempty := fun request member =>
    UInt32.lt_iff_toNat_lt.mpr (done.proper request member).positive
  inside := fun request member =>
    ⟨(done.proper request member).aligned,
      (done.proper request member).inside⟩
  asserted := fun request member =>
    (done.proper request member).insideLine ordinary
  bytes := by
    rw [done.filled.places, Nat.add_sub_cancel_left]
  data := fun request member =>
    ⟨(done.proper request member).behind, (done.proper request member).data⟩
  parts := by
    have shifted := done.filled.shift.places
    rw [Nat.add_sub_cancel_left, Nat.sub_zero] at shifted
    exact shifted

/-- The loop of `initiateMemoryAccess` ends, and its requests split the access
into lines exactly. -/
theorem access_splits_exactly (access : Access)
    (power : ∃ log, access.cacheBlockSize.toNat = 2 ^ log)
    (nonempty : 1 ≤ access.dataSize)
    (below : access.address.toNat + access.dataSize.toNat <
      2 ^ 64 - access.cacheBlockSize.toNat)
    (memComponent : HitWhere) (answers : Nat → HitWhere) :
    (∃ rounds, (access.initiateMemoryAccess memComponent answers
      rounds).isSome = true) ∧
    ∀ rounds requests hitWhere,
      access.initiateMemoryAccess memComponent answers rounds =
        some (requests, hitWhere) →
      SplitsExactly access requests := by
  have ordinary : access.Ordinary := ⟨power, below⟩
  have asks : ¬ access.dataSize ≤ 0 := by
    rw [UInt32.le_iff_toNat_le] at nonempty ⊢
    exact Nat.not_le_of_lt nonempty
  obtain ⟨rounds, last, reached, ended, done⟩ :=
    exists_rounds ordinary answers
  constructor
  · refine ⟨rounds, ?_⟩
    unfold Access.initiateMemoryAccess
    rw [if_neg asks, reached, Option.bind_some, ended]
    rfl
  · intro rounds' requests hitWhere result
    unfold Access.initiateMemoryAccess at result
    rw [if_neg asks] at result
    obtain ⟨last', reached', ended⟩ := Option.bind_eq_some_iff.mp result
    split at ended
    next ended' =>
      cases ended
      rw [after_unique (Option.isNone_iff_eq_none.mp ended') ended reached'
        reached]
      exact done.splitsExactly ordinary
    next => cases ended

/-- Six bytes in two lines of four bytes. -/
def twoLines : Access where
  cacheBlockSize := 4
  address := 6
  dataBuf := some 100
  dataSize := 6

theorem access_splits_exactly_two_lines :
    (∃ rounds, (twoLines.initiateMemoryAccess 3 (fun _ => 3)
      rounds).isSome = true) ∧
    ∀ rounds requests hitWhere,
      twoLines.initiateMemoryAccess 3 (fun _ => 3) rounds =
        some (requests, hitWhere) →
      SplitsExactly twoLines requests :=
  access_splits_exactly twoLines ⟨2, rfl⟩ (by decide) (by decide) 3
    (fun _ => 3)

end Ordinary

end ChipletSniper.Core
