import ChipletSniper.Library.Positional
import ChipletSniper.Popnet.Topology
import Mathlib.Algebra.Order.Ring.Int

/-!
# The table of the routers

`sim_foundation` builds its routers one after the other and counts their
addresses on in place.  `router` computes the place of an address again.
-/

namespace ChipletSniper.Popnet

open Library

/-- The value of a 64-bit `long`. -/
def toLong (x : ℤ) : ℤ :=
  Int.bmod x (2 ^ 64)

/-- What the constructor reads from `configuration`. -/
structure Configuration where
  aryNumber : ℤ
  cubeNumber : ℤ
  virtualChannelNumber : ℤ
  bufferSize : ℤ
  outbufferSize : ℤ
  flitSize : ℤ
  chipletStarTopoRouting : Bool

/-- What a router is constructed with. -/
structure RouterTemplate where
  physicPorts : ℤ
  vcNumber : ℤ
  bufferSize : ℤ
  outbufferSize : ℤ
  address : Addr
  arySize : ℤ
  flitSize : ℤ
  deriving DecidableEq

/-- The part of `sim_foundation` that its constructor sets. -/
structure SimFoundation where
  interNetwork : List RouterTemplate
  arySize : ℤ
  cubeSize : ℤ
  routerCounter : ℤ

namespace Configuration

variable (config : Configuration)

def physicPorts : ℤ :=
  let ports := toLong (config.cubeNumber * 2 + 1)
  if config.chipletStarTopoRouting then
    toLong (max ports (toLong (config.cubeNumber * config.cubeNumber)) + 1)
  else ports

def newRouter (address : Addr) : RouterTemplate where
  physicPorts := config.physicPorts
  vcNumber := config.virtualChannelNumber
  bufferSize := config.bufferSize
  outbufferSize := config.outbufferSize
  address := address
  arySize := config.aryNumber
  flitSize := config.flitSize

end Configuration

/-- `router_counter_` after the given number of rounds of its loop. -/
def countRouters (arySize : ℤ) : Nat → ℤ
  | 0 => arySize
  | rounds + 1 => toLong (countRouters arySize rounds * arySize)

/-- The loop over `j`, from the given place down to place 1. -/
def carryLoop (arySize : ℤ) : Nat → Addr → Addr
  | 0, address => address
  | j + 1, address =>
      if coord address (j + 1) = arySize then
        carryLoop arySize j ((address.set (j + 1) 0).modify j (· + 1))
      else carryLoop arySize j address

/-- What is done to `add_t` once a router is there.  No entry ever gets higher
than `ary_size_`. -/
def nextAddress (arySize cubeSize : ℤ) (address : Addr) : Addr :=
  let last := (cubeSize - 1).toNat
  carryLoop arySize last (address.modify last (· + 1))

/-- The loop over the routers. -/
def buildRouters (config : Configuration) : Nat → Addr → List RouterTemplate
  | 0, _ => []
  | left + 1, address =>
      config.newRouter address ::
        buildRouters config left
          (nextAddress config.aryNumber config.cubeNumber address)

/-- The constructor of `sim_foundation`. -/
def simFoundation (config : Configuration) : SimFoundation :=
  let counter :=
    countRouters config.aryNumber (config.cubeNumber - 1).toNat
  { interNetwork := buildRouters config counter.toNat
      (List.replicate config.cubeNumber.toNat 0)
    arySize := config.aryNumber
    cubeSize := config.cubeNumber
    routerCounter := counter }

namespace SimFoundation

variable (foundation : SimFoundation)

/-- `valid_address`. -/
def validAddress (address : Addr) : Bool :=
  Popnet.validAddress foundation.arySize foundation.cubeSize.toNat address

/-- The place in `inter_network_` that `router` computes, unless the address
is empty. -/
def routerIndex : Addr → Option ℤ
  | [] => none
  | first :: rest =>
      some (rest.foldl
        (fun index entry => toLong (index * foundation.arySize + entry)) first)

/-- `router`, with `none` for a place outside of `inter_network_`. -/
def router (address : Addr) : Option RouterTemplate :=
  match foundation.routerIndex address with
  | some (.ofNat index) => foundation.interNetwork[index]?
  | _ => none

end SimFoundation

/-! ## Counting the addresses on -/

variable {base count number : Nat}

/-- The digits of a number as an address. -/
def addressOf (base count number : Nat) : Addr :=
  (numeral base count number).map Nat.cast

theorem toLong_eq_self {x : ℤ} (low : 0 ≤ x) (high : x < 2 ^ 63) :
    toLong x = x := by
  apply Int.bmod_eq_of_le
  · omega
  · omega

@[simp]
theorem length_addressOf (base count number : Nat) :
    (addressOf base count number).length = count := by
  simp [addressOf]

theorem modify_append_left {place : Nat} {front : Addr} (back : Addr)
    (long : place < front.length) :
    (front ++ back).modify place (· + 1) = front.modify place (· + 1) ++ back := by
  induction front generalizing place with
  | nil => cases long
  | cons entry front ih =>
      cases place with
      | zero => rfl
      | succ place =>
          rw [List.cons_append, List.modify_succ_cons, List.modify_succ_cons,
            ih (Nat.lt_of_succ_lt_succ long)]
          rfl

theorem modify_last {place : Nat} {front : Addr} (last : ℤ)
    (length : front.length = place) :
    (front ++ [last]).modify place (· + 1) = front ++ [last + 1] := by
  subst length
  induction front with
  | nil => rfl
  | cons entry front ih =>
      rw [List.cons_append, List.length_cons, List.modify_succ_cons,
        ih]
      rfl

/-- The loop leaves what is behind its first place alone. -/
theorem carryLoop_append (arySize : ℤ) (j : Nat) (front back : Addr)
    (long : j < front.length) :
    carryLoop arySize j (front ++ back) = carryLoop arySize j front ++ back := by
  induction j generalizing front with
  | zero => rfl
  | succ j ih =>
      have entry : coord (front ++ back) (j + 1) = coord front (j + 1) := by
        unfold coord
        rw [List.getD_append _ _ _ _ long]
      unfold carryLoop
      rw [entry]
      split
      · rw [List.set_append_left _ _ long,
          modify_append_left _ (by rw [List.length_set]; omega)]
        apply ih
        rw [List.length_modify, List.length_set]
        omega
      · exact ih front (by omega)

/-- Without a carry nothing changes. -/
theorem carryLoop_of_ne (arySize : ℤ) (j : Nat) (address : Addr)
    (proper : ∀ entry ∈ address, entry ≠ arySize) (long : j < address.length) :
    carryLoop arySize j address = address := by
  induction j with
  | zero => rfl
  | succ j ih =>
      have entry : coord address (j + 1) ∈ address := by
        unfold coord
        rw [List.getD_eq_getElem _ _ long]
        exact List.getElem_mem long
      unfold carryLoop
      rw [if_neg (proper _ entry)]
      exact ih (by omega)

theorem addressOf_ne (positive : 0 < base) :
    ∀ entry ∈ addressOf base count number, entry ≠ (base : ℤ) := by
  intro entry member
  obtain ⟨digit, inside, rfl⟩ := List.mem_map.mp member
  have := numeral_lt positive digit inside
  omega

theorem addressOf_succ (base count number : Nat) :
    addressOf base (count + 1) number =
      addressOf base count (number / base) ++ [((number % base : Nat) : ℤ)] := by
  unfold addressOf
  rw [numeral_succ, List.map_append]
  rfl

theorem raise_addressOf (base j number : Nat) :
    (addressOf base (j + 1) number).modify j (· + 1) =
      addressOf base j (number / base) ++ [((number % base + 1 : Nat) : ℤ)] := by
  rw [addressOf_succ, modify_last _ (length_addressOf base j _)]
  rfl

/-- Without a carry the loop finds the next address made. -/
theorem carryLoop_of_lt (j : Nat) (below : number % base + 1 < base) :
    carryLoop base j ((addressOf base (j + 1) number).modify j (· + 1)) =
      addressOf base (j + 1) (number + 1) := by
  have next : addressOf base (j + 1) (number + 1) =
      addressOf base j (number / base) ++
        [((number % base + 1 : Nat) : ℤ)] := by
    unfold addressOf
    rw [numeral_next_of_lt below, List.map_append]
    rfl
  rw [raise_addressOf, ← next]
  exact carryLoop_of_ne _ _ _
    (addressOf_ne (Nat.zero_lt_of_lt below)) (by simp)

/-- The loop turns a last digit that was raised into the next address, unless
the addresses are used up. -/
theorem carryLoop_addressOf (positive : 0 < base) (j : Nat)
    (more : number + 1 < base ^ (j + 1)) :
    carryLoop base j ((addressOf base (j + 1) number).modify j (· + 1)) =
      addressOf base (j + 1) (number + 1) := by
  induction j generalizing number with
  | zero =>
      rw [Nat.zero_add, pow_one] at more
      apply carryLoop_of_lt
      rw [Nat.mod_eq_of_lt (Nat.lt_of_succ_lt more)]
      exact more
  | succ j ih =>
      by_cases below : number % base + 1 < base
      · exact carryLoop_of_lt (j + 1) below
      have highest : number % base + 1 = base := by
        have := Nat.mod_lt number positive
        omega
      have quotient : number / base + 1 < base ^ (j + 1) := by
        have split : number + 1 = (number / base + 1) * base := by
          have whole := Nat.div_add_mod number base
          rw [Nat.add_mul, Nat.one_mul, Nat.mul_comm]
          omega
        rw [split, pow_succ] at more
        exact Nat.lt_of_mul_lt_mul_right more
      have next : addressOf base (j + 2) (number + 1) =
          addressOf base (j + 1) (number / base + 1) ++ [0] := by
        unfold addressOf
        rw [numeral_next_of_eq highest, List.map_append]
        rfl
      have entry : coord (addressOf base (j + 1) (number / base) ++
          [(base : ℤ)]) (j + 1) = base := by
        unfold coord
        rw [List.getD_append_right _ _ _ _ (by simp), length_addressOf,
          Nat.sub_self]
        rfl
      have cleared : (addressOf base (j + 1) (number / base) ++
          [(base : ℤ)]).set (j + 1) 0 =
            addressOf base (j + 1) (number / base) ++ [0] := by
        rw [List.set_append_right _ _ (by simp), length_addressOf,
          Nat.sub_self]
        rfl
      rw [raise_addressOf, highest, next]
      unfold carryLoop
      rw [if_pos entry, cleared, modify_append_left _ (by simp),
        carryLoop_append _ _ _ _ (by simp), ih quotient]

theorem nextAddress_addressOf (positive : 0 < base) (cubic : 0 < count)
    (more : number + 1 < base ^ count) :
    nextAddress base count (addressOf base count number) =
      addressOf base count (number + 1) := by
  obtain ⟨j, rfl⟩ : ∃ j, count = j + 1 := ⟨count - 1, by omega⟩
  have last : ((j + 1 : Nat) - 1 : ℤ).toNat = j := by omega
  unfold nextAddress
  rw [last]
  exact carryLoop_addressOf positive j more

/-! ## The routers and their addresses -/

/-- The routers that are still to be built have the addresses that follow. -/
theorem getElem?_buildRouters {config : Configuration}
    (ary : config.aryNumber = base) (cube : config.cubeNumber = count)
    (positive : 0 < base) (cubic : 0 < count) (left : Nat) {number : Nat}
    (room : number + left ≤ base ^ count) {index : Nat} (inside : index < left) :
    (buildRouters config left (addressOf base count number))[index]? =
      some (config.newRouter (addressOf base count (number + index))) := by
  induction left generalizing number index with
  | zero => cases inside
  | succ left ih =>
      unfold buildRouters
      cases index with
      | zero => rfl
      | succ index =>
          rw [List.getElem?_cons_succ, ary, cube,
            nextAddress_addressOf positive cubic (by omega),
            ih (by omega) (by omega)]
          rw [Nat.add_right_comm, Nat.add_assoc]

theorem length_buildRouters (config : Configuration) (left : Nat)
    (address : Addr) : (buildRouters config left address).length = left := by
  induction left generalizing address with
  | zero => rfl
  | succ left ih =>
      unfold buildRouters
      rw [List.length_cons, ih]

theorem countRouters_eq (positive : 0 < base) (rounds : Nat)
    (bound : base ^ (rounds + 1) < 2 ^ 63) :
    countRouters base rounds = (base ^ (rounds + 1) : Nat) := by
  induction rounds with
  | zero => simp [countRouters]
  | succ rounds ih =>
      have smaller : base ^ (rounds + 1) < 2 ^ 63 :=
        lt_of_le_of_lt
          (Nat.pow_le_pow_right positive (Nat.le_succ (rounds + 1))) bound
      unfold countRouters
      rw [ih smaller, ← Nat.cast_mul, ← pow_succ]
      apply toLong_eq_self
      · exact Int.natCast_nonneg _
      · exact_mod_cast bound

/-! ## Looking a router up -/

/-- The valid addresses are those with as many proper digits as there are
dimensions. -/
theorem exists_digits_of_validAddress {address : Addr}
    (valid : validAddress base count address = true) :
    ∃ places : List Nat, address = places.map Nat.cast ∧
      places.length = count ∧ ∀ digit ∈ places, digit < base := by
  simp only [validAddress, Bool.and_eq_true, beq_iff_eq, List.all_eq_true,
    Bool.not_eq_true', Bool.or_eq_false_iff, decide_eq_false_iff_not,
    Int.not_le, Int.not_lt] at valid
  obtain ⟨length, inside⟩ := valid
  refine ⟨address.map Int.toNat, ?_, by rw [List.length_map, length], ?_⟩
  · have same : address.map (Nat.cast ∘ Int.toNat) = address.map id :=
      List.map_congr_left fun entry listed =>
        Int.toNat_of_nonneg (inside entry listed).2
    rw [List.map_map, same, List.map_id]
  · intro digit member
    obtain ⟨entry, listed, rfl⟩ := List.mem_map.mp member
    have := inside entry listed
    omega

/-- The index does not overflow as long as the result does not. -/
theorem foldl_toLong (positive : 0 < base) (first : Nat) (rest : List Nat)
    (bound : rest.foldl (fun number digit => number * base + digit) first <
      2 ^ 63) :
    (rest.map (Nat.cast : Nat → ℤ)).foldl
        (fun index entry => toLong (index * base + entry)) (first : ℤ) =
      (rest.foldl (fun number digit => number * base + digit) first : Nat) := by
  induction rest using List.reverseRecOn with
  | nil => rfl
  | append_singleton rest digit ih =>
      rw [List.foldl_append, List.foldl_cons, List.foldl_nil] at bound ⊢
      have smaller : rest.foldl (fun number digit => number * base + digit)
          first < 2 ^ 63 := by
        apply lt_of_le_of_lt _ bound
        exact Nat.le_add_right_of_le (Nat.le_mul_of_pos_right _ positive)
      rw [List.map_append, List.foldl_append, ih smaller,
        List.map_singleton, List.foldl_cons, List.foldl_nil]
      rw [← Nat.cast_mul, ← Nat.cast_add]
      apply toLong_eq_self
      · exact Int.natCast_nonneg _
      · exact_mod_cast bound

theorem SimFoundation.routerIndex_digits {foundation : SimFoundation}
    (ary : foundation.arySize = base) (positive : 0 < base)
    {places : List Nat} (cubic : places ≠ [])
    (bound : horner base places < 2 ^ 63) :
    foundation.routerIndex (places.map Nat.cast) =
      some (horner base places : ℤ) := by
  cases places with
  | nil => exact absurd rfl cubic
  | cons first rest =>
      have start : horner base (first :: rest) =
          rest.foldl (fun number digit => number * base + digit) first := by
        simp [horner]
      rw [start] at bound ⊢
      unfold routerIndex
      rw [List.map_cons, ary]
      exact congrArg some (foldl_toLong positive first rest bound)

/-- What `router` and the constructor have to agree on. -/
structure SimFoundation.Matches (foundation : SimFoundation)
    (base count : Nat) : Prop where
  length : foundation.interNetwork.length = base ^ count
  built : ∀ index < base ^ count, ∃ router,
    foundation.interNetwork[index]? = some router ∧
      router.address = (numeral base count index).map Nat.cast
  found : ∀ address, foundation.validAddress address = true →
    ∃ router, foundation.router address = some router ∧
      router.address = address
  distinct : ∀ address other, foundation.validAddress address = true →
    foundation.validAddress other = true → address ≠ other →
      foundation.routerIndex address ≠ foundation.routerIndex other

/-- A router that was built is found at the number its address stands for. -/
theorem router_of_built {config : Configuration}
    (ary : config.aryNumber = base) (positive : 0 < base) (cubic : 0 < count)
    (bound : base ^ count < 2 ^ 63)
    (built : ∀ index < base ^ count,
      (simFoundation config).interNetwork[index]? =
        some (config.newRouter (addressOf base count index)))
    {places : List Nat} (length : places.length = count)
    (proper : ∀ digit ∈ places, digit < base) :
    (simFoundation config).routerIndex (places.map Nat.cast) =
        some (horner base places : ℤ) ∧
      (simFoundation config).router (places.map Nat.cast) =
        some (config.newRouter (places.map Nat.cast)) := by
  have inside : horner base places < base ^ count := by
    rw [← length]
    exact horner_lt proper
  have nonempty : places ≠ [] := by
    intro empty
    rw [empty] at length
    exact absurd length (Nat.ne_of_lt cubic)
  have index : (simFoundation config).routerIndex (places.map Nat.cast) =
      some (horner base places : ℤ) :=
    SimFoundation.routerIndex_digits ary positive nonempty
      (lt_trans inside bound)
  refine ⟨index, ?_⟩
  unfold SimFoundation.router
  rw [index]
  have back : addressOf base count (horner base places) =
      places.map Nat.cast := by
    unfold addressOf
    rw [← length, numeral_horner proper]
  rw [← back]
  exact built _ inside

/-- The routers have the addresses that `router` looks for, as long as their
number is a `long`. -/
theorem routers_match (config : Configuration)
    (positive : 1 ≤ config.aryNumber) (cubic : 1 ≤ config.cubeNumber)
    (representable : config.aryNumber ^ config.cubeNumber.toNat < 2 ^ 63) :
    (simFoundation config).Matches config.aryNumber.toNat
      config.cubeNumber.toNat := by
  obtain ⟨base, ary⟩ := Int.eq_ofNat_of_zero_le (Int.le_of_lt positive)
  obtain ⟨count, cube⟩ := Int.eq_ofNat_of_zero_le (Int.le_of_lt cubic)
  have positive : 0 < base := by omega
  have cubic : 0 < count := by omega
  rw [ary, cube, Int.toNat_natCast] at representable
  rw [ary, cube, Int.toNat_natCast, Int.toNat_natCast]
  have bound : base ^ count < 2 ^ 63 := by exact_mod_cast representable
  have counter : countRouters config.aryNumber (config.cubeNumber - 1).toNat =
      (base ^ count : Nat) := by
    obtain ⟨rounds, rfl⟩ : ∃ rounds, count = rounds + 1 :=
      ⟨count - 1, by omega⟩
    have left : (config.cubeNumber - 1).toNat = rounds := by omega
    rw [ary, left]
    exact countRouters_eq positive rounds bound
  have network : (simFoundation config).interNetwork =
      buildRouters config (base ^ count) (addressOf base count 0) := by
    change buildRouters config (countRouters config.aryNumber
      (config.cubeNumber - 1).toNat).toNat
        (List.replicate config.cubeNumber.toNat 0) = _
    unfold addressOf
    rw [counter, cube, Int.toNat_natCast, Int.toNat_natCast,
      numeral_of_zero, List.map_replicate]
    rfl
  have built : ∀ index < base ^ count,
      (simFoundation config).interNetwork[index]? =
        some (config.newRouter (addressOf base count index)) := by
    intro index inside
    rw [network, getElem?_buildRouters ary cube positive cubic _
      (Nat.zero_add _).le inside, Nat.zero_add]
  have digits : ∀ {address}, (simFoundation config).validAddress address =
      true → ∃ places : List Nat, address = places.map Nat.cast ∧
        places.length = count ∧ ∀ digit ∈ places, digit < base := by
    intro address valid
    apply exists_digits_of_validAddress
    rw [← ary, ← Int.toNat_natCast count, ← cube]
    exact valid
  constructor
  · rw [network, length_buildRouters]
  · intro index inside
    exact ⟨_, built index inside, rfl⟩
  · intro address valid
    obtain ⟨places, rfl, length, proper⟩ := digits valid
    exact ⟨_, (router_of_built ary positive cubic bound built length
      proper).2, rfl⟩
  · intro address other valid valid' apart same
    obtain ⟨places, rfl, length, proper⟩ := digits valid
    obtain ⟨places', rfl, length', proper'⟩ := digits valid'
    rw [(router_of_built ary positive cubic bound built length proper).1,
      (router_of_built ary positive cubic bound built length' proper').1]
      at same
    apply apart
    rw [horner_injective proper proper' (length.trans length'.symm)
      (Int.ofNat.inj (Option.some.inj same))]

/-- Nine routers in two dimensions. -/
def nineRouters : Configuration where
  aryNumber := 3
  cubeNumber := 2
  virtualChannelNumber := 2
  bufferSize := 12
  outbufferSize := 12
  flitSize := 4
  chipletStarTopoRouting := false

theorem routers_match_nine : (simFoundation nineRouters).Matches 3 2 :=
  routers_match nineRouters (by decide) (by decide) (by decide)

/-- Two dimensions of `2 ^ 32` routers. -/
def overflowing : Configuration :=
  { nineRouters with aryNumber := 2 ^ 32 }

/-- The number of routers is taken for zero, and no router is built. -/
theorem overflowing_has_no_router :
    (simFoundation overflowing).interNetwork = [] ∧
      (simFoundation overflowing).validAddress [0, 0] = true ∧
      (simFoundation overflowing).router [0, 0] = none ∧
      ¬ (simFoundation overflowing).Matches (2 ^ 32) 2 := by
  have empty : (simFoundation overflowing).interNetwork = [] := by decide
  have valid : (simFoundation overflowing).validAddress [0, 0] = true := by
    decide
  have lost : (simFoundation overflowing).router [0, 0] = none := by
    decide
  refine ⟨empty, valid, lost, fun agree => ?_⟩
  obtain ⟨router, there, _⟩ := agree.found [0, 0] valid
  rw [lost] at there
  cases there

end ChipletSniper.Popnet
