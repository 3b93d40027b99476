import ChipletSniper.Sift.TraceReader

/-!
# Code that the reader holds

The bytes of an instruction may lie on more than one page.  Once all of them
have been sent, the reader decodes the instruction with the code that it was
written with, and finds it again by its address.
-/

namespace ChipletSniper.Sift.Trace

open Library Function

variable {image : BitVec 64 → Byte}

/-! ## Pages -/

theorem offsetOf_eq (address : BitVec 64) :
    offsetOf address = address.toNat % 4096 := by
  rw [offsetOf, BitVec.toNat_and]
  exact Nat.and_two_pow_sub_one_eq_mod address.toNat 12

theorem offsetOf_lt (address : BitVec 64) : offsetOf address < 4096 := by
  rw [offsetOf_eq]
  exact Nat.mod_lt _ (by decide)

theorem clear_and_keep (address mask : BitVec 64) :
    (address &&& ~~~mask) &&& (address &&& mask) = 0#64 := by
  ext place inRange
  simp only [BitVec.getElem_and, BitVec.getElem_not, BitVec.getElem_zero]
  cases mask[place] <;> simp

theorem clear_or_keep (address mask : BitVec 64) :
    (address &&& ~~~mask) ||| (address &&& mask) = address := by
  ext place inRange
  simp only [BitVec.getElem_or, BitVec.getElem_and, BitVec.getElem_not]
  cases mask[place] <;> simp

theorem toNat_pageOf (address : BitVec 64) :
    (pageOf address).toNat = address.toNat / 4096 * 4096 := by
  have apart := clear_and_keep address 0xfff#64
  have whole := clear_or_keep address 0xfff#64
  rw [← BitVec.add_eq_or_of_and_eq_zero _ _ apart] at whole
  have low := offsetOf_eq address
  have aligned : (pageOf address).toNat % 4096 = 0 := by
    have zero : pageOf address &&& 0xfff#64 = 0#64 := by
      rw [pageOf]
      ext place inRange
      simp only [BitVec.getElem_and, BitVec.getElem_not, BitVec.getElem_zero]
      cases (0xfff#64)[place] <;> simp
    have value := congrArg BitVec.toNat zero
    rw [BitVec.toNat_and] at value
    exact (Nat.and_two_pow_sub_one_eq_mod _ 12).symm.trans value
  have sum := congrArg BitVec.toNat whole
  rw [BitVec.toNat_add] at sum
  change ((pageOf address).toNat + offsetOf address) % 2 ^ 64 =
    address.toNat at sum
  have bound := (pageOf address).isLt
  omega

/-- An address within the page of another one. -/
theorem pageOf_add (address : BitVec 64) (offset : Nat)
    (within : offsetOf address + offset < 4096) :
    pageOf (address + BitVec.ofNat 64 offset) = pageOf address ∧
      offsetOf (address + BitVec.ofNat 64 offset) =
        offsetOf address + offset := by
  have bound := address.isLt
  rw [offsetOf_eq] at within
  have sum : (address + BitVec.ofNat 64 offset).toNat =
      address.toNat + offset := by
    rw [BitVec.toNat_add, BitVec.toNat_ofNat]
    omega
  constructor
  · apply BitVec.eq_of_toNat_eq
    rw [toNat_pageOf, toNat_pageOf, sum]
    omega
  · rw [offsetOf_eq, offsetOf_eq, sum]
    omega

/-- The first address of the next page. -/
theorem pageOf_next (address : BitVec 64) (offset : Nat)
    (ends : offsetOf address + offset = 4096) :
    pageOf (address + BitVec.ofNat 64 offset) = pageOf address + 4096 ∧
      offsetOf (address + BitVec.ofNat 64 offset) = 0 := by
  have bound := address.isLt
  rw [offsetOf_eq] at ends
  have sum : (address + BitVec.ofNat 64 offset).toNat =
      (address.toNat + offset) % 2 ^ 64 := by
    rw [BitVec.toNat_add, BitVec.toNat_ofNat]
    omega
  have four : (4096 : BitVec 64).toNat = 4096 := rfl
  constructor
  · apply BitVec.eq_of_toNat_eq
    rw [BitVec.toNat_add, toNat_pageOf, toNat_pageOf, sum, four]
    omega
  · rw [offsetOf_eq, sum]
    omega

/-- An address in the same page further on. -/
theorem eq_add_of_pageOf {address other : BitVec 64}
    (same : pageOf other = pageOf address)
    (behind : offsetOf address ≤ offsetOf other) :
    other = address + BitVec.ofNat 64 (offsetOf other - offsetOf address) := by
  have pages := congrArg BitVec.toNat same
  rw [toNat_pageOf, toNat_pageOf] at pages
  rw [offsetOf_eq, offsetOf_eq] at behind ⊢
  have bound := other.isLt
  apply BitVec.eq_of_toNat_eq
  rw [BitVec.toNat_add, BitVec.toNat_ofNat]
  omega

theorem pageOf_of_offset_zero {address : BitVec 64}
    (start : offsetOf address = 0) : pageOf address = address := by
  apply BitVec.eq_of_toNat_eq
  rw [offsetOf_eq] at start
  rw [toNat_pageOf]
  omega

/-! ## The code of an instruction -/

theorem code_add (image : BitVec 64 → Byte) (address : BitVec 64)
    (first second : Nat) :
    code image address (first + second) = code image address first ++
      code image (address + BitVec.ofNat 64 first) second := by
  rw [code, List.range_add, List.map_append, List.map_map]
  congr 1
  apply List.map_congr_left
  intro offset _
  rw [Function.comp_apply, BitVec.ofNat_add, BitVec.add_assoc]

@[simp] theorem length_code (image : BitVec 64 → Byte) (address : BitVec 64)
    (count : Nat) : (code image address count).length = count := by
  rw [code, List.length_map, List.length_range]

/-- The byte at an address has been sent. -/
def Held (image : BitVec 64 → Byte)
    (icache : BitVec 64 → Option (Nat → Byte)) (address : BitVec 64) : Prop :=
  ∃ page, icache (pageOf address) = some page ∧
    page (offsetOf address) = image address

variable {icache : BitVec 64 → Option (Nat → Byte)}

/-- The bytes of one page, from an address on. -/
theorem copyOut_held {address : BitVec 64} {page : Nat → Byte} (count : Nat)
    (isPage : icache (pageOf address) = some page)
    (within : offsetOf address + count ≤ 4096)
    (held : ∀ offset < count,
      Held image icache (address + BitVec.ofNat 64 offset)) :
    copyOut page (offsetOf address) count = code image address count := by
  apply List.map_congr_left
  intro offset inRange
  rw [List.mem_range] at inRange
  obtain ⟨same, place⟩ := pageOf_add address offset (by omega)
  obtain ⟨other, isOther, byte⟩ := held offset inRange
  rw [same, isPage] at isOther
  cases isOther
  rw [place] at byte
  exact byte

theorem gather_held {fuel size : Nat} (enough : size ≤ fuel)
    {address : BitVec 64} (held : ∀ offset < size,
      Held image icache (address + BitVec.ofNat 64 offset)) :
    Reader.gather icache fuel (pageOf address) (offsetOf address) size =
      some (code image address size) := by
  induction fuel generalizing address size with
  | zero =>
      obtain rfl : size = 0 := by omega
      rfl
  | succ fuel ih =>
      cases size with
      | zero => rfl
      | succ size =>
          have inPage := offsetOf_lt address
          obtain ⟨page, isPage, -⟩ := held 0 (by omega)
          rw [BitVec.add_zero] at isPage
          rw [Reader.gather, isPage]
          simp only [Option.bind_eq_bind, Option.bind_some, Option.pure_def]
          generalize isCount :
            min (size + 1) (4096 - offsetOf address) = count
          have first := copyOut_held count isPage (by omega)
            (fun offset inRange => held offset (by omega))
          have more : Reader.gather icache fuel (pageOf address + 4096) 0
              (size + 1 - count) = some (code image
                (address + BitVec.ofNat 64 count) (size + 1 - count)) := by
            by_cases last : count = size + 1
            · rw [last, Nat.sub_self]
              cases fuel <;> rfl
            · obtain ⟨nextPage, start⟩ := pageOf_next address
                count (by omega)
              rw [← nextPage, ← start]
              apply ih (by omega)
              intro offset inRange
              rw [BitVec.add_assoc, ← BitVec.ofNat_add]
              exact held (count + offset) (by omega)
          have all : size + 1 = count + (size + 1 - count) := by omega
          rw [more, Option.bind_some, first, ← code_add, ← all]

/-! ## Pages that are sent -/

theorem Held.update_of_correct {address base : BitVec 64} {page : Nat → Byte}
    (held : Held image icache address)
    (correct : pageOf address = base →
      page (offsetOf address) = image address) :
    Held image (update icache base (some page)) address := by
  by_cases same : pageOf address = base
  · refine ⟨page, ?_, correct same⟩
    rw [same, update_self]
  · obtain ⟨other, isOther, byte⟩ := held
    refine ⟨other, ?_, byte⟩
    rw [update_of_ne same, isOther]

/-- Pages are only written with the code of their addresses. -/
def Extends (image : BitVec 64 → Byte)
    (icache next : BitVec 64 → Option (Nat → Byte)) : Prop :=
  ∀ address, Held image icache address → Held image next address

theorem Extends.refl (image : BitVec 64 → Byte)
    (icache : BitVec 64 → Option (Nat → Byte)) :
    Extends image icache icache :=
  fun _ held => held

theorem Extends.trans {second third : BitVec 64 → Option (Nat → Byte)}
    (one : Extends image icache second) (other : Extends image second third) :
    Extends image icache third :=
  fun address held => other address (one address held)

/-- The part of some code that lies on the page of its first byte. -/
theorem extends_copyIn (image : BitVec 64 → Byte)
    (icache : BitVec 64 → Option (Nat → Byte)) (unset : Nat → Byte)
    (address : BitVec 64) (count : Nat) (within : offsetOf address + count ≤ 4096) :
    let page := copyIn ((icache (pageOf address)).getD unset)
      (offsetOf address) (code image address count)
    Extends image icache (update icache (pageOf address) (some page)) ∧
      ∀ offset < count, Held image
        (update icache (pageOf address) (some page))
        (address + BitVec.ofNat 64 offset) := by
  intro page
  have written : ∀ offset < count,
      page (offsetOf address + offset) =
        image (address + BitVec.ofNat 64 offset) := by
    intro offset inRange
    change copyIn _ _ _ _ = _
    rw [copyIn, if_pos (Nat.le_add_right _ _), Nat.add_sub_cancel_left, code,
      List.getElem?_map, List.getElem?_range inRange]
    rfl
  constructor
  · intro other held
    apply held.update_of_correct
    intro same
    by_cases inside : offsetOf address ≤ offsetOf other ∧
        offsetOf other < offsetOf address + count
    · have place := eq_add_of_pageOf same inside.1
      have byte := written (offsetOf other - offsetOf address) (by omega)
      rw [Nat.add_sub_cancel' inside.1, ← place] at byte
      exact byte
    · obtain ⟨old, isOld, byte⟩ := held
      change copyIn _ _ _ _ = _
      rw [copyIn_of_outside _ (by rw [length_code]; omega), ← same, isOld]
      exact byte
  · intro offset inRange
    obtain ⟨same, place⟩ := pageOf_add address offset (by omega)
    refine ⟨page, ?_, ?_⟩
    · rw [same, update_self]
    · rw [place]
      exact written offset inRange

theorem take_code (image : BitVec 64 → Byte) (address : BitVec 64)
    {count first : Nat} (fits : first ≤ count) :
    (code image address count).take first = code image address first := by
  rw [code, ← List.map_take, List.take_range, Nat.min_eq_left fits]
  rfl

theorem drop_code (image : BitVec 64 → Byte) (address : BitVec 64)
    {count first : Nat} (fits : first ≤ count) :
    (code image address count).drop first =
      code image (address + BitVec.ofNat 64 first) (count - first) := by
  obtain ⟨rest, rfl⟩ := Nat.exists_eq_add_of_le fits
  rw [code_add, List.drop_left' (length_code image address first),
    Nat.add_sub_cancel_left]

/-- The reader spreads the code of an instruction over its pages. -/
theorem spread_code (image : BitVec 64 → Byte) (unset : Nat → Byte)
    {fuel count : Nat}
    (enough : count ≤ fuel) (address : BitVec 64)
    (icache : BitVec 64 → Option (Nat → Byte)) :
    ∃ next, Reader.spread unset fuel address (code image address count)
        icache = some next ∧ Extends image icache next ∧
      ∀ offset < count, Held image next (address + BitVec.ofNat 64 offset) := by
  induction fuel generalizing address count icache with
  | zero =>
      obtain rfl : count = 0 := by omega
      refine ⟨icache, rfl, Extends.refl _ _, ?_⟩
      intro offset inRange
      omega
  | succ fuel ih =>
      cases isBytes : code image address count with
      | nil =>
          have length := congrArg List.length isBytes
          rw [length_code, List.length_nil] at length
          refine ⟨icache, rfl, Extends.refl _ _, ?_⟩
          intro offset inRange
          omega
      | cons byte more =>
          have inPage := offsetOf_lt address
          have length := congrArg List.length isBytes
          rw [length_code] at length
          rw [Reader.spread, ← isBytes, length_code]
          generalize isFirst : min count (4096 - offsetOf address) = first
          rw [take_code _ _ (by omega), drop_code _ _ (by omega)]
          obtain ⟨grows, onPage⟩ := extends_copyIn image icache unset
            address first (by omega)
          by_cases last : first = count
          · subst last
            rw [Nat.sub_self]
            refine ⟨_, ?_, grows, onPage⟩
            cases fuel <;> rfl
          · obtain ⟨nextPage, start⟩ := pageOf_next address first
              (by omega)
            rw [pageOf_of_offset_zero start] at nextPage
            rw [← nextPage]
            have fewer : count - first ≤ fuel := by omega
            obtain ⟨next, isNext, further, held⟩ := ih fewer
              (address + BitVec.ofNat 64 first)
              (update icache (pageOf address) (some (copyIn
                ((icache (pageOf address)).getD unset) (offsetOf address)
                (code image address first))))
            refine ⟨next, isNext, grows.trans further, ?_⟩
            intro offset inRange
            by_cases early : offset < first
            · exact further _ (onPage offset early)
            · have later := held (offset - first) (by omega)
              rw [BitVec.add_assoc, ← BitVec.ofNat_add,
                Nat.add_sub_cancel' (by omega)] at later
              exact later

/-- A page that is sent as a whole. -/
theorem extends_page (image : BitVec 64 → Byte)
    (icache : BitVec 64 → Option (Nat → Byte)) (unset : Nat → Byte)
    {base : BitVec 64} (start : offsetOf base = 0) :
    let next := update icache base
      (some (copyIn unset 0 (code image base 4096)))
    Extends image icache next ∧
      ∀ address, pageOf address = base → Held image next address := by
  intro next
  have correct : ∀ address, pageOf address = base →
      copyIn unset 0 (code image base 4096) (offsetOf address) =
        image address := by
    intro address same
    have aligned := pageOf_of_offset_zero start
    have place : address =
        base + BitVec.ofNat 64 (offsetOf address - offsetOf base) :=
      eq_add_of_pageOf (by rw [same, aligned]) (by omega)
    rw [start, Nat.sub_zero] at place
    rw [copyIn, if_pos (Nat.zero_le _), Nat.sub_zero, code,
      List.getElem?_map, List.getElem?_range (offsetOf_lt address)]
    exact congrArg image place.symm
  constructor
  · intro address held
    exact held.update_of_correct (correct address)
  · intro address same
    refine ⟨_, ?_, correct address same⟩
    rw [same]
    exact update_self _ _ _

/-! ## Static instructions -/

variable {sizes : BitVec 64 → Nat} {reader : Reader}

/-- A static instruction is what was written at its address. -/
structure Decoded (image : BitVec 64 → Byte) (sizes : BitVec 64 → Nat)
    (sinst : StaticInstruction) : Prop where
  size : sinst.size = sizes sinst.addr
  data : sinst.data = code image sinst.addr sinst.size

/-- The heap holds decoded instructions, and the places that the reader has
kept are places of it. -/
structure Statics (image : BitVec 64 → Byte) (sizes : BitVec 64 → Nat)
    (reader : Reader) : Prop where
  decoded : ∀ sinst ∈ reader.heap, Decoded image sizes sinst
  known : ∀ addr place, reader.scache addr = some place →
    ∃ sinst, reader.heap[place]? = some sinst ∧ sinst.addr = addr
  last : ∀ place, reader.lastSinst = some place → place < reader.heap.length

theorem Statics.start : Statics image sizes {} where
  decoded := by
    intro sinst member
    cases member
  known := by
    intro addr place isSome
    cases isSome
  last := by
    intro place isSome
    cases isSome

theorem Statics.of_same {next : Reader} (statics : Statics image sizes reader)
    (heap : next.heap = reader.heap) (scache : next.scache = reader.scache)
    (lastSinst : next.lastSinst = reader.lastSinst) :
    Statics image sizes next where
  decoded := by
    rw [heap]
    exact statics.decoded
  known := by
    rw [heap, scache]
    exact statics.known
  last := by
    rw [heap, lastSinst]
    exact statics.last

theorem probable_addr {addr : BitVec 64} {place : Nat}
    (found : reader.probable addr = some place) :
    ∃ sinst, reader.heap[place]? = some sinst ∧ sinst.addr = addr := by
  rw [Reader.probable] at found
  simp only [Option.bind_eq_bind, Option.bind_eq_some_iff] at found
  obtain ⟨last, -, sinst, -, next, -, target, isTarget, test⟩ := found
  split at test
  next same =>
    cases test
    exact ⟨target, isTarget, same⟩
  · cases test

theorem Statics.remember (statics : Statics image sizes reader)
    {sinst : StaticInstruction} (isDecoded : Decoded image sizes sinst) :
    Statics image sizes (reader.remember sinst.addr sinst) where
  decoded := by
    intro other member
    cases List.mem_append.mp member with
    | inl old => exact statics.decoded other old
    | inr new =>
        rw [List.mem_singleton] at new
        rw [new]
        exact isDecoded
  known := by
    intro addr place isPlace
    by_cases same : addr = sinst.addr
    · subst same
      simp only [Reader.remember, update_self] at isPlace
      cases isPlace
      exact ⟨sinst, List.getElem?_concat_length, rfl⟩
    · simp only [Reader.remember, update_of_ne same] at isPlace
      obtain ⟨other, isOther, isAddr⟩ := statics.known addr place isPlace
      obtain ⟨inRange, -⟩ := List.getElem?_eq_some_iff.mp isOther
      refine ⟨other, ?_, isAddr⟩
      rw [Reader.remember, List.getElem?_append_left inRange]
      exact isOther
  last := by
    intro place isLast
    rw [Reader.remember, List.length_append]
    exact Nat.lt_add_right _ (statics.last place isLast)

/-- What the search for a static instruction leaves as it was. -/
structure SameBeside (reader next : Reader) : Prop where
  traceHasPa : next.traceHasPa = reader.traceHasPa
  lastAddress : next.lastAddress = reader.lastAddress
  icache : next.icache = reader.icache
  vcache : next.vcache = reader.vcache
  isa : next.isa = reader.isa

theorem SameBeside.refl (reader : Reader) : SameBeside reader reader :=
  ⟨rfl, rfl, rfl, rfl, rfl⟩

/-- The instruction at an address whose code is there is found, or decoded. -/
theorem Statics.findSinst (statics : Statics image sizes reader)
    {addr : BitVec 64} (held : ∀ offset < sizes addr,
      Held image reader.icache (addr + BitVec.ofNat 64 offset)) :
    ∃ place next, reader.findSinst addr (sizes addr) = some (place, next) ∧
      Statics image sizes next ∧ SameBeside reader next ∧
      ∃ sinst, next.heap[place]? = some sinst ∧ sinst.addr = addr := by
  rw [Reader.findSinst]
  cases isProbable : reader.probable addr with
  | some place =>
      exact ⟨place, reader, rfl, statics, SameBeside.refl reader,
        probable_addr isProbable⟩
  | none =>
      cases isKnown : reader.scache addr with
      | some place =>
          obtain ⟨sinst, isSinst, isAddr⟩ := statics.known addr place isKnown
          have isDecoded := statics.decoded sinst
            (List.mem_of_getElem? isSinst)
          have size : sinst.size = sizes addr := by
            rw [isDecoded.size, isAddr]
          refine ⟨place, reader, ?_, statics, SameBeside.refl reader, sinst,
            isSinst, isAddr⟩
          simp only [isSinst, Option.bind_eq_bind, Option.bind_some,
            if_pos size]
      | none =>
          have data := gather_held (Nat.le_refl (sizes addr)) held
          let sinst : StaticInstruction :=
            ⟨addr, sizes addr, code image addr (sizes addr), none⟩
          refine ⟨reader.heap.length, reader.remember addr sinst, ?_,
            statics.remember ⟨rfl, rfl⟩, ⟨rfl, rfl, rfl, rfl, rfl⟩, sinst,
            List.getElem?_concat_length, rfl⟩
          simp only [Reader.staticInfoInstruction, data,
            Option.bind_eq_bind, Option.bind_some, Option.pure_def]
          rfl

theorem setNext_addr (place : Nat) (sinst : StaticInstruction) :
    (Reader.setNext place sinst).addr = sinst.addr ∧
      (Reader.setNext place sinst).size = sinst.size ∧
      (Reader.setNext place sinst).data = sinst.data := by
  rw [Reader.setNext]
  split <;> exact ⟨rfl, rfl, rfl⟩

/-- A link changes no instruction beside its link. -/
theorem link_get (place index : Nat) {sinst : StaticInstruction}
    (isSinst : reader.heap[index]? = some sinst) :
    ∃ linked, (reader.link place).heap[index]? = some linked ∧
      linked.addr = sinst.addr ∧ linked.size = sinst.size ∧
      linked.data = sinst.data := by
  rw [Reader.link]
  cases reader.lastSinst with
  | none => exact ⟨sinst, isSinst, rfl, rfl, rfl⟩
  | some last =>
      simp only [List.getElem?_modify, isSinst]
      by_cases same : last = index
      · refine ⟨Reader.setNext place sinst, ?_, setNext_addr place sinst⟩
        simp [same]
      · refine ⟨sinst, ?_, rfl, rfl, rfl⟩
        simp [same]

theorem link_mem (place : Nat) {linked : StaticInstruction}
    (member : linked ∈ (reader.link place).heap) :
    ∃ sinst ∈ reader.heap, linked.addr = sinst.addr ∧
      linked.size = sinst.size ∧ linked.data = sinst.data := by
  obtain ⟨index, isLinked⟩ := List.mem_iff_getElem?.mp member
  have length : (reader.link place).heap.length = reader.heap.length := by
    rw [Reader.link]
    cases reader.lastSinst with
    | none => rfl
    | some last => exact List.length_modify _ _ _
  obtain ⟨inRange, -⟩ := List.getElem?_eq_some_iff.mp isLinked
  rw [length] at inRange
  have isSinst := List.getElem?_eq_getElem inRange
  obtain ⟨other, isOther, same⟩ := link_get place index isSinst
  rw [isLinked] at isOther
  cases isOther
  exact ⟨_, List.getElem_mem inRange, same⟩

theorem Statics.link (statics : Statics image sizes reader) {place : Nat}
    (inRange : place < reader.heap.length) :
    Statics image sizes (reader.link place) where
  decoded := by
    intro linked member
    obtain ⟨sinst, isSinst, addr, size, data⟩ := link_mem place member
    have isDecoded := statics.decoded sinst isSinst
    constructor
    · rw [size, addr, isDecoded.size]
    · rw [data, addr, size, isDecoded.data]
  known := by
    intro addr index isPlace
    have same : (reader.link place).scache = reader.scache := by
      rw [Reader.link]
      cases reader.lastSinst <;> rfl
    rw [same] at isPlace
    obtain ⟨sinst, isSinst, isAddr⟩ := statics.known addr index isPlace
    obtain ⟨linked, isLinked, linkedAddr, -⟩ := link_get place index isSinst
    exact ⟨linked, isLinked, linkedAddr.trans isAddr⟩
  last := by
    intro index isLast
    rw [Reader.link] at isLast ⊢
    cases isNone : reader.lastSinst with
    | none =>
        rw [isNone] at isLast
        cases isLast
        exact inRange
    | some last =>
        rw [isNone] at isLast
        cases isLast
        simp only [List.length_modify]
        exact inRange

/-- The reader gets the static instruction that was written. -/
theorem Statics.getStaticInstruction (statics : Statics image sizes reader)
    {addr : BitVec 64} (held : ∀ offset < sizes addr,
      Held image reader.icache (addr + BitVec.ofNat 64 offset)) :
    ∃ sinst next,
      reader.getStaticInstruction addr (sizes addr) = some (sinst, next) ∧
      sinst.addr = addr ∧ sinst.size = sizes addr ∧
      sinst.data = code image addr (sizes addr) ∧
      Statics image sizes next ∧ SameBeside reader next := by
  obtain ⟨place, found, isFound, foundStatics, beside, sinst, isSinst,
    isAddr⟩ := statics.findSinst held
  obtain ⟨linked, isLinked, linkedAddr, -⟩ := link_get place place isSinst
  obtain ⟨inRange, -⟩ := List.getElem?_eq_some_iff.mp isSinst
  have linkedStatics := foundStatics.link inRange
  have isDecoded := linkedStatics.decoded linked
    (List.mem_of_getElem? isLinked)
  have addrs := linkedAddr.trans isAddr
  have size : linked.size = sizes addr := by
    rw [isDecoded.size, addrs]
  refine ⟨linked, found.link place, ?_, addrs, size, ?_, linkedStatics, ?_⟩
  · simp only [Reader.getStaticInstruction, isFound, isLinked,
      Option.bind_eq_bind, Option.bind_some, Option.pure_def]
  · rw [isDecoded.data, addrs, size]
  · obtain ⟨traceHasPa, lastAddress, icache, vcache, isa⟩ := beside
    rw [Reader.link]
    cases found.lastSinst <;>
      exact ⟨traceHasPa, lastAddress, icache, vcache, isa⟩

end ChipletSniper.Sift.Trace
