import ChipletSniper.Sift.TraceTurns

/-!
# Round trip of traces

Whatever calls a trace is written from, the reader returns the instructions
and makes the callbacks of these calls, in their order.
-/

namespace ChipletSniper.Sift.Trace

open Library Function

variable {unset : Nat → Byte}

/-! ## Turns one after the other -/

/-- The turns over some records, and what the calls of `Read` show of them. -/
inductive Reads (unset : Nat → Byte) :
    Nat → Reader → List Byte → List Reader.Item → Reader → Prop
  | nil (reader : Reader) : Reads unset 0 reader [] [] reader
  | skip {count : Nat} {reader middle last : Reader} {bytes more : List Byte}
      {items : List Reader.Item}
      (turn : Turn unset reader bytes .skipped middle)
      (later : Reads unset count middle more items last) :
      Reads unset (count + 1) reader (bytes ++ more) items last
  | callback {count : Nat} {reader middle last : Reader}
      {bytes more : List Byte} {items : List Reader.Item}
      {callback : Callback}
      (turn : Turn unset reader bytes (.callback callback) middle)
      (later : Reads unset count middle more items last) :
      Reads unset (count + 1) reader (bytes ++ more)
        (.callback callback :: items) last
  | instruction {count : Nat} {reader middle last : Reader}
      {bytes more : List Byte} {items : List Reader.Item}
      {instruction : Instruction}
      (turn : Turn unset reader bytes (.instruction instruction) middle)
      (later : Reads unset count middle more items last) :
      Reads unset (count + 1) reader (bytes ++ more)
        (Reader.itemOf middle instruction :: items) last

section Reads

variable {reader middle last : Reader} {bytes more : List Byte}
  {items others : List Reader.Item} {count further : Nat}

theorem Reads.append (reads : Reads unset count reader bytes items middle)
    (later : Reads unset further middle more others last) :
    Reads unset (count + further) reader (bytes ++ more) (items ++ others)
      last := by
  induction reads with
  | nil reader =>
      rw [Nat.zero_add]
      exact later
  | skip turn _ ih =>
      rw [Nat.succ_add, List.append_assoc]
      exact .skip turn (ih later)
  | callback turn _ ih =>
      rw [Nat.succ_add, List.append_assoc]
      exact .callback turn (ih later)
  | instruction turn _ ih =>
      rw [Nat.succ_add, List.append_assoc]
      exact .instruction turn (ih later)

theorem Reads.one_skipped (turn : Turn unset reader bytes .skipped middle) :
    Reads unset 1 reader bytes [] middle := by
  have reads := Reads.skip turn (.nil middle)
  rw [List.append_nil] at reads
  exact reads

theorem read_succ {fuel : Nat} {input : List Byte}
    {result : Option Instruction × List Callback × Reader × List Byte}
    (isRead : Reader.read unset fuel reader input = some result) :
    Reader.read unset (fuel + 1) reader input = some result := by
  induction fuel generalizing reader input result with
  | zero => cases isRead
  | succ fuel ih =>
      rw [Reader.read] at isRead ⊢
      split at isRead
      next => exact ih isRead
      next =>
        simp only [Option.bind_eq_bind, Option.bind_eq_some_iff] at isRead ⊢
        obtain ⟨inner, isInner, same⟩ := isRead
        exact ⟨inner, ih isInner, same⟩
      next => exact isRead
      next => exact isRead
      · cases isRead
      · cases isRead

theorem readAll_succ {fuel : Nat} {input : List Byte}
    (isRead : Reader.readAll unset fuel reader input = some items) :
    Reader.readAll unset (fuel + 1) reader input = some items := by
  induction fuel generalizing reader input items with
  | zero => cases isRead
  | succ fuel ih =>
      rw [Reader.readAll] at isRead ⊢
      simp only [Option.bind_eq_bind, Option.bind_eq_some_iff] at isRead ⊢
      obtain ⟨⟨result, callbacks, after, rest⟩, isFirst, same⟩ := isRead
      refine ⟨_, read_succ isFirst, ?_⟩
      cases result with
      | none => exact same
      | some instruction =>
          simp only [Option.bind_eq_some_iff] at same ⊢
          obtain ⟨later, isLater, same⟩ := same
          exact ⟨later, ih isLater, same⟩

/-- A record that is skipped or called back belongs to the call of `Read` that
goes on behind it. -/
theorem readAll_silent {fuel : Nat} {input rest : List Byte}
    (callbacks : List Callback)
    (first : ∀ fuel, Reader.read unset (fuel + 1) reader input =
      (Reader.read unset fuel middle rest).map
        fun result => (result.1, callbacks ++ result.2.1, result.2.2))
    (later : Reader.readAll unset fuel middle rest = some items) :
    Reader.readAll unset (fuel + 1) reader input =
      some (callbacks.map .callback ++ items) := by
  cases fuel with
  | zero => cases later
  | succ fuel =>
      rw [Reader.readAll] at later ⊢
      simp only [Option.bind_eq_bind, Option.bind_eq_some_iff] at later ⊢
      obtain ⟨⟨result, behind, after, left⟩, isFirst, same⟩ := later
      refine ⟨_, by rw [first, isFirst]; rfl, ?_⟩
      cases result with
      | none =>
          cases same
          simp only [List.map_append, Option.pure_def]
      | some instruction =>
          simp only [Option.bind_eq_some_iff] at same ⊢
          obtain ⟨final, isFinal, same⟩ := same
          refine ⟨final, readAll_succ isFinal, ?_⟩
          cases same
          simp only [List.map_append, List.append_assoc, Option.pure_def]

theorem Reads.readAll {fuel : Nat} {rest : List Byte}
    (reads : Reads unset count reader bytes items last)
    (later : Reader.readAll unset fuel last rest = some others) :
    Reader.readAll unset (fuel + count) reader (bytes ++ rest) =
      some (items ++ others) := by
  induction reads with
  | nil reader => exact later
  | skip turn _ ih =>
      rw [List.append_assoc]
      apply readAll_silent [] _ (ih later)
      intro fuel
      rw [Reader.read, turn]
      simp
  | @callback _ _ _ _ _ _ _ callback turn _ ih =>
      rw [List.append_assoc]
      apply readAll_silent [callback] _ (ih later)
      intro fuel
      rw [Reader.read, turn, Option.map_eq_bind]
      rfl
  | @instruction _ _ _ _ _ _ _ instruction turn _ ih =>
      have remaining := ih later
      rw [← Nat.add_assoc, Reader.readAll, Reader.read, List.append_assoc,
        turn]
      simp only [Option.bind_eq_bind, Option.bind_some, remaining,
        Option.pure_def]
      rfl

end Reads

/-! ## What should be read -/

/-- What the reader has been told, apart from code. -/
structure View where
  isa : BitVec 32 := 0
  known : BitVec 64 → Option (BitVec 64) := fun _ => none

variable (options : Options) (image : BitVec 64 → Byte)

/-- The physical page of an address is told once, when it is first known. -/
def View.learn (pages : BitVec 64 → BitVec 64) (view : View)
    (va : BitVec 64) : View :=
  let vp := va / 4096
  if options.sendVa2paMapping = true ∧ view.known vp = none ∧ pages vp ≠ 0 then
    { view with known := update view.known vp (some (pages vp)) }
  else view

/-- The physical address, or zero if the page has not been told. -/
def View.physical (view : View) (va : BitVec 64) : BitVec 64 :=
  if options.sendVa2paMapping then
    match view.known (va / 4096) with
    | none => 0
    | some pp => (pp * 4096) ||| (va &&& 4095)
  else va

def View.after (pages : BitVec 64 → BitVec 64) (view : View) : Call → View
  | .instruction call =>
      (call.addr :: call.addresses).foldl (View.learn options pages) view
  | .cacheOnly _ _ eip address =>
      [eip, address].foldl (View.learn options pages) view
  | .isaChange newIsa => { view with isa := newIsa }
  | .output .. => view
  | .routineChange .. => view
  | .routineAnnounce .. => view

/-- What a call is read as, with the view behind it. -/
def View.items (view : View) : Call → List Reader.Item
  | .instruction call =>
      [.instruction {
          addr := call.addr, size := call.size
          data := code image call.addr call.size
          addresses := call.addresses
          isBranch := call.isBranch, taken := call.taken
          isPredicate := call.isPredicate, executed := call.executed
          isa := view.isa }
        ((call.addr :: call.addresses).map (view.physical options))]
  | .cacheOnly icount type eip address =>
      [.callback (.cacheOnly icount type.code eip address)]
  | .output fd data => [.callback (.output fd data)]
  | .isaChange _ => []
  | .routineChange event eip esp callEip =>
      [.callback (.routineChange event.code eip esp callEip)]
  | .routineAnnounce eip name imgname offset line column filename =>
      [.callback (.routineAnnounce eip name imgname offset line column
        filename)]

/-- What a trace is read as. -/
def View.trace (view : View) :
    List ((BitVec 64 → BitVec 64) × Call) → List Reader.Item
  | [] => []
  | (pages, call) :: rest =>
      let after := view.after options pages call
      after.items options image call ++ after.trace rest

/-! ## Calls that are accepted -/

/-- An instruction of at least one byte, which is not predicated or executed,
has always the same size, and ends before the last page. -/
structure InstructionCall.Accepted (sizes : BitVec 64 → Nat)
    (call : InstructionCall) : Prop where
  positive : 0 < call.size
  small : call.size < 16
  addresses : call.addresses.length ≤ 2
  executed : call.isPredicate = true ∨ call.executed = true
  size : call.size = sizes call.addr
  below : options.requiresIcachePerInsn = false →
    call.addr.toNat + call.size ≤ 2 ^ 64 - 4096

def Call.Accepted (sizes : BitVec 64 → Nat) : Call → Prop
  | .instruction call => call.Accepted options sizes
  | .output _ data => data ≠ [] ∧ data.length + 1 < 2 ^ 32
  | .routineAnnounce _ name imgname _ _ _ filename =>
      IsText name ∧ IsText imgname ∧ IsText filename
  | .cacheOnly .. => True
  | .isaChange _ => True
  | .routineChange .. => True

/-! ## Agreement of writer and reader -/

variable {options image} {sizes : BitVec 64 → Nat} {writer : Writer}
  {reader : Reader} {view : View}

/-- The code that is marked as sent is held by the reader. -/
def Marked (options : Options) (image : BitVec 64 → Byte)
    (sizes : BitVec 64 → Nat) (writer : Writer) (reader : Reader) : Prop :=
  if options.requiresIcachePerInsn then
    ∀ addr, writer.icache addr = true → ∀ offset < sizes addr,
      Held image reader.icache (addr + BitVec.ofNat 64 offset)
  else
    ∀ addr, writer.icache (pageOf addr) = true →
      Held image reader.icache addr

structure Agree (options : Options) (image : BitVec 64 → Byte)
    (sizes : BitVec 64 → Nat) (writer : Writer) (reader : Reader)
    (view : View) : Prop where
  lastAddress : reader.lastAddress = writer.lastAddress
  traceHasPa : reader.traceHasPa = options.sendVa2paMapping
  isa : reader.isa = view.isa
  vcache : reader.vcache = view.known
  va2pa : ∀ vp, writer.va2pa vp = (view.known vp).isSome
  marked : Marked options image sizes writer reader
  statics : Statics image sizes reader

/-- The reader translates with what it has been told. -/
theorem Agree.physical (agree : Agree options image sizes writer reader view)
    (va : BitVec 64) : reader.va2pa va = view.physical options va := by
  rw [View.physical, ← agree.traceHasPa, ← agree.vcache]
  rfl

/-! ### Mappings -/

variable (unset)

theorem Agree.sendVa2pa (agree : Agree options image sizes writer reader view)
    (pages : BitVec 64 → BitVec 64) (va : BitVec 64) :
    ∃ count last,
      Reads unset count reader
        ((Writer.sendVa2pa options pages va writer).1.flatMap Record.bytes)
        [] last ∧
      last = { reader with vcache := last.vcache } ∧
      Agree options image sizes (Writer.sendVa2pa options pages va writer).2
        last (view.learn options pages va) := by
  have told := agree.va2pa (va / 4096)
  by_cases isNew : options.sendVa2paMapping = true ∧
      view.known (va / 4096) = none ∧ pages (va / 4096) ≠ 0
  · obtain ⟨send, unknown, present⟩ := isNew
    rw [unknown, Option.isSome_none] at told
    have learned : view.learn options pages va = { view with
        known := update view.known (va / 4096)
          (some (pages (va / 4096))) } :=
      if_pos ⟨send, unknown, present⟩
    have sent : Writer.sendVa2pa options pages va writer =
        ([.other .logical2Physical 16
          (encode 8 (va / 4096) ++ encode 8 (pages (va / 4096)))],
        { writer with va2pa := update writer.va2pa (va / 4096) true }) := by
      simp only [Writer.sendVa2pa, send, told, present, if_true, if_false,
        Bool.false_eq_true]
    rw [learned, sent]
    refine ⟨1, { reader with
      vcache := update reader.vcache (va / 4096)
        (some (pages (va / 4096))) }, .one_skipped ?_, rfl, ?_⟩
    · simp only [List.flatMap_cons, List.flatMap_nil, List.append_nil]
      exact turn_logical2Physical _ _
    · refine ⟨agree.lastAddress, agree.traceHasPa, agree.isa, ?_, ?_, ?_, ?_⟩
      · simp only [agree.vcache]
      · intro vp
        by_cases same : vp = va / 4096
        · rw [same]
          simp only [update_self]
          rfl
        · simp only [update_of_ne same]
          exact agree.va2pa vp
      · exact agree.marked
      · exact agree.statics.of_same rfl rfl rfl
  · have nothing : Writer.sendVa2pa options pages va writer =
        ([], writer) := by
      rw [Writer.sendVa2pa]
      cases send : options.sendVa2paMapping with
      | false => rfl
      | true =>
          cases known : view.known (va / 4096) with
          | some pp =>
              rw [known, Option.isSome_some] at told
              simp only [told, if_true]
          | none =>
              rw [known, Option.isSome_none] at told
              have absent : pages (va / 4096) = 0 := by
                by_contra present
                exact isNew ⟨send, known, present⟩
              simp only [told, absent, if_true, if_false,
                Bool.false_eq_true]
    rw [nothing, View.learn, if_neg isNew]
    exact ⟨0, reader, .nil reader, rfl, agree⟩

theorem Agree.sendAll (agree : Agree options image sizes writer reader view)
    (pages : BitVec 64 → BitVec 64) (addresses : List (BitVec 64)) :
    ∃ count last,
      Reads unset count reader
        ((Writer.sendAll options pages addresses writer).1.flatMap
          Record.bytes) [] last ∧
      last = { reader with vcache := last.vcache } ∧
      Agree options image sizes
        (Writer.sendAll options pages addresses writer).2 last
        (addresses.foldl (View.learn options pages) view) := by
  induction addresses generalizing writer reader view with
  | nil => exact ⟨0, reader, .nil reader, rfl, agree⟩
  | cons va rest ih =>
      obtain ⟨count, middle, reads, same, middleAgree⟩ :=
        agree.sendVa2pa unset pages va
      obtain ⟨further, last, later, lastSame, lastAgree⟩ :=
        ih middleAgree
      refine ⟨count + further, last, ?_, ?_, lastAgree⟩
      · simp only [Writer.sendAll, List.flatMap_append]
        exact reads.append later
      · rw [lastSame, same]

/-! ### Code -/

/-- The reader has the pages that the loop goes over. -/
theorem Agree.sendPages (agree : Agree options image sizes writer reader view)
    (byPage : options.requiresIcachePerInsn = false) (fuel : Nat)
    {base : BitVec 64} (start : offsetOf base = 0) (final : BitVec 64)
    (below : final.toNat + 4096 < 2 ^ 64)
    (enough : final.toNat < base.toNat + 4096 * fuel) :
    ∃ records next count last,
      Writer.sendPages image (fuel + 1) base final writer =
        some (records, next) ∧
      Reads unset count reader (records.flatMap Record.bytes) [] last ∧
      Agree options image sizes next last view ∧
      (∀ page, writer.icache page = true → next.icache page = true) ∧
      ∀ page, offsetOf page = 0 → base ≤ page → page ≤ final →
        next.icache page = true := by
  induction fuel generalizing base writer reader with
  | zero =>
      have stop : ¬ base ≤ final := by
        rw [BitVec.le_def]
        omega
      refine ⟨[], writer, 0, reader, ?_, .nil reader, agree,
        fun _ isMarked => isMarked, ?_⟩
      · rw [Writer.sendPages, if_neg stop]
      · intro page _ atLeast atMost
        exact absurd (BitVec.le_trans atLeast atMost) stop
  | succ fuel ih =>
      by_cases more : base ≤ final
      · have bound : base.toNat ≤ final.toNat := BitVec.le_def.mp more
        have next : (base + 4096).toNat = base.toNat + 4096 := by
          rw [BitVec.toNat_add]
          change (base.toNat + 4096) % 2 ^ 64 = _
          omega
        rw [offsetOf_eq] at start
        have startNext : offsetOf (base + 4096) = 0 := by
          rw [offsetOf_eq, next]
          omega
        have beyond : ∀ page, offsetOf page = 0 → base ≤ page →
            page ≠ base → base + 4096 ≤ page := by
          intro page aligned atLeast different
          rw [offsetOf_eq] at aligned
          rw [BitVec.le_def] at atLeast ⊢
          have differs : page.toNat ≠ base.toNat :=
            fun same => different (BitVec.eq_of_toNat_eq same)
          omega
        by_cases isMarked : writer.icache base = true
        · obtain ⟨records, after, count, last, sent, reads, lastAgree, keeps,
            all⟩ := ih agree startNext (by omega)
          refine ⟨records, after, count, last, ?_, reads, lastAgree, keeps,
            ?_⟩
          · rw [Writer.sendPages, if_pos more, if_pos isMarked]
            exact sent
          · intro page aligned atLeast atMost
            by_cases same : page = base
            · rw [same]
              exact keeps base isMarked
            · exact all page aligned (beyond page aligned atLeast same) atMost
        · obtain ⟨grows, fills⟩ := extends_page image
            reader.icache unset (by rw [offsetOf_eq]; exact start)
          have marked := agree.marked
          simp only [Marked, byPage, Bool.false_eq_true, if_false] at marked
          have sentAgree : Agree options image sizes
              { writer with icache := update writer.icache base true }
              { reader with
                icache := update reader.icache base
                  (some (copyIn unset 0 (code image base 4096))) } view := by
            refine ⟨agree.lastAddress, agree.traceHasPa, agree.isa,
              agree.vcache, agree.va2pa, ?_, agree.statics.of_same rfl rfl rfl⟩
            simp only [Marked, byPage, Bool.false_eq_true, if_false]
            intro addr isMarked
            by_cases same : pageOf addr = base
            · exact fills addr same
            · rw [update_of_ne same] at isMarked
              exact grows addr (marked addr isMarked)
          obtain ⟨records, after, count, last, sent, reads, lastAgree, keeps,
            all⟩ := ih sentAgree startNext (by omega)
          refine ⟨Writer.icacheRecord image base :: records, after, count + 1,
            last, ?_, .skip (turn_icache image base) reads, lastAgree, ?_, ?_⟩
          · rw [Writer.sendPages, if_pos more, if_neg isMarked, sent]
            rfl
          · intro page isMarked
            apply keeps
            by_cases same : page = base
            · rw [same]
              exact update_self _ _ _
            · exact (update_of_ne same _ _).trans isMarked
          · intro page aligned atLeast atMost
            by_cases same : page = base
            · rw [same]
              exact keeps base (update_self _ _ _)
            · exact all page aligned (beyond page aligned atLeast same) atMost
      · refine ⟨[], writer, 0, reader, ?_, .nil reader, agree,
          fun _ isMarked => isMarked, ?_⟩
        · rw [Writer.sendPages, if_neg more]
        · intro page _ atLeast atMost
          exact absurd (BitVec.le_trans atLeast atMost) more

/-- The reader has the code of an instruction that was announced. -/
theorem Agree.sendIcache (agree : Agree options image sizes writer reader view)
    {call : InstructionCall} (accepted : call.Accepted options sizes)
    {fuel : Nat} (enough : 3 ≤ fuel) :
    ∃ records next count last,
      Writer.sendIcache options image fuel call.addr call.size writer =
        some (records, next) ∧
      Reads unset count reader (records.flatMap Record.bytes) [] last ∧
      Agree options image sizes next last view ∧
      ∀ offset < call.size,
        Held image last.icache (call.addr + BitVec.ofNat 64 offset) := by
  cases mode : options.requiresIcachePerInsn with
  | true =>
      have marked := agree.marked
      simp only [Marked, mode, if_true] at marked
      by_cases isMarked : writer.icache call.addr = true
      · refine ⟨[], writer, 0, reader, ?_, .nil reader, agree, ?_⟩
        · simp only [Writer.sendIcache, mode, if_true, isMarked]
        · intro offset inRange
          rw [accepted.size] at inRange
          exact marked call.addr isMarked offset inRange
      · obtain ⟨icache, spreads, grows, held⟩ := spread_code image unset
          (Nat.le_refl call.size) call.addr reader.icache
        have turn : Turn unset reader (Record.other .icacheVariable
            (8 + BitVec.ofNat 32 call.size) (encode 8 call.addr ++
              code image call.addr call.size)).bytes .skipped
            { reader with icache := icache } :=
          turn_icacheVariable call.addr (length_code _ _ _) accepted.small
            spreads
        refine ⟨[.other .icacheVariable (8 + BitVec.ofNat 32 call.size)
            (encode 8 call.addr ++ code image call.addr call.size)],
          { writer with icache := update writer.icache call.addr true }, 1,
          { reader with icache := icache }, ?_, .one_skipped ?_, ?_, held⟩
        · simp only [Writer.sendIcache, mode, if_true, isMarked]
          rfl
        · simp only [List.flatMap_cons, List.flatMap_nil, List.append_nil]
          exact turn
        · refine ⟨agree.lastAddress, agree.traceHasPa, agree.isa,
            agree.vcache, agree.va2pa, ?_, agree.statics.of_same rfl rfl rfl⟩
          simp only [Marked, mode, if_true]
          intro addr wasMarked offset inRange
          by_cases same : addr = call.addr
          · subst same
            rw [← accepted.size] at inRange
            exact held offset inRange
          · rw [update_of_ne same] at wasMarked
            exact grows _ (marked addr wasMarked offset inRange)
  | false =>
      have below := accepted.below mode
      have positive := accepted.positive
      have small := accepted.small
      obtain ⟨more, rfl⟩ := Nat.exists_eq_add_of_le enough
      have final : (pageOf (call.addr + BitVec.ofNat 64 call.size - 1)).toNat =
          (call.addr.toNat + call.size - 1) / 4096 * 4096 := by
        have less : call.addr + BitVec.ofNat 64 call.size - 1 =
            call.addr + BitVec.ofNat 64 (call.size - 1) := by
          obtain ⟨rest, isSize⟩ := Nat.exists_eq_add_of_le positive
          rw [isSize, Nat.add_comm, Nat.succ_eq_add_one, Nat.zero_add,
            Nat.add_sub_cancel, BitVec.ofNat_add, ← BitVec.add_assoc]
          exact BitVec.add_sub_cancel _ _
        have sum : (call.addr + BitVec.ofNat 64 (call.size - 1)).toNat =
            call.addr.toNat + call.size - 1 := by
          rw [BitVec.toNat_add, BitVec.toNat_ofNat]
          omega
        rw [less, toNat_pageOf, sum]
      have start : offsetOf (pageOf call.addr) = 0 := by
        rw [offsetOf_eq, toNat_pageOf]
        omega
      obtain ⟨records, next, count, last, sent, reads, lastAgree, -, all⟩ :=
        agree.sendPages unset mode (2 + more) start
          (pageOf (call.addr + BitVec.ofNat 64 call.size - 1))
          (by rw [final]; omega) (by rw [final, toNat_pageOf]; omega)
      refine ⟨records, next, count, last, ?_, reads, lastAgree, ?_⟩
      · have steps : 3 + more = 2 + more + 1 := by omega
        simp only [Writer.sendIcache, mode, Bool.false_eq_true, if_false,
          steps]
        exact sent
      · intro offset inRange
        have marked := lastAgree.marked
        simp only [Marked, mode, Bool.false_eq_true, if_false] at marked
        have sum : (call.addr + BitVec.ofNat 64 offset).toNat =
            call.addr.toNat + offset := by
          rw [BitVec.toNat_add, BitVec.toNat_ofNat]
          omega
        apply marked
        apply all
        · rw [offsetOf_eq, toNat_pageOf]
          omega
        · rw [BitVec.le_def, toNat_pageOf, toNat_pageOf, sum]
          omega
        · rw [BitVec.le_def, final, toNat_pageOf, sum]
          omega

/-! ### Instructions -/

/-- The end of `Read`, at an address whose code is held. -/
theorem run_readInstruction (statics : Statics image sizes reader)
    {addr : BitVec 64} {size : BitVec 4} (isSize : size.toNat = sizes addr)
    (held : ∀ offset < sizes addr,
      Held image reader.icache (addr + BitVec.ofNat 64 offset))
    {numAddresses : BitVec 2} {addresses : List (BitVec 64)}
    (count : numAddresses.toNat = addresses.length)
    (few : addresses.length ≤ 2)
    (isBranch taken isPredicate executed : Bool) :
    ∃ last, (∀ rest,
      (Reader.readInstruction reader addr size numAddresses isBranch taken
        isPredicate executed).run (addressBytes addresses ++ rest) =
      some ((last, .instruction {
        addr := addr, size := sizes addr
        data := code image addr (sizes addr)
        addresses := addresses, isBranch := isBranch, taken := taken
        isPredicate := isPredicate, executed := executed
        isa := reader.isa }), rest, [])) ∧
      Statics image sizes last ∧
      SameBeside { reader with
        lastAddress := addr + BitVec.ofNat 64 (sizes addr) } last := by
  have movedStatics : Statics image sizes { reader with
      lastAddress := addr + BitVec.ofNat 64 (sizes addr) } :=
    statics.of_same rfl rfl rfl
  obtain ⟨sinst, last, isSinst, isAddr, sinstSize, data, lastStatics,
    beside⟩ := movedStatics.getStaticInstruction held
  refine ⟨last, ?_, lastStatics, beside⟩
  intro rest
  rw [Reader.readInstruction, count, if_pos few, run_receiveAddresses]
  simp only [isSize, isSinst, isAddr, sinstSize, data, beside.isa]
  rfl

/-- Both sides go on behind the instruction. -/
theorem Agree.moved (agree : Agree options image sizes writer reader view)
    {last : Reader} (lastStatics : Statics image sizes last)
    {addr : BitVec 64}
    (beside : SameBeside { reader with lastAddress := addr } last) :
    Agree options image sizes { writer with lastAddress := addr } last
      view := by
  refine ⟨beside.lastAddress, beside.traceHasPa.trans agree.traceHasPa,
    beside.isa.trans agree.isa, beside.vcache.trans agree.vcache,
    agree.va2pa, ?_, lastStatics⟩
  have marked := agree.marked
  rw [Marked] at marked ⊢
  rw [beside.icache]
  exact marked

theorem Agree.sendInstruction
    (agree : Agree options image sizes writer reader view)
    {call : InstructionCall} (accepted : call.Accepted options sizes)
    (held : ∀ offset < call.size,
      Held image reader.icache (call.addr + BitVec.ofNat 64 offset)) :
    ∃ last,
      Turn unset reader (Writer.sendInstruction call writer).1.bytes
        (.instruction {
          addr := call.addr, size := call.size
          data := code image call.addr call.size
          addresses := call.addresses
          isBranch := call.isBranch, taken := call.taken
          isPredicate := call.isPredicate, executed := call.executed
          isa := view.isa }) last ∧
      Agree options image sizes (Writer.sendInstruction call writer).2 last
        view := by
  have small := accepted.small
  have positive := accepted.positive
  have few := accepted.addresses
  have isSize : (BitVec.ofNat 4 call.size).toNat = sizes call.addr := by
    rw [BitVec.toNat_ofNat, ← accepted.size]
    omega
  have filled : BitVec.ofNat 4 call.size ≠ 0 := by
    intro zero
    rw [zero, ← accepted.size] at isSize
    exact Nat.ne_of_lt positive isSize
  have count : (BitVec.ofNat 2 call.addresses.length).toNat =
      call.addresses.length := by
    rw [BitVec.toNat_ofNat]
    omega
  rw [accepted.size] at held
  by_cases simple : call.addr = writer.lastAddress ∧ call.isPredicate = false
  · obtain ⟨follows, notPredicate⟩ := simple
    have executed : call.executed = true := by
      cases accepted.executed with
      | inl isPredicate =>
          rw [notPredicate] at isPredicate
          cases isPredicate
      | inr executed => exact executed
    obtain ⟨last, run, lastStatics, beside⟩ := run_readInstruction
      agree.statics isSize held count few call.isBranch call.taken false true
    have sent : Writer.sendInstruction call writer =
        (.instruction (BitVec.ofNat 4 call.size)
          (BitVec.ofNat 2 call.addresses.length) call.isBranch call.taken
          call.addresses,
        { writer with lastAddress :=
            writer.lastAddress + BitVec.ofNat 64 call.size }) :=
      if_pos ⟨follows, notPredicate⟩
    rw [sent]
    refine ⟨last, ?_, ?_⟩
    · intro rest
      rw [run_instruction filled, agree.lastAddress, ← follows, run,
        agree.isa, ← accepted.size, executed, notPredicate]
    · rw [← follows, accepted.size]
      exact agree.moved lastStatics beside
  · obtain ⟨last, run, lastStatics, beside⟩ := run_readInstruction
      agree.statics isSize held count few call.isBranch call.taken
      call.isPredicate call.executed
    have sent : Writer.sendInstruction call writer =
        (.instructionExt (BitVec.ofNat 4 call.size)
          (BitVec.ofNat 2 call.addresses.length) call.isBranch call.taken
          call.isPredicate call.executed call.addr call.addresses,
        { writer with lastAddress :=
            call.addr + BitVec.ofNat 64 call.size }) :=
      if_neg simple
    rw [sent]
    refine ⟨last, ?_, ?_⟩
    · intro rest
      rw [run_instructionExt filled, run, agree.isa, ← accepted.size]
    · rw [accepted.size]
      exact agree.moved lastStatics beside

/-! ### Calls -/

theorem Agree.instruction
    (agree : Agree options image sizes writer reader view)
    {call : InstructionCall} (accepted : call.Accepted options sizes)
    (pages : BitVec 64 → BitVec 64) {fuel : Nat} (enough : 3 ≤ fuel) :
    ∃ records next count last,
      Writer.instruction options image fuel pages call writer =
        some (records, next) ∧
      Reads unset count reader (records.flatMap Record.bytes)
        ((view.after options pages (.instruction call)).items options image
          (.instruction call)) last ∧
      Agree options image sizes next last
        (view.after options pages (.instruction call)) := by
  obtain ⟨icache, afterCode, count, middle, codeSent, codeReads, codeAgree,
    held⟩ := agree.sendIcache unset accepted enough
  obtain ⟨further, later, mapReads, same, mapAgree⟩ :=
    codeAgree.sendAll unset pages (call.addr :: call.addresses)
  rw [same] at mapReads
  have stillHeld : ∀ offset < call.size,
      Held image later.icache (call.addr + BitVec.ofNat 64 offset) := by
    rw [same]
    exact held
  obtain ⟨last, turn, lastAgree⟩ :=
    mapAgree.sendInstruction unset accepted stillHeld
  rw [← same] at mapReads
  have reads := codeReads.append
    (mapReads.append (Reads.instruction turn (.nil last)))
  refine ⟨icache ++ ((Writer.sendAll options pages
      (call.addr :: call.addresses) afterCode).1 ++ [(Writer.sendInstruction
        call (Writer.sendAll options pages (call.addr :: call.addresses)
          afterCode).2).1]), _, count + (further + (0 + 1)), last, ?_, ?_,
    lastAgree⟩
  · simp only [Writer.instruction, if_pos (And.intro accepted.small
      accepted.addresses), codeSent, Option.bind_eq_bind, Option.bind_some,
      Option.pure_def]
  · have translated : ∀ va, last.va2pa va = View.physical options _ va :=
      lastAgree.physical
    simp only [List.flatMap_append, List.flatMap_cons, List.flatMap_nil]
    rw [Reader.itemOf, funext translated] at reads
    exact reads

theorem Agree.call (agree : Agree options image sizes writer reader view)
    {call : Call} (accepted : call.Accepted options sizes)
    (pages : BitVec 64 → BitVec 64) {fuel : Nat} (enough : 3 ≤ fuel) :
    ∃ records next count last,
      Writer.call options image fuel pages call writer =
        some (records, next) ∧
      Reads unset count reader (records.flatMap Record.bytes)
        ((view.after options pages call).items options image call) last ∧
      Agree options image sizes next last (view.after options pages call) := by
  cases call with
  | instruction call => exact agree.instruction unset accepted pages enough
  | cacheOnly icount type eip address =>
      obtain ⟨count, middle, reads, -, mapAgree⟩ :=
        agree.sendAll unset pages [eip, address]
      refine ⟨_, _, count + 1, middle, rfl, ?_, mapAgree⟩
      rw [List.flatMap_append, List.flatMap_cons, List.flatMap_nil]
      exact reads.append
        (.callback (turn_cacheOnly icount type eip address) (.nil middle))
  | output fd data =>
      refine ⟨_, _, 1, reader, rfl, ?_, agree⟩
      rw [List.flatMap_cons, List.flatMap_nil]
      exact .callback (turn_output fd accepted.1 accepted.2) (.nil reader)
  | isaChange newIsa =>
      refine ⟨_, _, 1, { reader with isa := newIsa }, rfl, ?_, ?_⟩
      · rw [List.flatMap_cons, List.flatMap_nil]
        exact .skip (turn_isaChange newIsa) (.nil _)
      · exact ⟨agree.lastAddress, agree.traceHasPa, rfl, agree.vcache,
          agree.va2pa, agree.marked, agree.statics.of_same rfl rfl rfl⟩
  | routineChange event eip esp callEip =>
      refine ⟨_, _, 1, reader, rfl, ?_, agree⟩
      rw [List.flatMap_cons, List.flatMap_nil]
      exact .callback (turn_routineChange event eip esp callEip) (.nil reader)
  | routineAnnounce eip name imgname offset line column filename =>
      obtain ⟨isName, isImgname, isFilename⟩ := accepted
      refine ⟨_, _, 1, reader, rfl, ?_, agree⟩
      rw [List.flatMap_cons, List.flatMap_nil]
      exact .callback (turn_routineAnnounce eip offset line column isName
        isImgname isFilename _) (.nil reader)

theorem Agree.calls (agree : Agree options image sizes writer reader view)
    {entries : List ((BitVec 64 → BitVec 64) × Call)}
    (accepted : ∀ entry ∈ entries, entry.2.Accepted options sizes)
    {fuel : Nat} (enough : 3 ≤ fuel) :
    ∃ records next count last,
      Writer.calls options image fuel entries writer =
        some (records, next) ∧
      Reads unset count reader (records.flatMap Record.bytes)
        (view.trace options image entries) last := by
  induction entries generalizing writer reader view with
  | nil => exact ⟨[], writer, 0, reader, rfl, .nil reader⟩
  | cons entry rest ih =>
      obtain ⟨pages, call⟩ := entry
      obtain ⟨records, next, count, middle, sent, reads, middleAgree⟩ :=
        agree.call unset (accepted _ List.mem_cons_self) pages
          enough
      obtain ⟨more, final, further, last, laterSent, later⟩ :=
        ih middleAgree
          (fun other member => accepted other (List.mem_cons_of_mem _ member))
      refine ⟨records ++ more, final, count + further, last, ?_, ?_⟩
      · simp only [Writer.calls, sent, laterSent, Option.bind_eq_bind,
          Option.bind_some, Option.pure_def]
      · rw [List.flatMap_append]
        exact reads.append later

/-! ## Whole traces -/

theorem Agree.start (options : Options) (image : BitVec 64 → Byte)
    (sizes : BitVec 64 → Nat) :
    Agree options image sizes {}
      { traceHasPa := options.sendVa2paMapping } {} := by
  refine ⟨rfl, rfl, rfl, rfl, fun _ => rfl, ?_,
    Statics.start.of_same rfl rfl rfl⟩
  rw [Marked]
  split
  · intro addr isMarked
    cases isMarked
  · intro addr isMarked
    cases isMarked

end ChipletSniper.Sift.Trace
