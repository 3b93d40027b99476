import ChipletSniper.Library.Runs
import ChipletSniper.Popnet.Moves

/-!
# The request word of the channel arbitration

`vc_arbitration` collects the requesting channels in a word, with a table of
masks, and hands it to the power model for every channel that it grants.  The
table has ten masks, and the ninth has two bits.
-/

namespace ChipletSniper.Popnet

open Library

variable {Time : Type}

/-! ## The word -/

/-- `Atom_type`. The word is `none` after an access behind the table. -/
abbrev RequestWord := Option (BitVec 64)

/-- `VC_MASK`. -/
def vcMask : List (BitVec 64) := [1, 2, 4, 8, 16, 32, 64, 128, 258, 512]

/-- `vc_request | VC_MASK[index]`. -/
def orMask (word : RequestWord) (index : Nat) : RequestWord :=
  word.bind fun word => (vcMask[index]?).map fun mask => word ||| mask

/-- The arguments of `power_vc_arbit`. -/
structure ArbiterRecord where
  pc : Nat
  vc : Nat
  req : RequestWord
  gra : Nat

section Arbitration

variable (config : Config)

/-- `i * vc_number_ + j`. -/
def channelIndex (vc : VC) : Nat := vc.1 * config.vcNumber + vc.2

/-- The body of the first loop of `vc_arbitration`, with the word. -/
def vcRequestWord (router : Router Time)
    (state : (List (VC × VC) × Rng) × RequestWord) (vc : VC) :
    Except Halt ((List (VC × VC) × Rng) × RequestWord) :=
  if (router.input vc).state = .vcAb then do
    match ← vcSelection config router state.1.2 vc with
    | (none, rng) => .ok ((state.1.1, rng), state.2)
    | (some out, rng) =>
        .ok ((state.1.1 ++ [(out, vc)], rng),
          orMask state.2 (channelIndex config vc))
  else .ok state

/-- The body of the second loop, with the calls of `power_vc_arbit`. -/
def vcGrantRecord (requests : List (VC × VC)) (word : RequestWord)
    (state : Work Time × List ArbiterRecord) (out : VC) :
    Work Time × List ArbiterRecord :=
  (vcGrant requests state.1 out,
    if (state.1.router.output out).usage = .free then
      match state.1.rng.choose
          ((requests.filter fun request => request.1 == out).map Prod.snd) with
      | (none, _) => state.2
      | (some vc, _) =>
          state.2 ++ [⟨out.1, out.2, word, channelIndex config vc⟩]
    else state.2)

/-- `vc_arbitration` with what it hands to the power model. -/
def vcArbitrationPower (work : Work Time) :
    Except Halt (Work Time × List ArbiterRecord) := do
  let (requests, word) ←
    config.channels.foldlM (vcRequestWord config work.router)
      (([], work.rng), some 0)
  .ok ((config.channelsFrom 1).foldl (vcGrantRecord config requests.1 word)
    ({ work with rng := requests.2 }, []))

end Arbitration

variable {config : Config}

/-! ## The word beside the arbitration -/

theorem vcRequestWord_fst (router : Router Time)
    (state : (List (VC × VC) × Rng) × RequestWord) (vc : VC) :
    (vcRequestWord config router state vc).map Prod.fst =
      vcRequest config router state.1 vc := by
  rw [vcRequestWord, vcRequest]
  by_cases waiting : (router.input vc).state = .vcAb
  · rw [if_pos waiting, if_pos waiting]
    cases vcSelection config router state.1.2 vc with
    | error halt => rfl
    | ok selected =>
        obtain ⟨choice, rng⟩ := selected
        cases choice <;> rfl
  · rw [if_neg waiting, if_neg waiting]
    rfl

theorem vcGrantRecord_fst (requests : List (VC × VC)) (word : RequestWord)
    (outs : List VC) (state : Work Time × List ArbiterRecord) :
    (outs.foldl (vcGrantRecord config requests word) state).1 =
      outs.foldl (vcGrant requests) state.1 := by
  induction outs generalizing state with
  | nil => rfl
  | cons out outs ih => exact ih _

/-- The arbitration is the one of the routers. -/
theorem vcArbitrationPower_fst (work : Work Time) :
    (vcArbitrationPower config work).map Prod.fst =
      vcArbitration config work := by
  have agrees := @vcRequestWord_fst Time config work.router
  have collected := foldlM_map Prod.fst agrees config.channels
    (([], work.rng), some 0)
  rw [vcArbitrationPower, vcArbitration, ← collected]
  cases config.channels.foldlM (vcRequestWord config work.router)
      (([], work.rng), some 0) with
  | error halt => rfl
  | ok state =>
      change Except.ok _ = Except.ok _
      rw [vcGrantRecord_fst]

/-- Every call is handed the same word. -/
theorem req_of_mem_vcGrantRecord {requests : List (VC × VC)}
    {word : RequestWord} {outs : List VC}
    {state : Work Time × List ArbiterRecord}
    (before : ∀ record ∈ state.2, record.req = word) :
    ∀ record ∈ (outs.foldl (vcGrantRecord config requests word) state).2,
      record.req = word := by
  induction outs generalizing state with
  | nil => exact before
  | cons out outs ih =>
      apply ih
      intro record member
      rw [vcGrantRecord] at member
      split at member
      · split at member
        · exact before record member
        · cases List.mem_append.mp member with
          | inl old => exact before record old
          | inr new => rw [List.mem_singleton.mp new]
      · exact before record member

/-! ## The requesting channels -/

/-- The channel waits for an output channel, and one of its candidates is
free. -/
def requestsOutput (router : Router Time) (vc : VC) : Bool :=
  (router.input vc).state = .vcAb &&
    (router.input vc).routing.any fun out =>
      (router.output out).usage == .free

theorem choose_eq_none {Item : Type} {rng after : Rng} {items : List Item}
    (chosen : rng.choose items = (none, after)) : items = [] := by
  unfold Rng.choose at chosen
  split at chosen
  · rfl
  · cases chosen
  · rw [Prod.mk.injEq, List.getElem?_eq_none_iff, Rng.flatL] at chosen
    have length := chosen.1
    dsimp only at length
    by_contra nonempty
    have below := Nat.mod_lt (rng.draws rng.used)
      (List.length_pos_of_ne_nil nonempty)
    omega

theorem vcRequestWord_snd {router : Router Time}
    {state next : (List (VC × VC) × Rng) × RequestWord} {vc : VC}
    (step : vcRequestWord config router state vc = .ok next) :
    next.2 = if requestsOutput router vc = true then
      orMask state.2 (channelIndex config vc) else state.2 := by
  rw [vcRequestWord] at step
  split at step
  next waiting =>
    obtain ⟨selected, selection, result⟩ := bind_eq_ok.mp step
    have free : requestsOutput router vc = true ↔
        (router.input vc).routing.filter (fun out =>
          (router.output out).usage == .free) ≠ [] := by
      rw [requestsOutput, decide_eq_true waiting, Bool.true_and, ne_eq,
        List.filter_eq_nil_iff, List.any_eq_true]
      simp
    rw [vcSelection] at selection
    split at selection
    next => cases selection
    next =>
      split at selection
      next => cases selection
      next =>
        cases selection
        split at result
        next rng chosen =>
          cases result
          rw [if_neg (fun requests => free.mp requests (choose_eq_none chosen))]
        next out rng chosen =>
          cases result
          rw [if_pos (free.mpr (List.ne_nil_of_mem (mem_of_choose chosen)))]
  next idle =>
    cases step
    rw [if_neg]
    simp [requestsOutput, idle]

/-- The word of some channels. -/
def wordOf (config : Config) (router : Router Time) (vcs : List VC) :
    RequestWord :=
  ((vcs.filter (requestsOutput router)).map (channelIndex config)).foldl
    orMask (some 0)

theorem vcRequestWord_wordOf {router : Router Time} {rng : Rng}
    {last : (List (VC × VC) × Rng) × RequestWord}
    (run : config.channels.foldlM (vcRequestWord config router)
      (([], rng), some 0) = .ok last) :
    last.2 = wordOf config router config.channels := by
  have ended := foldlM_induction
    (fun rest (state : (List (VC × VC) × Rng) × RequestWord) =>
      ∃ past, config.channels = past ++ rest ∧
        state.2 = wordOf config router past)
    (by
      intro vc rest state next collected step
      obtain ⟨past, split, word⟩ := collected
      refine ⟨past ++ [vc], by rw [split]; simp, ?_⟩
      rw [vcRequestWord_snd step, word, wordOf, wordOf, List.filter_append]
      by_cases requests : requestsOutput router vc = true
      · simp [requests]
      · simp [requests])
    ⟨[], rfl, rfl⟩ run
  obtain ⟨past, split, word⟩ := ended
  rw [word, split, List.append_nil]

/-! ## The bits -/

/-- The bits of a mask: its own, and the second one of the ninth mask. -/
theorem getLsbD_vcMask {index : Nat} {mask : BitVec 64}
    (found : vcMask[index]? = some mask) (bit : Nat) :
    mask.getLsbD bit = true ↔ bit = index ∨ index = 8 ∧ bit = 1 := by
  have table : ∀ index : Fin 10, ∀ bit : Fin 64,
      (vcMask.get index).getLsbD bit = true ↔
        (bit : Nat) = index ∨ (index : Nat) = 8 ∧ (bit : Nat) = 1 := by
    decide +kernel
  obtain ⟨bound, same⟩ := List.getElem?_eq_some_iff.mp found
  rcases Nat.lt_or_ge bit 64 with small | large
  · have entry := table ⟨index, bound⟩ ⟨bit, small⟩
    rw [← same]
    exact entry
  · have small : index < 10 := bound
    rw [BitVec.getLsbD_of_ge mask bit large]
    constructor
    · exact fun wrong => absurd wrong (by decide)
    · omega

theorem orMask_foldl_none (indices : List Nat) :
    indices.foldl orMask none = none := by
  induction indices with
  | nil => rfl
  | cons index indices ih => exact ih

/-- The word is there if all masks are, and its bits are theirs. -/
theorem orMask_foldl {indices : List Nat} {word result : BitVec 64}
    (run : indices.foldl orMask (some word) = some result) :
    (∀ index ∈ indices, index < 10) ∧
      ∀ bit, result.getLsbD bit = true ↔ word.getLsbD bit = true ∨
        ∃ index ∈ indices, bit = index ∨ index = 8 ∧ bit = 1 := by
  induction indices generalizing word with
  | nil =>
      cases run
      simp
  | cons index indices ih =>
      rw [List.foldl_cons, orMask, Option.bind_some] at run
      cases found : vcMask[index]? with
      | none =>
          rw [found, Option.map_none, orMask_foldl_none] at run
          cases run
      | some mask =>
          rw [found, Option.map_some] at run
          obtain ⟨small, bits⟩ := ih run
          have bound : index < 10 :=
            (List.getElem?_eq_some_iff.mp found).choose
          refine ⟨List.forall_mem_cons.mpr ⟨bound, small⟩, fun bit => ?_⟩
          rw [bits, BitVec.getLsbD_or, Bool.or_eq_true, getLsbD_vcMask found,
            or_assoc, List.exists_mem_cons_iff]

theorem orMask_foldl_isSome {indices : List Nat} (word : BitVec 64)
    (small : ∀ index ∈ indices, index < 10) :
    ∃ result, indices.foldl orMask (some word) = some result := by
  induction indices generalizing word with
  | nil => exact ⟨word, rfl⟩
  | cons index indices ih =>
      obtain ⟨bound, rest⟩ := List.forall_mem_cons.mp small
      have found : vcMask[index]? = some (vcMask.get ⟨index, bound⟩) :=
        List.getElem?_eq_getElem bound
      rw [List.foldl_cons, orMask, Option.bind_some, found]
      exact ih _ rest

/-! ## Exactness -/

/-- A bit of the word is set exactly if its channel requests an output. -/
def ExactRequest (config : Config) (router : Router Time)
    (req : RequestWord) : Prop :=
  ∃ word, req = some word ∧ ∀ vc, config.InRange vc →
    (word.getLsbD (channelIndex config vc) = true ↔
      requestsOutput router vc = true)

/-- Every requesting channel has a mask, and the channel `1` requests if the
channel `8` does. -/
def MasksSuffice (config : Config) (router : Router Time) : Prop :=
  (∀ vc, config.InRange vc → requestsOutput router vc = true →
    channelIndex config vc < 10) ∧
  ((∃ vc, config.InRange vc ∧ requestsOutput router vc = true ∧
      channelIndex config vc = 8) →
    ∃ vc, config.InRange vc ∧ requestsOutput router vc = true ∧
      channelIndex config vc = 1)

theorem channelIndex_inj {first second : VC} (firstIn : config.InRange first)
    (secondIn : config.InRange second)
    (same : channelIndex config first = channelIndex config second) :
    first = second := by
  rw [channelIndex, channelIndex, Nat.mul_comm, Nat.mul_comm second.1] at same
  have firstPort := Nat.mul_add_div (Nat.zero_lt_of_lt firstIn.2) first.1
    first.2
  have secondPort := Nat.mul_add_div (Nat.zero_lt_of_lt secondIn.2) second.1
    second.2
  rw [Nat.div_eq_of_lt firstIn.2] at firstPort
  rw [Nat.div_eq_of_lt secondIn.2] at secondPort
  have port : first.1 = second.1 := by
    rw [← Nat.add_zero first.1, ← firstPort, same, secondPort, Nat.add_zero]
  rw [port] at same
  exact Prod.ext port (Nat.add_left_cancel same)

/-- The channel of an index. -/
theorem exists_channelIndex {index : Nat}
    (small : index < config.physicPorts * config.vcNumber) :
    ∃ vc, config.InRange vc ∧ channelIndex config vc = index := by
  have positive : 0 < config.vcNumber := by
    by_contra zero
    rw [Nat.eq_zero_of_not_pos zero, Nat.mul_zero] at small
    exact Nat.not_lt_zero _ small
  refine ⟨(index / config.vcNumber, index % config.vcNumber), ⟨?_, ?_⟩, ?_⟩
  · exact Nat.div_lt_of_lt_mul (by rw [Nat.mul_comm]; exact small)
  · exact Nat.mod_lt _ positive
  · rw [channelIndex, Nat.mul_comm]
    exact Nat.div_add_mod _ _

theorem channelIndex_lt {vc : VC} (inRange : config.InRange vc) :
    channelIndex config vc < config.physicPorts * config.vcNumber := by
  have below := Nat.mul_le_mul_right config.vcNumber inRange.1
  rw [Nat.succ_mul] at below
  have second := inRange.2
  rw [channelIndex]
  omega

theorem mem_requesting {router : Router Time} {index : Nat} :
    index ∈ (config.channels.filter (requestsOutput router)).map
        (channelIndex config) ↔
      ∃ vc, config.InRange vc ∧ requestsOutput router vc = true ∧
        channelIndex config vc = index := by
  simp [mem_channels, and_assoc]

theorem exactRequest_wordOf_iff (router : Router Time) :
    ExactRequest config router (wordOf config router config.channels) ↔
      MasksSuffice config router := by
  constructor
  · intro exact
    obtain ⟨word, run, bits⟩ := exact
    obtain ⟨small, isSet⟩ := orMask_foldl run
    constructor
    · exact fun vc inRange requests =>
        small _ (mem_requesting.mpr ⟨vc, inRange, requests, rfl⟩)
    · intro ninth
      obtain ⟨vc, inRange, requests, isEight⟩ := ninth
      have bound := channelIndex_lt inRange
      obtain ⟨second, secondIn, isOne⟩ :=
        @exists_channelIndex config 1 (by omega)
      refine ⟨second, secondIn, (bits second secondIn).mp ?_, isOne⟩
      rw [isSet, isOne]
      exact Or.inr ⟨8, mem_requesting.mpr ⟨vc, inRange, requests, isEight⟩,
        Or.inr ⟨rfl, rfl⟩⟩
  · intro suffice
    obtain ⟨small, second⟩ := suffice
    obtain ⟨word, run⟩ := @orMask_foldl_isSome
      ((config.channels.filter (requestsOutput router)).map
        (channelIndex config)) 0 (by
      intro index member
      obtain ⟨vc, inRange, requests, rfl⟩ := mem_requesting.mp member
      exact small vc inRange requests)
    refine ⟨word, run, fun vc inRange => ?_⟩
    have own : requestsOutput router vc = true ↔
        ∃ other, config.InRange other ∧ requestsOutput router other = true ∧
          channelIndex config other = channelIndex config vc := by
      constructor
      · exact fun requests => ⟨vc, inRange, requests, rfl⟩
      · intro found
        obtain ⟨other, otherIn, requests, same⟩ := found
        rw [← channelIndex_inj otherIn inRange same]
        exact requests
    rw [(orMask_foldl run).2, own]
    constructor
    · intro isSet
      obtain ⟨index, member, isBit⟩ := isSet.resolve_left (by simp)
      obtain ⟨other, otherIn, requests, isIndex⟩ := mem_requesting.mp member
      cases isBit with
      | inl same => exact ⟨other, otherIn, requests, isIndex.trans same.symm⟩
      | inr ninth =>
          rw [ninth.2]
          exact second ⟨other, otherIn, requests, isIndex.trans ninth.1⟩
    · intro found
      exact Or.inr ⟨_, mem_requesting.mpr found, Or.inl rfl⟩

/-- Every call of `power_vc_arbit` is handed the exact word if and only if the
masks of the requesting channels suffice. -/
theorem vcRequest_exact_iff {work next : Work Time}
    {records : List ArbiterRecord}
    (run : vcArbitrationPower config work = .ok (next, records)) :
    ∀ record ∈ records,
      ExactRequest config work.router record.req ↔
        MasksSuffice config work.router := by
  obtain ⟨⟨requests, word⟩, collecting, granting⟩ := bind_eq_ok.mp run
  have isWord : word = wordOf config work.router config.channels :=
    vcRequestWord_wordOf collecting
  have isRecords : ((config.channelsFrom 1).foldl
      (vcGrantRecord config requests.1 word)
        ({ work with rng := requests.2 }, [])).2 = records :=
    congrArg Prod.snd (Except.ok.inj granting)
  intro record member
  rw [← isRecords] at member
  have same : record.req = word :=
    req_of_mem_vcGrantRecord (by simp) record member
  rw [same, ← exactRequest_wordOf_iff, ← isWord]

/-! ## Five ports with two channels each -/

/-- A mesh whose routers have five ports with two channels. -/
def fivePorts : Config where
  arySize := 2
  cubeSize := 2
  vcNumber := 2
  bufferSize := 4
  outbufferSize := 4
  routingAlg := .xy

/-- One channel of the router waits for the first output channel. -/
def waitingAt (vc : VC) : Work Nat where
  router := (Router.start fivePorts [0, 0] []).setInput vc
    ⟨[], .vcAb, [(1, 0)], none⟩
  emitted := []
  rng := ⟨fun _ => 0, 0⟩
  totalFinished := 0

theorem requestsOutput_waitingAt {waiting vc : VC} :
    requestsOutput (waitingAt waiting).router vc = true ↔ vc = waiting := by
  by_cases same : vc = waiting
  · rw [same, requestsOutput]
    simp [waitingAt, Router.setInput, Router.start]
  · simp [requestsOutput, waitingAt, Router.setInput, Router.start, same]

/-- The word of a run. -/
def handedWords (run : Except Halt (Work Nat × List ArbiterRecord)) :
    List RequestWord :=
  match run with
  | .ok (_, records) => records.map ArbiterRecord.req
  | .error _ => []

theorem vcRequest_exact_waitingAt :
    ∃ next records,
      vcArbitrationPower fivePorts (waitingAt (4, 1)) = .ok (next, records) ∧
      ∀ record ∈ records,
        ExactRequest fivePorts (waitingAt (4, 1)).router record.req := by
  refine ⟨_, _, rfl, fun record member =>
    (vcRequest_exact_iff rfl record member).mpr ⟨?_, ?_⟩⟩
  · intro vc inRange requests
    rw [requestsOutput_waitingAt] at requests
    rw [requests]
    decide
  · intro ninth
    obtain ⟨vc, inRange, requests, isEight⟩ := ninth
    rw [requestsOutput_waitingAt] at requests
    rw [requests] at isEight
    exact absurd isEight (by decide)

/-- The second bit says that the second injection channel requests. -/
theorem vcRequest_ninth_mask :
    handedWords (vcArbitrationPower fivePorts (waitingAt (4, 0))) =
      [some 258] ∧
    fivePorts.InRange (0, 1) ∧
    requestsOutput (waitingAt (4, 0)).router (0, 1) = false ∧
    ¬ ExactRequest fivePorts (waitingAt (4, 0)).router (some 258) := by
  refine ⟨by decide +kernel, by decide, by decide, ?_⟩
  intro exact
  obtain ⟨word, same, bits⟩ := exact
  cases same
  have second := (bits (0, 1) (by decide)).mp (by decide)
  rw [requestsOutput_waitingAt] at second
  revert second
  decide

end ChipletSniper.Popnet
