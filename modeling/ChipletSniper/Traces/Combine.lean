import ChipletSniper.Library.Matching

/-!
# Combining the records of the chiplets

`record_transfer` adds the address of its chiplet to the records of the
simulator.  `record_combine` reads the files of all chiplets, matches the
messages sent with the messages received over every connection, and writes the
pairs in the order of their sent times.  The models are translated from
`record_transfer.cpp` and `record_combine.cpp`; a file is the list of its
lines.
-/

namespace ChipletSniper.Traces

open Library

/-! ## Data -/

/-- A line of `message_record.txt`. -/
structure MessageLine where
  cmd : String
  localPort : ℤ
  remoteAddr : ℤ
  remotePort : ℤ
  localCore : ℤ
  t : ℕ

structure SCmdInfo where
  localAddr : ℤ
  localPort : ℤ
  remoteAddr : ℤ
  remotePort : ℤ
  localCore : ℤ
  timestamp : ℕ
  deriving DecidableEq

/-- A line of `record_<subnet>.txt`. -/
structure RecordLine where
  cmd : String
  cmdInfo : SCmdInfo

structure SMsgKeyInfo where
  srcAddr : ℤ
  srcPort : ℤ
  desAddr : ℤ
  desPort : ℤ
  deriving DecidableEq

structure SMsgValueInfo where
  srcCore : ℤ
  sendTime : ℕ
  deriving DecidableEq

/-- `SMsgPhysicalInfo`, a line of `physicalRecords.txt`. -/
structure SMsgPhysicalInfo (Time : Type) where
  srcChiplet : ℤ
  srcCore : ℤ
  desChiplet : ℤ
  desCore : ℤ
  sentTime : Time
  recvTime : Time
  deriving DecidableEq

/-! ## The programs -/

/-- `main` of `record_transfer`. -/
def recordTransfer (subnet : ℤ) (lines : List MessageLine) :
    List RecordLine :=
  lines.map fun line =>
    ⟨line.cmd, ⟨subnet, line.localPort, line.remoteAddr, line.remotePort,
      line.localCore, line.t⟩⟩

/-- The global queues of `record_combine`. -/
structure Queues where
  qSend : List SCmdInfo
  qRecv : List SCmdInfo

/-- `readRecord`.  A wrong command is reported and left out. -/
def readRecord (queues : Queues) (lines : List RecordLine) : Queues :=
  lines.foldl
    (fun queues line =>
      if line.cmd = "send" then
        { queues with qSend := queues.qSend ++ [line.cmdInfo] }
      else if line.cmd = "recv" then
        { queues with qRecv := queues.qRecv ++ [line.cmdInfo] }
      else queues)
    queues

/-- The loop of `main` over the files. -/
def readRecords (files : ℕ → List RecordLine) (order : List ℕ) : Queues :=
  order.foldl (fun queues i => readRecord queues (files i)) ⟨[], []⟩

/-- The key of a message sent. -/
def SCmdInfo.sendKey (top : SCmdInfo) : SMsgKeyInfo :=
  ⟨top.localAddr, top.localPort, top.remoteAddr, top.remotePort⟩

/-- The key of a message received: source and destination are swapped. -/
def SCmdInfo.recvKey (top : SCmdInfo) : SMsgKeyInfo :=
  ⟨top.remoteAddr, top.remotePort, top.localAddr, top.localPort⟩

def SCmdInfo.sent (top : SCmdInfo) : SMsgValueInfo :=
  ⟨top.localCore, top.timestamp⟩

/-- `coreIdMap`.  A key that is missing is treated like one with an empty
queue. -/
abbrev CoreIdMap := SMsgKeyInfo → List SMsgValueInfo

/-- The first loop of `getCoreTraces`. -/
def sendLoop (qSend : List SCmdInfo) : CoreIdMap :=
  qSend.foldl
    (fun coreIdMap top =>
      Function.update coreIdMap top.sendKey
        (coreIdMap top.sendKey ++ [top.sent]))
    fun _ => []

/-- The record of a message. -/
def physicalInfo (front : SMsgValueInfo) (top : SCmdInfo) :
    SMsgPhysicalInfo ℕ :=
  ⟨top.recvKey.srcAddr, front.srcCore, top.recvKey.desAddr, top.localCore,
    front.sendTime, top.timestamp⟩

/-- The variables of the second loop of `getCoreTraces`.  `matched` is
history: the pairs of which `vPhyInfo` keeps the chiplets, the cores and the
times. -/
structure Matching where
  coreIdMap : CoreIdMap
  vPhyInfo : List (SMsgPhysicalInfo ℕ)
  matched : List (SMsgValueInfo × SCmdInfo)

/-- The body of the second loop of `getCoreTraces`.  A message that was not
sent is reported and left out. -/
def recvStep (state : Matching) (top : SCmdInfo) : Matching :=
  match state.coreIdMap top.recvKey with
  | [] => state
  | front :: rest =>
      { coreIdMap := Function.update state.coreIdMap top.recvKey rest
        vPhyInfo := state.vPhyInfo ++ [physicalInfo front top]
        matched := state.matched ++ [(front, top)] }

/-- The two loops of `getCoreTraces`. -/
def matchRecords (queues : Queues) : Matching :=
  queues.qRecv.foldl recvStep ⟨sendLoop queues.qSend, [], []⟩

/-- `getCoreTraces`: any result of the sort by `sentTime`, which need not be
stable. -/
def GetCoreTraces (queues : Queues)
    (output : List (SMsgPhysicalInfo ℕ)) : Prop :=
  SortOf SMsgPhysicalInfo.sentTime (matchRecords queues).vPhyInfo output

/-! ## Reading -/

/-- The messages sent of a file. -/
def sends (lines : List RecordLine) : List SCmdInfo :=
  (lines.filter (·.cmd = "send")).map RecordLine.cmdInfo

/-- The messages received of a file. -/
def recvs (lines : List RecordLine) : List SCmdInfo :=
  (lines.filter (·.cmd = "recv")).map RecordLine.cmdInfo

theorem readRecord_eq (lines : List RecordLine) :
    ∀ queues, readRecord queues lines =
      ⟨queues.qSend ++ sends lines, queues.qRecv ++ recvs lines⟩ := by
  induction lines with
  | nil =>
      intro queues
      simp [readRecord, sends, recvs]
  | cons line rest ih =>
      intro queues
      refine Eq.trans (ih _) ?_
      by_cases isSend : line.cmd = "send"
      · simp [isSend, sends, recvs]
      · by_cases isRecv : line.cmd = "recv"
        · simp [isRecv, sends, recvs]
        · simp [isSend, isRecv, sends, recvs]

theorem readRecords_eq (files : ℕ → List RecordLine) (order : List ℕ) :
    readRecords files order =
      ⟨order.flatMap fun i => sends (files i),
        order.flatMap fun i => recvs (files i)⟩ := by
  suffices appended : ∀ queues : Queues,
      order.foldl (fun queues i => readRecord queues (files i)) queues =
        ⟨queues.qSend ++ order.flatMap fun i => sends (files i),
          queues.qRecv ++ order.flatMap fun i => recvs (files i)⟩ from
    appended ⟨[], []⟩
  induction order with
  | nil =>
      intro queues
      simp
  | cons i rest ih =>
      intro queues
      rw [List.foldl_cons, ih, readRecord_eq]
      simp

/-! ## Matching -/

theorem sendLoop_apply (qSend : List SCmdInfo) (key : SMsgKeyInfo) :
    sendLoop qSend key =
      (qSend.filter (·.sendKey = key)).map SCmdInfo.sent :=
  collect_apply SCmdInfo.sendKey SCmdInfo.sent qSend (fun _ => []) key

/-- The second loop matches the two streams by their keys. -/
theorem matchRecords_eq (queues : Queues) :
    (matchRecords queues).matched =
        pairUp SCmdInfo.recvKey (sendLoop queues.qSend) queues.qRecv ∧
      (matchRecords queues).vPhyInfo =
        (matchRecords queues).matched.map
          (fun pair => physicalInfo pair.1 pair.2) := by
  suffices looped : ∀ state : Matching,
      (queues.qRecv.foldl recvStep state).matched =
          state.matched ++
            pairUp SCmdInfo.recvKey state.coreIdMap queues.qRecv ∧
        (state.vPhyInfo =
            state.matched.map (fun pair => physicalInfo pair.1 pair.2) →
          (queues.qRecv.foldl recvStep state).vPhyInfo =
            (queues.qRecv.foldl recvStep state).matched.map
              (fun pair => physicalInfo pair.1 pair.2)) by
    obtain ⟨matched, physical⟩ := looped ⟨sendLoop queues.qSend, [], []⟩
    exact ⟨matched, physical rfl⟩
  induction queues.qRecv with
  | nil =>
      intro state
      simp [pairUp]
  | cons top rest ih =>
      intro state
      rw [List.foldl_cons]
      cases waiting : state.coreIdMap top.recvKey with
      | nil =>
          rw [pairUp_cons_of_nil _ rest waiting]
          have unchanged : recvStep state top = state := by
            simp [recvStep, waiting]
          rw [unchanged]
          exact ih state
      | cons front others =>
          rw [pairUp_cons_of_cons _ rest waiting]
          have taken : recvStep state top =
              { coreIdMap :=
                  Function.update state.coreIdMap top.recvKey others
                vPhyInfo := state.vPhyInfo ++ [physicalInfo front top]
                matched := state.matched ++ [(front, top)] } := by
            simp [recvStep, waiting]
          rw [taken]
          obtain ⟨matched, physical⟩ := ih
            { coreIdMap := Function.update state.coreIdMap top.recvKey others
              vPhyInfo := state.vPhyInfo ++ [physicalInfo front top]
              matched := state.matched ++ [(front, top)] }
          refine ⟨?_, ?_⟩
          · rw [matched, List.append_assoc]
            rfl
          · intro before
            refine physical ?_
            dsimp only
            rw [before, List.map_append]
            rfl

/-! ## Connections -/

section Connections

variable {files : ℕ → List RecordLine} {subnetCnt : ℕ}

/-- The messages sent over a connection, in the order of the files. -/
def connectionSends (files : ℕ → List RecordLine) (subnetCnt : ℕ)
    (key : SMsgKeyInfo) : List SCmdInfo :=
  ((List.range subnetCnt).flatMap fun i => sends (files i)).filter
    (·.sendKey = key)

/-- The messages received over a connection, in the order of the files. -/
def connectionRecvs (files : ℕ → List RecordLine) (subnetCnt : ℕ)
    (key : SMsgKeyInfo) : List SCmdInfo :=
  ((List.range subnetCnt).flatMap fun i => recvs (files i)).filter
    (·.recvKey = key)

/-- If the items of a key come from one file, their order does not depend on
the order of the files. -/
theorem filter_flatMap_of_perm {Item : Type} {order other : List ℕ}
    (perm : order.Perm other) (nodup : order.Nodup)
    {part : ℕ → List Item} {chosen : Item → Bool} (home : ℕ)
    (single : ∀ i ∈ order, i ≠ home →
      (part i).filter chosen = []) :
    (order.flatMap part).filter chosen = (other.flatMap part).filter chosen := by
  suffices alone : ∀ {order : List ℕ}, order.Nodup →
      (∀ i ∈ order, i ≠ home → (part i).filter chosen = []) →
      (order.flatMap part).filter chosen =
        if home ∈ order then (part home).filter chosen else [] by
    have singleOther : ∀ i ∈ other, i ≠ home →
        (part i).filter chosen = [] :=
      fun i member => single i (perm.mem_iff.mpr member)
    rw [alone nodup single, alone (perm.nodup nodup) singleOther]
    simp only [perm.mem_iff]
  intro order nodup single
  induction order with
  | nil => simp
  | cons i rest ih =>
      obtain ⟨fresh, nodupRest⟩ := List.nodup_cons.mp nodup
      have behind := ih nodupRest fun k member =>
        single k (List.mem_cons_of_mem i member)
      rw [List.flatMap_cons, List.filter_append, behind]
      by_cases here : i = home
      · subst here
        simp [fresh]
      · rw [single i List.mem_cons_self here, List.nil_append]
        simp [Ne.symm here]

/-- The messages of a connection do not depend on the order in which the files
are read. -/
theorem connection_of_order
    (own : ∀ i, ∀ line ∈ files i, line.cmdInfo.localAddr = (i : ℤ))
    {order : List ℕ} (reads : order.Perm (List.range subnetCnt))
    (key : SMsgKeyInfo) :
    (readRecords files order).qSend.filter (·.sendKey = key) =
        connectionSends files subnetCnt key ∧
      (readRecords files order).qRecv.filter (·.recvKey = key) =
        connectionRecvs files subnetCnt key := by
  have nodup : order.Nodup := reads.nodup_iff.mpr List.nodup_range
  rw [readRecords_eq]
  refine ⟨filter_flatMap_of_perm reads nodup key.srcAddr.toNat ?_,
    filter_flatMap_of_perm reads nodup key.desAddr.toNat ?_⟩
  · intro i _ elsewhere
    refine List.filter_eq_nil_iff.mpr ?_
    intro top member isKey
    obtain ⟨line, listed, rfl⟩ := List.mem_map.mp member
    have address := own i line (List.mem_of_mem_filter listed)
    have same : line.cmdInfo.sendKey = key := by simpa using isKey
    refine elsewhere ?_
    rw [← same]
    show i = line.cmdInfo.localAddr.toNat
    omega
  · intro i _ elsewhere
    refine List.filter_eq_nil_iff.mpr ?_
    intro top member isKey
    obtain ⟨line, listed, rfl⟩ := List.mem_map.mp member
    have address := own i line (List.mem_of_mem_filter listed)
    have same : line.cmdInfo.recvKey = key := by simpa using isKey
    refine elsewhere ?_
    rw [← same]
    show i = line.cmdInfo.localAddr.toNat
    omega

/-- The pairs of a connection. -/
theorem filter_matched
    (own : ∀ i, ∀ line ∈ files i, line.cmdInfo.localAddr = (i : ℤ))
    {order : List ℕ} (reads : order.Perm (List.range subnetCnt))
    (key : SMsgKeyInfo) :
    (matchRecords (readRecords files order)).matched.filter
        (·.2.recvKey = key) =
      ((connectionSends files subnetCnt key).map SCmdInfo.sent).zip
        (connectionRecvs files subnetCnt key) := by
  obtain ⟨sent, received⟩ := connection_of_order own reads key
  rw [(matchRecords_eq _).1, filter_pairUp, sendLoop_apply, sent, received]

/-- `record_combine` matches the `k`-th message sent over a connection with
the `k`-th received, in whatever order it reads the files. -/
theorem combine_matches_connections
    (own : ∀ i, ∀ line ∈ files i, line.cmdInfo.localAddr = (i : ℤ))
    {order : List ℕ} (reads : order.Perm (List.range subnetCnt))
    {output : List (SMsgPhysicalInfo ℕ)}
    (traces : GetCoreTraces (readRecords files order) output) :
    (∃ matched : List (SMsgValueInfo × SCmdInfo),
      (matched.map fun pair => physicalInfo pair.1 pair.2).Perm output ∧
      ∀ key,
        matched.filter (·.2.recvKey = key) =
            ((connectionSends files subnetCnt key).map SCmdInfo.sent).zip
              (connectionRecvs files subnetCnt key) ∧
          (matched.filter (·.2.recvKey = key)).length =
            min (connectionSends files subnetCnt key).length
              (connectionRecvs files subnetCnt key).length ∧
          (matched.filter (·.2.recvKey = key)).map Prod.fst <+:
            (connectionSends files subnetCnt key).map SCmdInfo.sent) ∧
      Ordered SMsgPhysicalInfo.sentTime output ∧
      ∀ otherOrder : List ℕ, otherOrder.Perm (List.range subnetCnt) →
        ∀ otherOutput,
          GetCoreTraces (readRecords files otherOrder) otherOutput →
          otherOutput.Perm output := by
  obtain ⟨perm, sorted⟩ := traces
  refine ⟨⟨(matchRecords (readRecords files order)).matched, ?_, ?_⟩, sorted,
    ?_⟩
  · rw [← (matchRecords_eq _).2]
    exact perm.symm
  · intro key
    rw [filter_matched own reads key]
    refine ⟨rfl, ?_, ?_⟩
    · rw [List.length_zip, List.length_map]
    · exact map_fst_zip_isPrefix _ _
  · intro otherOrder otherReads otherOutput otherTraces
    refine otherTraces.1.trans (List.Perm.trans ?_ perm.symm)
    rw [(matchRecords_eq _).2, (matchRecords_eq _).2]
    refine List.Perm.map _
      (perm_of_filter_key (fun pair => pair.2.recvKey) ?_)
    intro key
    rw [filter_matched own otherReads key, filter_matched own reads key]

/-- The files that `record_transfer` writes. -/
theorem localAddr_of_recordTransfer {subnet : ℤ} {lines : List MessageLine}
    {line : RecordLine} (written : line ∈ recordTransfer subnet lines) :
    line.cmdInfo.localAddr = subnet := by
  obtain ⟨_, _, rfl⟩ := List.mem_map.mp written
  rfl

/-- The messages of two chiplets: the first sends three, two of them on one
connection, and the second receives these two. -/
def twoChiplets (i : ℕ) : List RecordLine :=
  recordTransfer i
    (match i with
    | 0 => [⟨"send", 5, 1, 7, 0, 20⟩, ⟨"send", 5, 1, 8, 1, 10⟩,
        ⟨"send", 5, 1, 7, 2, 40⟩]
    | 1 => [⟨"recv", 7, 0, 5, 3, 30⟩, ⟨"recv", 7, 0, 5, 4, 50⟩]
    | _ => [])

/-- The first send goes with the first receive and the second with the
second. -/
def twoMatched : List (SMsgPhysicalInfo ℕ) :=
  [⟨0, 0, 1, 3, 20, 30⟩, ⟨0, 2, 1, 4, 40, 50⟩]

theorem combine_matches_two :
    GetCoreTraces (readRecords twoChiplets [1, 0]) twoMatched ∧
      Ordered SMsgPhysicalInfo.sentTime twoMatched ∧
      ∀ otherOutput,
        GetCoreTraces (readRecords twoChiplets [0, 1]) otherOutput →
        otherOutput.Perm twoMatched := by
  have own : ∀ i, ∀ line ∈ twoChiplets i,
      line.cmdInfo.localAddr = (i : ℤ) :=
    fun i line written => localAddr_of_recordTransfer written
  have reads : [1, 0].Perm (List.range 2) := by decide
  have otherReads : [0, 1].Perm (List.range 2) := by decide
  have traces : GetCoreTraces (readRecords twoChiplets [1, 0])
      twoMatched := by
    refine ⟨?_, List.pairwise_pair.mpr (by decide)⟩
    have computed : (matchRecords
        (readRecords twoChiplets [1, 0])).vPhyInfo = twoMatched := by decide
    rw [computed]
  obtain ⟨_, sorted, other⟩ := combine_matches_connections own reads traces
  exact ⟨traces, sorted, other [0, 1] otherReads⟩

end Connections

end ChipletSniper.Traces
