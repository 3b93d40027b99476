import Mathlib.Algebra.BigOperators.Group.Finset.Basic
import Mathlib.Algebra.BigOperators.Fin
import Mathlib.Tactic.Linarith
import ChipletSniper.Interchiplet.Hub

/-!
# Nothing is lost, duplicated or reordered in the hub

Waiting requests and waiting messages are two queues of which one is always
empty.  The invariant ties both to the history: what was written to a subnet,
followed by what still waits for it, is what was addressed to it.
-/

namespace ChipletSniper.Interchiplet

open Function

/-! ## The queues against the history -/

/-- The invariant of the loop.  `addressed i` lists the payloads sent to
subnet `i` and `recvs i` counts its requests; `delivered i` lists the payloads
written to it and `wraps i` counts how often the 32-bit counter `reading[i]`
overflowed. -/
structure Conserved {Payload Frame : Type} (encode : Payload → Frame)
    (bound : Nat) (hub : Hub Payload Frame)
    (addressed : Nat → List Payload) (recvs : Nat → Nat)
    (delivered : Nat → List Payload) (wraps : Nat → Nat) : Prop where
  written : ∀ i, hub.written i = (delivered i).map encode
  oneSided : ∀ i, hub.reading i = 0 ∨ hub.routerBuf i = []
  history : ∀ i, delivered i ++ hub.routerBuf i = addressed i
  requests : ∀ i,
    recvs i = (delivered i).length + (hub.reading i).toNat + 2 ^ 32 * wraps i
  total : hub.forwardCnt =
    UInt64.ofNat (∑ i ∈ Finset.range bound, (delivered i).length)

section Deliver

variable {Payload Frame : Type} {encode : Payload → Frame}

private theorem total_deliver {bound i : Nat} (inside : i < bound)
    (delivered : Nat → List Payload) (payload : Payload) :
    ∑ k ∈ Finset.range bound,
        (update delivered i (delivered i ++ [payload]) k).length =
      (∑ k ∈ Finset.range bound, (delivered k).length) + 1 := by
  have member : i ∈ Finset.range bound := Finset.mem_range.mpr inside
  rw [← Finset.add_sum_erase _ _ member,
    ← Finset.add_sum_erase _ (fun k => (delivered k).length) member]
  have others :
      ∑ k ∈ (Finset.range bound).erase i,
          (update delivered i (delivered i ++ [payload]) k).length =
        ∑ k ∈ (Finset.range bound).erase i, (delivered k).length :=
    Finset.sum_congr rfl fun k inErase => by
      rw [update_of_ne (Finset.ne_of_mem_erase inErase)]
  rw [others, update_self, List.length_append, List.length_singleton]
  omega

private theorem uint64_ofNat_succ (count : Nat) :
    UInt64.ofNat count + 1 = UInt64.ofNat (count + 1) := by
  rw [UInt64.ofNat_add]
  rfl

/-- Writing a payload keeps the part of the invariant that speaks about the
sockets. -/
private theorem written_deliver {hub : Hub Payload Frame}
    {delivered : Nat → List Payload}
    (written : ∀ i, hub.written i = (delivered i).map encode)
    (i : Nat) (payload : Payload) :
    ∀ k,
      (hub.forward encode i payload).written k =
        (update delivered i (delivered i ++ [payload]) k).map
          encode := by
  intro k
  by_cases same : k = i
  · subst same
    simp [Hub.forward, written]
  · simp [Hub.forward, update_of_ne same, written]

end Deliver

namespace Conserved

variable {Payload Frame : Type} {encode : Payload → Frame} {bound : Nat}
variable {hub : Hub Payload Frame} {addressed : Nat → List Payload}
variable {recvs : Nat → Nat} {delivered : Nat → List Payload}
variable {wraps : Nat → Nat}

theorem start :
    Conserved encode bound Hub.start (fun _ => []) (fun _ => 0)
      (fun _ => []) (fun _ => 0) where
  written := fun _ => rfl
  oneSided := fun _ => Or.inl rfl
  history := fun _ => rfl
  requests := fun _ => rfl
  total := by simp [Hub.start]

/-- A request of subnet `target`. -/
theorem recv
    (conserved :
      Conserved encode bound hub addressed recvs delivered wraps)
    {target : Nat} (inside : target < bound) :
    ∃ delivered' wraps',
      Conserved encode bound (hub.onRecv encode target) addressed
        (update recvs target (recvs target + 1))
        delivered' wraps' := by
  cases waiting : hub.routerBuf target with
  | nil =>
      -- the request is counted; the counter may overflow
      refine ⟨delivered,
        update wraps target
          (wraps target + ((hub.reading target).toNat + 1) / 2 ^ 32), ?_⟩
      have shape :
          hub.onRecv encode target =
            { hub with
              reading :=
                update hub.reading target (hub.reading target + 1)
              getRecvCnt := hub.getRecvCnt + 1 } := by
        simp [Hub.onRecv, waiting]
      rw [shape]
      refine ⟨conserved.written, ?_, conserved.history, ?_, conserved.total⟩
      · intro i
        by_cases same : i = target
        · exact Or.inr (by rw [same]; exact waiting)
        · simpa [update_of_ne same] using conserved.oneSided i
      · intro i
        by_cases same : i = target
        · subst same
          simp only [update_self, conserved.requests i,
            UInt32.toNat_add, UInt32.toNat_one]
          omega
        · simpa [update_of_ne same] using conserved.requests i
  | cons front rest =>
      -- the oldest waiting message answers the request
      refine ⟨update delivered target (delivered target ++ [front]),
        wraps, ?_⟩
      have shape :
          hub.onRecv encode target =
            { hub.forward encode target front with
              routerBuf := update hub.routerBuf target rest
              getRecvCnt := hub.getRecvCnt + 1 } := by
        simp [Hub.onRecv, waiting]
      rw [shape]
      refine ⟨written_deliver conserved.written target front, ?_, ?_, ?_, ?_⟩
      · intro i
        by_cases same : i = target
        · subst same
          have idle : hub.reading i = 0 := by
            simpa [waiting] using conserved.oneSided i
          exact Or.inl idle
        · simpa [Hub.forward, update_of_ne same] using
            conserved.oneSided i
      · intro i
        rw [← conserved.history i]
        by_cases same : i = target
        · subst same
          simp [waiting]
        · simp [update_of_ne same]
      · intro i
        by_cases same : i = target
        · subst same
          simp only [update_self, conserved.requests i, Hub.forward,
            List.length_append, List.length_singleton]
          omega
        · simpa [update_of_ne same, Hub.forward] using
            conserved.requests i
      · rw [total_deliver inside, ← uint64_ofNat_succ, ← conserved.total]
        rfl

/-- A message for an existing subnet. -/
theorem send
    (conserved :
      Conserved encode bound hub addressed recvs delivered wraps)
    {subnetCount : UInt16} (width : subnetCount.toNat = bound)
    {target : Nat} (inside : target < bound) (payload : Payload) :
    ∃ delivered' wraps',
      Conserved encode bound
        (hub.onSend encode subnetCount target payload)
        (update addressed target (addressed target ++ [payload]))
        recvs delivered' wraps' := by
  have range :
      (0 : Int) ≤ target ∧ (target : Int) < subnetCount.toNat := by
    constructor <;> omega
  by_cases idle : hub.reading target = 0
  · -- nobody waits: the message is queued
    refine ⟨delivered, wraps, ?_⟩
    have shape :
        hub.onSend encode subnetCount target payload =
          { hub with
            routerBuf :=
              update hub.routerBuf target
                (hub.routerBuf target ++ [payload])
            getSendCnt := hub.getSendCnt + 1 } := by
      simp [Hub.onSend, range, idle]
    rw [shape]
    refine ⟨conserved.written, ?_, ?_, conserved.requests, conserved.total⟩
    · intro i
      by_cases same : i = target
      · exact Or.inl (by rw [same]; exact idle)
      · simpa [update_of_ne same] using conserved.oneSided i
    · intro i
      by_cases same : i = target
      · subst same
        simp [← conserved.history i]
      · simpa [update_of_ne same] using conserved.history i
  · -- a request waits: the message goes straight out
    refine ⟨update delivered target (delivered target ++ [payload]),
      wraps, ?_⟩
    have shape :
        hub.onSend encode subnetCount target payload =
          { hub.forward encode target payload with
            reading :=
              update hub.reading target (hub.reading target - 1)
            getSendCnt := hub.getSendCnt + 1 } := by
      simp [Hub.onSend, range, idle]
    have nothingQueued : hub.routerBuf target = [] :=
      (conserved.oneSided target).resolve_left idle
    rw [shape]
    refine ⟨written_deliver conserved.written target payload, ?_, ?_, ?_, ?_⟩
    · intro i
      by_cases same : i = target
      · exact Or.inr (by rw [same]; exact nothingQueued)
      · simpa [Hub.forward, update_of_ne same] using
          conserved.oneSided i
    · intro i
      by_cases same : i = target
      · subst same
        simp [Hub.forward, nothingQueued, ← conserved.history i]
      · simpa [Hub.forward, update_of_ne same] using
          conserved.history i
    · intro i
      by_cases same : i = target
      · subst same
        have positive : 1 ≤ (hub.reading i).toNat := by
          rcases Nat.eq_zero_or_pos (hub.reading i).toNat with zero | pos
          · exact absurd (UInt32.toNat_inj.mp (by simpa using zero)) idle
          · exact pos
        have lowered : (hub.reading i - 1).toNat = (hub.reading i).toNat - 1 :=
          UInt32.toNat_sub_of_le _ _ (UInt32.le_iff_toNat_le.mpr positive)
        simp only [conserved.requests i, update_self, lowered,
          List.length_append, List.length_singleton]
        omega
      · simpa [update_of_ne same] using conserved.requests i
    · rw [total_deliver inside, ← uint64_ofNat_succ, ← conserved.total]
      rfl

/-- A message for no subnet is dropped. -/
theorem drop
    (conserved :
      Conserved encode bound hub addressed recvs delivered wraps)
    {subnetCount : UInt16} (width : subnetCount.toNat = bound)
    {desAddr : Int} (outside : ¬ (0 ≤ desAddr ∧ desAddr < bound))
    (payload : Payload) :
    Conserved encode bound (hub.onSend encode subnetCount desAddr payload)
      addressed recvs delivered wraps := by
  have shape :
      hub.onSend encode subnetCount desAddr payload =
        { hub with getSendCnt := hub.getSendCnt + 1 } := by
    unfold Hub.onSend
    rw [if_neg (by rw [width]; exact outside)]
  rw [shape]
  exact ⟨conserved.written, conserved.oneSided, conserved.history,
    conserved.requests, conserved.total⟩

end Conserved

/-! ## Reading a message back -/

theorem writeMsg_of_le {str : Text} (short : str.length ≤ msgLen) :
    writeMsg str = str ++ ['\x00'] := by
  unfold writeMsg
  rw [List.take_of_length_le short]
  obtain ⟨gap, gapEquality⟩ : ∃ gap, msgLen + 1 - str.length = gap + 1 :=
    ⟨msgLen - str.length, by omega⟩
  rw [gapEquality, List.replicate_succ, List.take_append]
  simp

theorem cString_append {plain rest : Text}
    (clean : ∀ c ∈ plain, c ≠ '\x00') :
    cString (plain ++ rest) = plain ++ cString rest := by
  unfold cString
  rw [List.takeWhile_append_of_pos]
  intro c member
  simpa using clean c member

theorem getline_append {plain rest : Text}
    (clean : ∀ c ∈ plain, c ≠ '\n') :
    getline (plain ++ rest) = plain ++ getline rest := by
  unfold getline
  rw [List.takeWhile_append_of_pos]
  intro c member
  simpa using clean c member

theorem getline_append_newline (line : Text) :
    getline (line ++ ['\n']) = getline line := by
  unfold getline
  induction line with
  | nil => rfl
  | cons head tail ih =>
      simp only [List.cons_append, List.takeWhile_cons, ih]

private theorem toDigits_ne {number : Nat} {c unwanted : Char}
    (member : c ∈ Nat.toDigits 10 number)
    (notDigit : unwanted.isDigit = false) :
    c ≠ unwanted := by
  rintro rfl
  have digit :=
    Nat.isDigit_of_mem_toDigits (b := 10) (by omega) (by omega) member
  rw [notDigit] at digit
  exact absurd digit (by decide)

private theorem blanks_ne {pad : Nat} {c unwanted : Char}
    (member : c ∈ List.replicate pad ' ') (notBlank : ' ' ≠ unwanted) :
    c ≠ unwanted := by
  rw [List.eq_of_mem_replicate member]
  exact notBlank

theorem cString_body (pad desAddr : Nat) (rest : Text) :
    cString (Message.body pad desAddr rest) =
      Message.body pad desAddr (cString rest) := by
  unfold Message.body
  rw [cString_append fun c member => blanks_ne member (by decide),
    cString_append fun c member => toDigits_ne member (by decide)]
  rfl

theorem payload_eq (pad desAddr : Nat) (rest : Text) :
    Message.payload pad desAddr rest =
      Message.body pad desAddr (getline (cString rest)) := by
  unfold Message.payload
  rw [cString_body]
  unfold Message.body
  rw [getline_append fun c member => blanks_ne member (by decide),
    getline_append fun c member => toDigits_ne member (by decide)]
  rfl

theorem stol_payload (pad : Nat) {desAddr : Nat} (rest : Text)
    (small : desAddr ≤ 9223372036854775807) :
    stol (Message.payload pad desAddr rest) = some (desAddr : Int) := by
  rw [payload_eq]
  exact stol_spaces_toDigits (pad + 1) desAddr small (by simp)

theorem payload_length_le (pad desAddr : Nat) (rest : Text) :
    (Message.payload pad desAddr rest).length ≤
      (Message.body pad desAddr rest).length :=
  le_trans (List.takeWhile_prefix _).length_le
    (List.takeWhile_prefix _).length_le

theorem extractWord_recv :
    extractWord (readMsg (Message.text .recv) ++ ['\n']) =
      some (['r', 'e', 'c', 'v'], ['\n']) := by
  decide

theorem extractWord_send (pad desAddr : Nat) (rest : Text) :
    extractWord (readMsg (Message.text (.send pad desAddr rest)) ++ ['\n']) =
      some (['s', 'e', 'n', 'd'],
        cString (Message.body pad desAddr rest) ++ ['\n']) := by
  have clean : ∀ c ∈ (['s', 'e', 'n', 'd'] : Text), c ≠ '\x00' := by
    simp
  unfold readMsg Message.text
  rw [cString_append clean, cString_body]
  rfl

/-! ## The effect of one request -/

namespace Loop

theorem handle_recv (loop : Loop) (subnetCount : UInt16) (i : Nat) :
    loop.handle subnetCount i (Message.text .recv) =
      some ⟨loop.hub.onRecv lineFrame i, ['r', 'e', 'c', 'v']⟩ := by
  unfold handle
  rw [extractWord_recv]
  rfl

theorem handle_send (loop : Loop) (subnetCount : UInt16) (i : Nat)
    (pad : Nat) {desAddr : Nat} (rest : Text)
    (small : desAddr ≤ 9223372036854775807) :
    loop.handle subnetCount i (Message.text (.send pad desAddr rest)) =
      some ⟨loop.hub.onSend lineFrame subnetCount desAddr
        (Message.payload pad desAddr rest), ['s', 'e', 'n', 'd']⟩ := by
  have line :
      getline (cString (Message.body pad desAddr rest) ++ ['\n']) =
        Message.payload pad desAddr rest :=
    getline_append_newline _
  unfold handle
  rw [extractWord_send]
  simp only [Option.getD_some, line, stol_payload pad rest small]
  rfl

end Loop

private theorem addressedTo_append (i : Nat)
    (handled : List Request) (request : Request) :
    addressedTo i (handled ++ [request]) =
      addressedTo i handled ++ (request.payloadTo i).toList := by
  unfold addressedTo
  rw [List.filterMap_append]
  cases shape : request.payloadTo i <;> simp [shape]

private theorem recvCount_append (i : Nat)
    (handled : List Request) (request : Request) :
    recvCount i (handled ++ [request]) =
      recvCount i handled + if request.isRecvOf i then 1 else 0 := by
  unfold recvCount
  rw [List.countP_append, List.countP_singleton]

/-- The invariant for the requests handled so far. -/
def ConservedBy (subnetCount : UInt16) (hub : Hub Text Text)
    (handled : List Request) : Prop :=
  ∃ delivered wraps,
    Conserved lineFrame subnetCount.toNat hub
      (fun i => addressedTo i handled) (fun i => recvCount i handled)
      delivered wraps

/-- One handled request keeps the invariant, and the loop survives it. -/
theorem ConservedBy.handle {subnetCount : UInt16} {loop : Loop}
    {handled : List Request}
    (conserved : ConservedBy subnetCount loop.hub handled)
    {request : Request} (valid : request.Valid subnetCount)
    (fits : Fits request.message.text) :
    ∃ loop',
      loop.iteration subnetCount request.subnet request.message.text =
          some loop' ∧
        ConservedBy subnetCount loop'.hub (handled ++ [request]) := by
  obtain ⟨delivered, wraps, invariant⟩ := conserved
  rw [Loop.iteration_of_fits fits]
  cases shape : request.message with
  | recv =>
      refine ⟨_, loop.handle_recv subnetCount request.subnet, ?_⟩
      obtain ⟨delivered', wraps', kept⟩ := invariant.recv valid.1
      refine ⟨delivered', wraps', ?_⟩
      have sameAddressed :
          (fun i => addressedTo i (handled ++ [request])) =
            fun i => addressedTo i handled := by
        funext i
        simp [addressedTo_append, Request.payloadTo, shape]
      have oneMore :
          (fun i => recvCount i (handled ++ [request])) =
            update (fun i => recvCount i handled) request.subnet
              (recvCount request.subnet handled + 1) := by
        funext i
        rw [recvCount_append]
        by_cases same : i = request.subnet
        · subst same
          simp [Request.isRecvOf, shape]
        · simp [Request.isRecvOf, shape, update_of_ne same,
            Ne.symm same]
      rw [sameAddressed, oneMore]
      exact kept
  | send pad desAddr rest =>
      have inside := valid.2 pad desAddr rest shape
      have small : desAddr ≤ 9223372036854775807 := by
        have width := subnetCount.toNat_lt
        omega
      refine ⟨_, loop.handle_send subnetCount _ pad rest small, ?_⟩
      obtain ⟨delivered', wraps', kept⟩ :=
        invariant.send rfl inside (Message.payload pad desAddr rest)
      refine ⟨delivered', wraps', ?_⟩
      have oneMore :
          (fun i => addressedTo i (handled ++ [request])) =
            update (fun i => addressedTo i handled) desAddr
              (addressedTo desAddr handled ++
                [Message.payload pad desAddr rest]) := by
        funext i
        rw [addressedTo_append]
        by_cases same : i = desAddr
        · subst same
          simp [Request.payloadTo, shape]
        · simp [Request.payloadTo, shape, update_of_ne same,
            Ne.symm same]
      have sameRecvs :
          (fun i => recvCount i (handled ++ [request])) =
            fun i => recvCount i handled := by
        funext i
        simp [recvCount_append, Request.isRecvOf, shape]
      rw [oneMore, sameRecvs]
      exact kept

/-- Any sequence of requests keeps the invariant. -/
theorem ConservedBy.run {subnetCount : UInt16} {loop : Loop}
    {handled : List Request}
    (conserved : ConservedBy subnetCount loop.hub handled) :
    ∀ {requests : List Request},
      (∀ request ∈ requests, request.Valid subnetCount) →
      (∀ request ∈ requests, Fits request.message.text) →
      ∃ loop',
        loop.run subnetCount (frames requests) = some loop' ∧
          ConservedBy subnetCount loop'.hub (handled ++ requests) := by
  intro requests
  induction requests generalizing loop handled with
  | nil =>
      intro _ _
      exact ⟨loop, rfl, by simpa using conserved⟩
  | cons request rest ih =>
      intro valid fit
      obtain ⟨middle, first, kept⟩ :=
        conserved.handle (valid request List.mem_cons_self)
          (fit request List.mem_cons_self)
      obtain ⟨final, remaining, conclusion⟩ :=
        ih kept
          (fun later member =>
            valid later (List.mem_cons_of_mem request member))
          fun later member => fit later (List.mem_cons_of_mem request member)
      refine ⟨final, ?_, by simpa using conclusion⟩
      simp only [Loop.run, frames, List.map_cons, List.foldlM_cons, first]
      exact remaining

/-! ## The law of the hub -/

/-- A payload that came in a frame leaves as the payload, a newline and the
terminating zero. -/
theorem lineFrame_payload {pad desAddr : Nat} {rest : Text}
    (fits : Fits (Message.text (.send pad desAddr rest))) :
    lineFrame (Message.payload pad desAddr rest) =
      Message.payload pad desAddr rest ++ ['\n', '\x00'] := by
  have bodyBound := payload_length_le pad desAddr rest
  have short : (Message.text (.send pad desAddr rest)).length ≤ msgLen + 1 :=
    fits.elim Nat.le_succ_of_le fun full => full.1.le
  simp only [Message.text, List.length_append, List.length_cons,
    List.length_nil] at short
  unfold lineFrame
  rw [writeMsg_of_le]
  · simp
  · rw [List.length_append, List.length_singleton]
    omega

/-- Whatever the order in which the hub handles the lines of its subnets, as
long as they fit its buffer: no subnet has both waiting requests and waiting
messages, the payloads written to a subnet and those queued for it are the
payloads addressed to it in order, and the counters agree with the history up
to their width. -/
theorem hub_conserves_messages (subnetCount : UInt16)
    (requests : List Request)
    (valid : ∀ request ∈ requests, request.Valid subnetCount)
    (fit : ∀ request ∈ requests, Fits request.message.text) :
    ∃ loop,
      Loop.start.run subnetCount (frames requests) = some loop ∧
      ∃ delivered : Nat → List Text,
        (∀ i, loop.hub.written i =
          (delivered i).map fun payload => payload ++ ['\n', '\x00']) ∧
        (∀ i, i < subnetCount.toNat →
          (loop.hub.reading i = 0 ∨ loop.hub.routerBuf i = []) ∧
          delivered i ++ loop.hub.routerBuf i = addressedTo i requests ∧
          ((delivered i).length + (loop.hub.reading i).toNat) % 2 ^ 32 =
            recvCount i requests % 2 ^ 32 ∧
          (recvCount i requests < (delivered i).length + 2 ^ 32 →
            (delivered i).length + (loop.hub.reading i).toNat =
              recvCount i requests)) ∧
        loop.hub.forwardCnt.toNat =
          (∑ i ∈ Finset.range subnetCount.toNat, (delivered i).length) %
            2 ^ 64 := by
  have initial : ConservedBy subnetCount Loop.start.hub [] :=
    ⟨_, _, Conserved.start⟩
  obtain ⟨loop, reached, delivered, wraps, conserved⟩ := initial.run valid fit
  rw [List.nil_append] at conserved
  refine ⟨loop, reached, delivered, ?_, ?_, ?_⟩
  · intro i
    rw [conserved.written i]
    apply List.map_congr_left
    intro payload member
    -- every delivered payload is the payload of some request
    have sent : payload ∈ addressedTo i requests := by
      rw [← conserved.history i]
      exact List.mem_append_left _ member
    obtain ⟨request, handled, carries⟩ := List.mem_filterMap.mp sent
    cases shape : request.message with
    | recv => simp [Request.payloadTo, shape] at carries
    | send pad desAddr rest =>
        simp only [Request.payloadTo, shape, Option.ite_none_right_eq_some,
          Option.some.injEq] at carries
        rw [← carries.2]
        exact lineFrame_payload (shape ▸ fit request handled)
  · intro i _
    have counted := conserved.requests i
    refine ⟨conserved.oneSided i, conserved.history i, ?_, ?_⟩
    · rw [counted, Nat.add_mul_mod_self_left]
    · intro few
      have noWrap : wraps i = 0 := by
        by_contra wrapped
        have one : 1 ≤ wraps i := Nat.one_le_iff_ne_zero.mpr wrapped
        omega
      rw [noWrap] at counted
      omega
  · rw [conserved.total, UInt64.toNat_ofNat']

/-- A `recv` of subnet `0`. -/
def firstRecv : Request where
  subnet := 0
  message := .recv

/-- A `send` of subnet `1` to subnet `0`. -/
def firstSend : Request where
  subnet := 1
  message := .send 0 0 ['x']

theorem hub_conserves_recv_send :
    ∃ loop,
      Loop.start.run 2 (frames [firstRecv, firstSend]) = some loop ∧
      ∃ delivered : Nat → List Text,
        (∀ i, loop.hub.written i =
          (delivered i).map fun payload => payload ++ ['\n', '\x00']) ∧
        (∀ i, i < (2 : UInt16).toNat →
          (loop.hub.reading i = 0 ∨ loop.hub.routerBuf i = []) ∧
          delivered i ++ loop.hub.routerBuf i =
            addressedTo i [firstRecv, firstSend] ∧
          ((delivered i).length + (loop.hub.reading i).toNat) % 2 ^ 32 =
            recvCount i [firstRecv, firstSend] % 2 ^ 32 ∧
          (recvCount i [firstRecv, firstSend] <
              (delivered i).length + 2 ^ 32 →
            (delivered i).length + (loop.hub.reading i).toNat =
              recvCount i [firstRecv, firstSend])) ∧
        loop.hub.forwardCnt.toNat =
          (∑ i ∈ Finset.range (2 : UInt16).toNat, (delivered i).length) %
            2 ^ 64 := by
  apply hub_conserves_messages 2 [firstRecv, firstSend] _ (by decide)
  intro request member
  simp only [List.mem_cons, List.not_mem_nil, or_false] at member
  rcases member with rfl | rfl
  · exact ⟨by decide, fun _ _ _ equality => by cases equality⟩
  · refine ⟨by decide, fun pad desAddr rest equality => ?_⟩
    cases equality
    decide

/-- Unanswered requests only move the counter of their subnet. -/
theorem run_replicate_firstRecv (count : Nat) :
    ∀ loop : Loop, loop.hub.routerBuf 0 = [] →
      ∃ loop',
        loop.run 1 (frames (List.replicate count firstRecv)) = some loop' ∧
          loop'.hub.written 0 = loop.hub.written 0 ∧
          loop'.hub.reading 0 = loop.hub.reading 0 + UInt32.ofNat count := by
  induction count with
  | zero =>
      intro loop _
      exact ⟨loop, rfl, rfl, by simp⟩
  | succ count ih =>
      intro loop empty
      let next : Loop :=
        ⟨loop.hub.onRecv lineFrame 0, ['r', 'e', 'c', 'v']⟩
      have nextEmpty : next.hub.routerBuf 0 = [] := by
        simp [next, Hub.onRecv, empty]
      have nextReading : next.hub.reading 0 = loop.hub.reading 0 + 1 := by
        simp [next, Hub.onRecv, empty]
      have nextWritten : next.hub.written 0 = loop.hub.written 0 := by
        simp [next, Hub.onRecv, empty]
      obtain ⟨final, remaining, written, reading⟩ :=
        ih next nextEmpty
      refine ⟨final, ?_, written.trans nextWritten, ?_⟩
      · rw [List.replicate_succ]
        simp only [frames, List.map_cons, Loop.run, List.foldlM_cons]
        rw [show firstRecv.message = .recv from rfl,
          Loop.iteration_of_fits (by decide), Loop.handle_recv]
        exact remaining
      · rw [reading, nextReading, UInt32.add_assoc,
          UInt32.ofNat_add count 1, UInt32.add_comm (UInt32.ofNat count)]
        rfl

/-- A `send` of subnet `0` to itself that is longer than `MSG_LEN`. -/
def longSend : Request where
  subnet := 0
  message := .send 0 0 (List.replicate msgLen 'x')

theorem longSend_valid : longSend.Valid 1 := by
  refine ⟨by decide, fun pad desAddr rest equality => ?_⟩
  cases equality
  decide

theorem run_longSend : Loop.start.run 1 (frames [longSend]) = none := by
  have long : msgLen + 1 < longSend.message.text.length := by
    simp only [longSend, Message.text, Message.body, List.length_append,
      List.length_replicate, List.length_cons]
    omega
  have overrun : ¬ Fits longSend.message.text := by
    rintro (short | ⟨full, -⟩) <;> omega
  simp [Loop.run, frames, Loop.iteration, readFrame_of_not_fits overrun]

/-- `reading` is a vector of `unsigned`: after `2 ^ 32` unanswered requests it
is zero again. A long message overruns the buffer. -/
theorem reading_overflows :
    (∃ loop,
      Loop.start.run 1 (frames (List.replicate (2 ^ 32) firstRecv)) =
          some loop ∧
        (loop.hub.written 0).length + (loop.hub.reading 0).toNat ≠
          recvCount 0 (List.replicate (2 ^ 32) firstRecv)) ∧
    longSend.Valid 1 ∧ Loop.start.run 1 (frames [longSend]) = none := by
  obtain ⟨loop, reached, written, reading⟩ :=
    run_replicate_firstRecv (2 ^ 32) Loop.start rfl
  have counted :
      recvCount 0 (List.replicate (2 ^ 32) firstRecv) = 2 ^ 32 := by
    unfold recvCount
    rw [List.countP_replicate]
    rfl
  refine ⟨⟨loop, reached, ?_⟩, longSend_valid, run_longSend⟩
  rw [counted, written, reading]
  decide

end ChipletSniper.Interchiplet
