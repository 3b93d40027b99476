import Mathlib.Data.List.Infix
import ChipletSniper.Interchiplet.Malformed

/-!
# The relay between a recorder and the hub

`zmq_pro` reads lines from the socket of its recorder.  `receiveLine` collects
what `recv` returns until it holds a newline, cuts the buffer into lines and
keeps the last piece, and the loop of `main` handles one line at a time.  When
`receiveLine` is called while lines are still queued it returns `0`, which the
loop takes for the end of the stream.
-/

namespace ChipletSniper.Interchiplet

/-- `BUF_SIZE`. -/
def bufSize : Nat := 4096

/-! ## The socket of the recorder -/

/-- The static variables of `receiveLine`: the first `remain` bytes of `buf`
and the queue `lines`; with what `recv` returns up to the end of the stream. -/
structure SniperConn where
  buf : Text
  lines : List Text
  chunks : List Text

/-- How the loop around `recv` ends. -/
inductive Filling where
  | closed (buf : Text) (chunks : List Text)
  | newline (buf : Text) (chunks : List Text)
  | tooLong

/-- The loop around `recv`. -/
def fillBuf (buf : Text) : List Text → Filling
  | [] => .closed buf []
  | chunk :: rest =>
      if chunk = [] then .closed buf rest
      else if bufSize ≤ (buf ++ chunk).length then .tooLong
      else if '\n' ∈ buf ++ chunk then .newline (buf ++ chunk) rest
      else fillBuf (buf ++ chunk) rest

/-- `receiveLine` with its return value; `none` when it throws. -/
def SniperConn.receiveLine (conn : SniperConn) : Option (Nat × SniperConn) :=
  if conn.lines = [] then
    match fillBuf conn.buf conn.chunks with
    | .tooLong => none
    | .closed buf chunks => some (0, ⟨buf, [], chunks⟩)
    | .newline buf chunks =>
        let pieces := buf.splitOn '\n'
        let lines := pieces.dropLast.map cString
        some (lines.length, ⟨pieces.getLastD [], lines, chunks⟩)
  else some (0, conn)

/-! ## The loop of `main` -/

/-- `nsInterchiplet::writeMsg`: the frame it sends.  `none` when the text and
its zero byte overrun the buffer. -/
def clientWriteMsg (str : Text) : Option Text :=
  if str.length < msgLen then
    some (str ++ List.replicate (msgLen - 1 - str.length) '\x00')
  else none

/-- What handling a line writes, and whether it ends the loop. -/
structure Handled where
  toHub : List Text
  toSniper : List Text
  exits : Bool

def exitText : Text := ['e', 'x', 'i', 't']

/-- The body of the loop for a line.  `reply` is what the hub answers. -/
def handleLine (line reply : Text) : Option Handled :=
  match extractWord (line ++ ['\n']) with
  | none => some ⟨[], [], false⟩
  | some (cmd, rest) =>
      if cmd = sendCommand then
        (clientWriteMsg (sendCommand ++ ' ' :: getline rest)).map fun frame =>
          ⟨[frame], [['s', 'e', 'n', 'd', '_', 'r', 'e', 't']], false⟩
      else if cmd = recvCommand then
        (clientWriteMsg (recvCommand ++ ['\n'])).map fun frame =>
          if exitText <:+: reply then ⟨[frame], [], true⟩
          else ⟨[frame], [reply], false⟩
      else some ⟨[], [], false⟩

/-- The relay: its socket, the lines it has handled, and what it has written
to the hub and to the recorder. -/
structure RelayLoop where
  conn : SniperConn
  handled : List Text
  toHub : List Text
  toSniper : List Text

def RelayLoop.start (chunks : List Text) : RelayLoop where
  conn := ⟨[], [], chunks⟩
  handled := []
  toHub := []
  toSniper := []

/-- Where the loop stands after an iteration. -/
inductive LoopState where
  | running (relay : RelayLoop)
  | left (relay : RelayLoop)
  | aborted

namespace RelayLoop

/-- An iteration of the loop.  `reply n` is what the hub answers when line `n`
asks for a message. -/
def iteration (reply : Nat → Text) (relay : RelayLoop) : LoopState :=
  match relay.conn.receiveLine with
  | none => .aborted
  | some (r, conn) =>
      if r ≤ 0 then .left { relay with conn := conn }
      else
        match conn.lines with
        | [] => .aborted
        | front :: rest =>
            match handleLine front (reply relay.handled.length) with
            | none => .aborted
            | some effect =>
                let next : RelayLoop :=
                  { conn := conn
                    handled := relay.handled ++ [front]
                    toHub := relay.toHub ++ effect.toHub
                    toSniper := relay.toSniper ++ effect.toSniper }
                if effect.exits then .left next
                else .running { next with conn := { conn with lines := rest } }

/-- The first iterations of the loop. -/
def main (reply : Nat → Text) : Nat → RelayLoop → LoopState
  | 0, relay => .running relay
  | count + 1, relay =>
      match relay.iteration reply with
      | .running next => main reply count next
      | .left next => .left next
      | .aborted => .aborted

/-- The loop is left in a state with the property. -/
def Leaves (reply : Nat → Text) (relay : RelayLoop)
    (Final : RelayLoop → Prop) : Prop :=
  ∃ count final, relay.main reply count = .left final ∧ Final final

end RelayLoop

/-- The stream of the lines. -/
def streamOf (lines : List Text) : Text :=
  lines.flatMap (· ++ ['\n'])

/-- The loop handles the lines of the stream, each once and in order, and is
left after that. -/
def HandlesLines (reply : Nat → Text) (chunks lines : List Text) : Prop :=
  (RelayLoop.start chunks).Leaves reply fun final => final.handled = lines

/-- The hub reads the text that the relay has written. -/
theorem readFrame_clientWriteMsg {str frame : Text}
    (sent : clientWriteMsg str = some frame) :
    readFrame frame = some (cString str) := by
  unfold clientWriteMsg at sent
  split_ifs at sent with short
  cases sent
  have fits : Fits (str ++ List.replicate (msgLen - 1 - str.length) '\x00') := by
    left
    simp only [List.length_append, List.length_replicate]
    omega
  rw [readFrame_of_fits fits]
  exact congrArg some (cString_append_zeros _ _)

/-! ## Lines of the stream -/

/-- The first newline of a text is at one place. -/
theorem cut_unique {before before' after after' : Text}
    (clean : '\n' ∉ before) (clean' : '\n' ∉ before')
    (same : before ++ '\n' :: after = before' ++ '\n' :: after') :
    before = before' ∧ after = after' := by
  have pieces := congrArg (List.splitOn '\n') same
  rw [List.splitOn_append_cons_self_of_not_mem clean,
    List.splitOn_append_cons_self_of_not_mem clean'] at pieces
  obtain rfl := (List.cons.inj pieces).1
  exact ⟨rfl, (List.cons.inj (List.append_cancel_left same)).2⟩

/-- A text without a newline that the stream begins with fits its first
line. -/
theorem length_le_of_streamOf {buf later line : Text} {lines : List Text}
    (clean : '\n' ∉ buf)
    (stream : buf ++ later = streamOf (line :: lines)) :
    buf.length ≤ line.length := by
  have whole : buf ++ later = line ++ ('\n' :: streamOf lines) := by
    rw [stream]
    simp [streamOf]
  by_contra longer
  have first : (line ++ ['\n']) <+: buf := by
    refine List.prefix_of_prefix_length_le ⟨streamOf lines, ?_⟩
      ⟨later, rfl⟩ (by simp; omega)
    rw [whole]
    simp
  exact clean (first.subset (by simp))

theorem streamOf_eq_of_not_mem {buf : Text} {lines : List Text}
    (clean : '\n' ∉ buf) (stream : buf = streamOf lines) :
    lines = [] := by
  cases lines with
  | nil => rfl
  | cons line lines =>
      exact absurd (by simp [stream, streamOf]) clean

/-! ## One line -/

/-- The message that a `send` line is turned into fits the buffer of
`writeMsg`. -/
def FitsHub (line : Text) : Prop :=
  ∀ rest, extractWord (line ++ ['\n']) = some (sendCommand, rest) →
    (sendCommand ++ ' ' :: getline rest).length < msgLen

/-- The line asks for a message, and the hub answers that it exits. -/
def EndsLoop (line reply : Text) : Prop :=
  (∃ rest, extractWord (line ++ ['\n']) = some (recvCommand, rest)) ∧
    exitText <:+: reply

theorem handleLine_spec (line reply : Text) :
    (FitsHub line ∧ ∃ effect, handleLine line reply = some effect ∧
        (effect.exits = true ↔ EndsLoop line reply)) ∨
      (¬ FitsHub line ∧ handleLine line reply = none) := by
  unfold handleLine
  split
  · next blank =>
      refine Or.inl ⟨fun rest word => ?_, _, rfl, ?_⟩
      · rw [blank] at word
        cases word
      · simp [EndsLoop, blank]
  · next cmd rest word =>
      by_cases send : cmd = sendCommand
      · subst send
        rw [if_pos rfl]
        have fits : FitsHub line ↔
            (sendCommand ++ ' ' :: getline rest).length < msgLen := by
          simp [FitsHub, word]
        have stays : ¬ EndsLoop line reply := by
          simp [EndsLoop, word, sendCommand_ne_recvCommand]
        rw [fits]
        unfold clientWriteMsg
        split_ifs with short
        · exact Or.inl ⟨short, _, rfl, by simp [stays]⟩
        · exact Or.inr ⟨short, rfl⟩
      · rw [if_neg send]
        refine Or.inl ⟨fun other taken => ?_, ?_⟩
        · rw [word] at taken
          exact absurd (congrArg Prod.fst (Option.some.inj taken)) send
        · by_cases recv : cmd = recvCommand
          · subst recv
            have asks : clientWriteMsg (recvCommand ++ ['\n']) =
                some ((recvCommand ++ ['\n']) ++
                  List.replicate (msgLen - 1 - 5) '\x00') :=
              if_pos (by decide)
            rw [if_pos rfl, asks, Option.map_some]
            refine ⟨_, rfl, ?_⟩
            split_ifs with exits <;> simp [EndsLoop, word, exits]
          · rw [if_neg recv]
            exact ⟨_, rfl, by simp [EndsLoop, word, recv]⟩

/-! ## One iteration -/

namespace RelayLoop

variable {reply : Nat → Text} {relay : RelayLoop}

theorem leaves_iff {Final : RelayLoop → Prop} :
    relay.Leaves reply Final ↔
      match relay.iteration reply with
      | .running next => next.Leaves reply Final
      | .left final => Final final
      | .aborted => False := by
  constructor
  · rintro ⟨count, final, left, good⟩
    cases count with
    | zero => cases left
    | succ count =>
        simp only [main] at left
        split at left
        · exact ⟨count, final, left, good⟩
        · cases left
          exact good
        · cases left
  · intro steps
    split at steps
    · next next step =>
        obtain ⟨count, final, left, good⟩ := steps
        exact ⟨count + 1, final, by simp only [main, step, left], good⟩
    · next final step =>
        exact ⟨1, final, by simp only [main, step], steps⟩
    · exact steps.elim

/-- Handled lines stay handled. -/
theorem iteration_extends {next : RelayLoop}
    (step : relay.iteration reply = .running next ∨
      relay.iteration reply = .left next) :
    relay.handled <+: next.handled := by
  unfold iteration at step
  split at step
  · rcases step with step | step <;> cases step
  · split_ifs at step
    · rcases step with step | step <;> cases step
      exact List.prefix_rfl
    · split at step
      · rcases step with step | step <;> cases step
      · split at step
        · rcases step with step | step <;> cases step
        · split_ifs at step <;> rcases step with step | step <;> cases step <;>
            exact List.prefix_append _ _

theorem main_extends {count : Nat} {final : RelayLoop}
    (left : relay.main reply count = .left final) :
    relay.handled <+: final.handled := by
  induction count generalizing relay with
  | zero => cases left
  | succ count ih =>
      simp only [main] at left
      split at left
      · next next step =>
          exact (iteration_extends (Or.inl step)).trans
            (ih left)
      · next next step =>
          cases left
          exact iteration_extends (Or.inr step)
      · cases left

variable {buf chunk a b : Text} {rest : List Text} {handled : List Text}
variable {toHub toSniper : List Text}

/-- A chunk without a newline only fills the buffer. -/
theorem iteration_fill (nonempty : chunk ≠ [])
    (short : (buf ++ chunk).length < bufSize) (clean : '\n' ∉ buf ++ chunk) :
    iteration reply ⟨⟨buf, [], chunk :: rest⟩, handled, toHub, toSniper⟩ =
      iteration reply ⟨⟨buf ++ chunk, [], rest⟩, handled, toHub, toSniper⟩ := by
  have same : fillBuf buf (chunk :: rest) = fillBuf (buf ++ chunk) rest := by
    rw [fillBuf, if_neg nonempty, if_neg (by omega), if_neg clean]
  simp only [iteration, SniperConn.receiveLine, if_true, same]

/-- A line left in the queue ends the loop. -/
theorem iteration_queued (queued : relay.conn.lines ≠ []) :
    relay.iteration reply = .left relay := by
  simp [iteration, SniperConn.receiveLine, queued]

/-- A chunk with a newline completes the line that the buffer begins with. -/
theorem iteration_line (cleanBuf : '\n' ∉ buf) (cleanA : '\n' ∉ a)
    (short : (buf ++ (a ++ '\n' :: b)).length < bufSize) :
    iteration reply
        ⟨⟨buf, [], (a ++ '\n' :: b) :: rest⟩, handled, toHub, toSniper⟩ =
      match handleLine (cString (buf ++ a)) (reply handled.length) with
      | none => .aborted
      | some effect =>
          let lines := (b.splitOn '\n').dropLast.map cString
          let next (lines : List Text) : RelayLoop :=
            { conn := ⟨(b.splitOn '\n').getLastD [], lines, rest⟩
              handled := handled ++ [cString (buf ++ a)]
              toHub := toHub ++ effect.toHub
              toSniper := toSniper ++ effect.toSniper }
          if effect.exits then .left (next (cString (buf ++ a) :: lines))
          else .running (next lines) := by
  have clean : '\n' ∉ buf ++ a := by
    simp [cleanBuf, cleanA]
  have filled : fillBuf buf ((a ++ '\n' :: b) :: rest) =
      .newline (buf ++ (a ++ '\n' :: b)) rest := by
    rw [fillBuf, if_neg (by simp), if_neg (by omega), if_pos (by simp)]
  have pieces : (buf ++ (a ++ '\n' :: b)).splitOn '\n' =
      (buf ++ a) :: b.splitOn '\n' := by
    rw [← List.append_assoc]
    exact List.splitOn_append_cons_self_of_not_mem clean b
  obtain ⟨first, others, shape⟩ :=
    List.exists_cons_of_ne_nil (List.splitOn_ne_nil '\n' b)
  simp only [iteration, SniperConn.receiveLine, if_true, filled, pieces]
  rw [shape]
  simp

end RelayLoop

/-! ## Exactly the framed streams -/

/-- A chunk completes at most one line, no line holds a zero byte, every `send`
fits, and the hub exits at the last line if at all. -/
structure Framed (reply : Nat → Text) (chunks lines : List Text) : Prop where
  single : ∀ chunk ∈ chunks, chunk.count '\n' ≤ 1
  plain : ∀ line ∈ lines, '\x00' ∉ line
  fits : ∀ line ∈ lines, FitsHub line
  stays : ∀ (k : Nat) (later : k + 1 < lines.length),
    ¬ EndsLoop lines[k] (reply k)

/-- What the sender and the kernel provide: the chunks make up the stream, and
a line leaves room for a chunk in the buffer. -/
structure Chunked (buf : Text) (chunks lines : List Text) : Prop where
  clean : '\n' ∉ buf
  separate : ∀ line ∈ lines, '\n' ∉ line
  stream : buf ++ chunks.flatten = streamOf lines
  nonempty : ∀ chunk ∈ chunks, chunk ≠ []
  short : ∀ line ∈ lines, ∀ chunk ∈ chunks,
    line.length + chunk.length < bufSize

section Framing

variable {reply : Nat → Text} {buf chunk a b line : Text}
variable {rest lines : List Text}

theorem cString_eq_self_iff {text : Text} :
    cString text = text ↔ '\x00' ∉ text := by
  unfold cString
  rw [List.takeWhile_eq_self_iff]
  constructor
  · intro all member
    have differs := all _ member
    simp at differs
  · intro clean c member
    simp only [bne_iff_ne, ne_eq]
    rintro rfl
    exact clean member

theorem framed_fill (clean : '\n' ∉ chunk) :
    Framed reply (chunk :: rest) lines ↔ Framed reply rest lines := by
  have none : chunk.count '\n' = 0 := List.count_eq_zero.mpr clean
  constructor
  · intro framed
    exact ⟨fun other member => framed.single other
      (List.mem_cons_of_mem _ member), framed.plain, framed.fits, framed.stays⟩
  · intro framed
    refine ⟨?_, framed.plain, framed.fits, framed.stays⟩
    intro other member
    rcases List.mem_cons.mp member with rfl | member
    · omega
    · exact framed.single other member

theorem framed_line (cleanA : '\n' ∉ a) (cleanB : '\n' ∉ b) :
    Framed reply ((a ++ '\n' :: b) :: rest) (line :: lines) ↔
      ('\x00' ∉ line ∧ FitsHub line ∧
        (lines ≠ [] → ¬ EndsLoop line (reply 0))) ∧
      Framed (fun k => reply (k + 1)) rest lines := by
  have one : (a ++ '\n' :: b).count '\n' = 1 := by
    simp [List.count_append, List.count_eq_zero.mpr cleanA,
      List.count_eq_zero.mpr cleanB]
  constructor
  · intro framed
    refine ⟨⟨framed.plain line (List.mem_cons_self ..),
      framed.fits line (List.mem_cons_self ..), fun more => ?_⟩,
      fun other member => framed.single other (List.mem_cons_of_mem _ member),
      fun other member => framed.plain other (List.mem_cons_of_mem _ member),
      fun other member => framed.fits other (List.mem_cons_of_mem _ member),
      fun k later => framed.stays (k + 1) (by simpa using later)⟩
    exact framed.stays 0
      (by simpa using List.length_pos_iff.mpr more)
  · rintro ⟨⟨plain, fits, stays⟩, framed⟩
    refine ⟨?_, ?_, ?_, ?_⟩
    · intro other member
      rcases List.mem_cons.mp member with rfl | member
      · omega
      · exact framed.single other member
    · intro other member
      rcases List.mem_cons.mp member with rfl | member
      · exact plain
      · exact framed.plain other member
    · intro other member
      rcases List.mem_cons.mp member with rfl | member
      · exact fits
      · exact framed.fits other member
    · intro k later
      cases k with
      | zero =>
          exact stays (List.length_pos_iff.mp (by simpa using later))
      | succ k => exact framed.stays k (by simpa using later)

/-- The buffer and the next chunk fit. -/
theorem Chunked.fits_buffer
    (chunked : Chunked buf (chunk :: rest) (line :: lines)) :
    (buf ++ chunk).length < bufSize := by
  have within : buf.length ≤ line.length :=
    length_le_of_streamOf chunked.clean chunked.stream
  have room := chunked.short line (List.mem_cons_self ..) chunk
    (List.mem_cons_self ..)
  rw [List.length_append]
  omega

theorem Chunked.fill (chunked : Chunked buf (chunk :: rest) lines)
    (clean : '\n' ∉ chunk) : Chunked (buf ++ chunk) rest lines where
  clean := by simp [chunked.clean, clean]
  separate := chunked.separate
  stream := by
    rw [List.append_assoc]
    exact chunked.stream
  nonempty := fun other member =>
    chunked.nonempty other (List.mem_cons_of_mem _ member)
  short := fun other member piece inside =>
    chunked.short other member piece (List.mem_cons_of_mem _ inside)

/-- The line that a chunk completes is the first one of the stream. -/
theorem Chunked.first_line
    (chunked : Chunked buf ((a ++ '\n' :: b) :: rest) (line :: lines))
    (cleanA : '\n' ∉ a) :
    buf ++ a = line ∧ b ++ rest.flatten = streamOf lines := by
  apply cut_unique
  · simp [chunked.clean, cleanA]
  · exact chunked.separate line (List.mem_cons_self ..)
  · have stream := chunked.stream
    simpa [streamOf] using stream

theorem Chunked.after_line
    (chunked : Chunked buf ((a ++ '\n' :: b) :: rest) (line :: lines))
    (cleanA : '\n' ∉ a) (cleanB : '\n' ∉ b) : Chunked b rest lines where
  clean := cleanB
  separate := fun other member =>
    chunked.separate other (List.mem_cons_of_mem _ member)
  stream := (chunked.first_line cleanA).2
  nonempty := fun other member =>
    chunked.nonempty other (List.mem_cons_of_mem _ member)
  short := fun other member piece inside =>
    chunked.short other (List.mem_cons_of_mem _ member) piece
      (List.mem_cons_of_mem _ inside)

/-- Without lines there are no chunks. -/
theorem Chunked.no_chunks {chunks : List Text}
    (chunked : Chunked buf chunks []) : chunks = [] := by
  have nothing : chunks.flatten = [] :=
    (List.append_eq_nil_iff.mp chunked.stream).2
  cases chunks with
  | nil => rfl
  | cons chunk rest =>
      exact absurd (List.flatten_eq_nil_iff.mp nothing chunk (by simp))
        (chunked.nonempty chunk (by simp))

open RelayLoop in
/-- What a chunk without another newline does: its line is handled, and the
loop goes on if it was handled as it stands. -/
theorem leaves_line {handled : List Text} {toHub toSniper : List Text}
    (chunked : Chunked buf ((a ++ '\n' :: b) :: rest) (line :: lines))
    (cleanA : '\n' ∉ a) (cleanB : '\n' ∉ b)
    (later : ∀ toHub toSniper,
      Leaves reply ⟨⟨b, [], rest⟩, handled ++ [line], toHub, toSniper⟩
          (·.handled = (handled ++ [line]) ++ lines) ↔
        Framed (fun k => reply ((handled ++ [line]).length + k)) rest lines) :
    Leaves reply ⟨⟨buf, [], (a ++ '\n' :: b) :: rest⟩, handled, toHub, toSniper⟩
        (·.handled = handled ++ line :: lines) ↔
      Framed (fun k => reply (handled.length + k))
        ((a ++ '\n' :: b) :: rest) (line :: lines) := by
  have whole := (chunked.first_line cleanA).1
  rw [framed_line cleanA cleanB, leaves_iff,
    iteration_line chunked.clean cleanA chunked.fits_buffer, whole,
    List.splitOn_eq_singleton cleanB]
  have shift : (fun k => reply (handled.length + (k + 1))) =
      fun k => reply ((handled ++ [line]).length + k) := by
    funext k
    congr 1
    simp
    omega
  rw [shift, Nat.add_zero]
  by_cases plain : '\x00' ∈ line
  · -- what is handled is not the line
    have cut : cString line ≠ line :=
      fun same => cString_eq_self_iff.mp same plain
    have never : ∀ tail : List Text,
        (handled ++ [cString line]) ++ tail ≠ handled ++ line :: lines := by
      intro tail same
      rw [List.append_assoc] at same
      exact cut (List.cons.inj (List.append_cancel_left same)).1
    simp only [plain, not_true_eq_false, false_and, iff_false]
    split
    · next next step =>
        rintro ⟨count, final, left, same⟩
        split at step
        · cases step
        · split_ifs at step
          cases step
          obtain ⟨tail, extended⟩ := main_extends left
          exact never _ (extended.trans same)
    · next final step =>
        split at step
        · cases step
        · split_ifs at step
          cases step
          intro same
          exact never [] (by simpa using same)
    · exact not_false
  · rw [cString_eq_self_iff.mpr plain]
    rcases handleLine_spec line (reply handled.length) with
      ⟨fits, effect, step, exits⟩ | ⟨overrun, step⟩
    · rw [step]
      by_cases ends : EndsLoop line (reply handled.length)
      · -- the loop is left: no line may be missing
        have left : effect.exits = true := exits.mpr ends
        simp only [left, if_true, plain, not_false_iff, fits, ends,
          not_true_eq_false, true_and, ne_eq, imp_false, not_not]
        constructor
        · intro same
          have none : lines = [] := by
            have tails := List.append_cancel_left same
            exact (List.cons.inj tails).2.symm
          subst none
          have nothing := (chunked.after_line cleanA cleanB).no_chunks
          subst nothing
          exact ⟨rfl, by simp, by simp, by simp, by simp⟩
        · rintro ⟨none, _⟩
          rw [none]
      · have stays : effect.exits = false := by
          rw [Bool.eq_false_iff]
          exact fun left => ends (exits.mp left)
        have continued := later (toHub ++ effect.toHub)
          (toSniper ++ effect.toSniper)
        rw [List.append_assoc] at continued
        simp only [stays, Bool.false_eq_true, if_false, plain, not_false_iff,
          fits, ends, implies_true, and_self, true_and]
        exact continued
    · rw [step]
      simp [overrun]

open RelayLoop in
/-- A chunk with two newlines: the second line of it is lost. -/
theorem not_leaves_of_two {handled : List Text} {toHub toSniper : List Text}
    (chunked : Chunked buf ((a ++ '\n' :: b) :: rest) (line :: lines))
    (cleanA : '\n' ∉ a) (more : '\n' ∈ b) :
    ¬ Leaves reply
        ⟨⟨buf, [], (a ++ '\n' :: b) :: rest⟩, handled, toHub, toSniper⟩
        (·.handled = handled ++ line :: lines) := by
  obtain ⟨whole, later⟩ := chunked.first_line cleanA
  have lost : ∀ front, handled ++ [front] ≠ handled ++ line :: lines := by
    intro front same
    have none : lines = [] :=
      (List.cons.inj (List.append_cancel_left same)).2.symm
    rw [none] at later
    rw [(List.append_eq_nil_iff.mp later).1] at more
    cases more
  have queued : (b.splitOn '\n').dropLast.map cString ≠ [] := by
    obtain ⟨c, d, rfl, cleanC⟩ := List.eq_append_cons_of_mem more
    rw [List.splitOn_append_cons_self_of_not_mem cleanC]
    simp [List.dropLast_cons_of_ne_nil (List.splitOn_ne_nil _ _)]
  rw [leaves_iff, iteration_line chunked.clean cleanA chunked.fits_buffer]
  cases handleLine (cString (buf ++ a)) (reply handled.length) with
  | none => exact not_false
  | some effect =>
      cases exits : effect.exits with
      | true =>
          simp only [exits, if_true]
          exact lost _
      | false =>
          simp only [exits, Bool.false_eq_true, if_false]
          rw [leaves_iff, iteration_queued queued]
          exact lost _

/-- The loop from a buffer without a newline and an empty queue. -/
theorem leaves_iff_framed (reply : Nat → Text) {chunks : List Text} :
    ∀ {buf : Text} {lines : List Text} (handled : List Text)
      (toHub toSniper : List Text), Chunked buf chunks lines →
      (RelayLoop.Leaves reply ⟨⟨buf, [], chunks⟩, handled, toHub, toSniper⟩
          (·.handled = handled ++ lines) ↔
        Framed (fun k => reply (handled.length + k)) chunks lines) := by
  induction chunks with
  | nil =>
      intro buf lines handled toHub toSniper chunked
      have none : lines = [] :=
        streamOf_eq_of_not_mem chunked.clean (by simpa using chunked.stream)
      subst none
      rw [RelayLoop.leaves_iff]
      simp only [RelayLoop.iteration, SniperConn.receiveLine, fillBuf, if_true,
        Nat.le_refl, List.append_nil, true_iff]
      exact ⟨by simp, by simp, by simp, by simp⟩
  | cons chunk rest ih =>
      intro buf lines handled toHub toSniper chunked
      have filled := chunked.nonempty chunk (List.mem_cons_self ..)
      cases lines with
      | nil => exact absurd chunked.no_chunks (List.cons_ne_nil _ _)
      | cons line lines =>
          by_cases completes : '\n' ∈ chunk
          · obtain ⟨a, b, rfl, cleanA⟩ := List.eq_append_cons_of_mem completes
            by_cases more : '\n' ∈ b
            · refine iff_of_false (not_leaves_of_two chunked cleanA more) ?_
              intro framed
              have one := framed.single _ (List.mem_cons_self ..)
              have another := List.count_pos_iff.mpr more
              simp only [List.count_append, List.count_cons_self] at one
              omega
            · exact leaves_line chunked cleanA more fun toHub toSniper =>
                ih _ _ _ (chunked.after_line cleanA more)
          · have clean : '\n' ∉ buf ++ chunk := by
              simp [chunked.clean, completes]
            rw [framed_fill completes,
              ← ih _ _ _ (chunked.fill completes),
              RelayLoop.leaves_iff, RelayLoop.leaves_iff,
              RelayLoop.iteration_fill filled chunked.fits_buffer clean]

end Framing

/-- The relay handles the lines of a stream, each once and in order, exactly if
every chunk completes at most one line, no line holds a zero byte, every `send`
fits the buffer of `writeMsg`, and the hub does not exit before the last
line. -/
theorem handles_lines_iff {reply : Nat → Text} {chunks lines : List Text}
    (separate : ∀ line ∈ lines, '\n' ∉ line)
    (stream : chunks.flatten = streamOf lines)
    (nonempty : ∀ chunk ∈ chunks, chunk ≠ [])
    (short : ∀ line ∈ lines, ∀ chunk ∈ chunks,
      line.length + chunk.length < bufSize) :
    HandlesLines reply chunks lines ↔ Framed reply chunks lines := by
  have chunked : Chunked [] chunks lines :=
    ⟨List.not_mem_nil, separate, by simpa using stream, nonempty, short⟩
  have loop := leaves_iff_framed reply [] [] [] chunked
  simpa only [HandlesLines, RelayLoop.start, List.nil_append, List.length_nil,
    Nat.zero_add] using loop

/-- A line in two chunks. -/
theorem handles_lines_split :
    HandlesLines (fun _ => []) [['r', 'e'], ['c', 'v', '\n']] [recvCommand] ↔
      Framed (fun _ => []) [['r', 'e'], ['c', 'v', '\n']] [recvCommand] :=
  handles_lines_iff (by decide) (by decide) (by decide) (by decide)

/-- Two lines in one chunk: the second one is lost. -/
theorem batched_line_is_lost :
    ¬ HandlesLines (fun _ => []) [streamOf [recvCommand, recvCommand]]
      [recvCommand, recvCommand] := by
  have chunked : Chunked []
      [recvCommand ++ '\n' :: (recvCommand ++ ['\n'])]
      [recvCommand, recvCommand] :=
    ⟨by decide, by decide, by decide, by decide, by decide⟩
  exact not_leaves_of_two chunked (by decide) (by decide)

end ChipletSniper.Interchiplet
