import Mathlib.Tactic.SplitIfs
import ChipletSniper.Interchiplet.Hub

/-!
# Malformed messages

The loop of the hub reports a message that is neither `recv` nor a `send` to an
existing subnet, and leaves everything else as it was.  Three kinds of message
get past these checks: a frame that overruns the buffer of `readMsg`, a `send`
on which `stol` throws, and a blank line, on which the extraction of `cmd`
fails and leaves the command of the message before.
-/

namespace ChipletSniper.Interchiplet

/-! ## Numbers -/

/-- A sign and the leading digits after blanks; `none` when there is no digit.
-/
def leadingInteger (text : Text) : Option Int :=
  match text.dropWhile isSpace with
  | [] => none
  | sign :: rest =>
      if sign = '-' then
        (leadingNumber rest).map fun value : Nat => -(value : Int)
      else if sign = '+' then
        (leadingNumber rest).map fun value : Nat => (value : Int)
      else
        (leadingNumber (sign :: rest)).map fun value : Nat => (value : Int)

theorem stol_eq (text : Text) :
    stol text = (leadingInteger text).bind longRange := by
  unfold stol leadingInteger
  cases text.dropWhile isSpace with
  | nil => rfl
  | cons sign rest =>
      dsimp only
      split_ifs <;> rw [Option.bind_map] <;> rfl

theorem longRange_isSome (value : Int) :
    (longRange value).isSome = true ↔
      -9223372036854775808 ≤ value ∧ value ≤ 9223372036854775807 := by
  unfold longRange
  split_ifs with inside <;> simp [inside]

theorem longRange_eq_some {value number : Int}
    (inside : longRange value = some number) : number = value := by
  unfold longRange at inside
  split at inside
  · exact (Option.some.inj inside).symm
  · cases inside

/-! ## One iteration -/

namespace Loop

/-- What the loop may change for a malformed message: its command and its
counters. -/
structure SameTraffic (loop next : Loop) : Prop where
  routerBuf : next.hub.routerBuf = loop.hub.routerBuf
  reading : next.hub.reading = loop.hub.reading
  written : next.hub.written = loop.hub.written

end Loop

def recvCommand : Text := ['r', 'e', 'c', 'v']

def sendCommand : Text := ['s', 'e', 'n', 'd']

theorem sendCommand_ne_recvCommand : sendCommand ≠ recvCommand := by
  decide

/-- The command is `recv`, or `send` with the number of a subnet. -/
def WellFormed (subnetCount : UInt16) (str : Text) : Prop :=
  ∃ cmd rest, extractWord (str ++ ['\n']) = some (cmd, rest) ∧
    (cmd = recvCommand ∨
      cmd = sendCommand ∧ ∃ desAddr,
        leadingInteger (getline rest) = some desAddr ∧
          0 ≤ desAddr ∧ desAddr < subnetCount.toNat)

/-- The iteration ends, and changes nothing for a malformed message. -/
def Survives (loop : Loop) (subnetCount : UInt16) (i : Nat) (frame : Text) :
    Prop :=
  ∃ next, loop.iteration subnetCount i frame = some next ∧
    (¬ WellFormed subnetCount (readMsg frame) → loop.SameTraffic next)

/-- The frame fits the buffer; a `send` is followed by a number in the range
of `long`; and a blank line does not follow a command. -/
def Harmless (loop : Loop) (frame : Text) : Prop :=
  Fits frame ∧
    match extractWord (readMsg frame ++ ['\n']) with
    | none => loop.cmd ≠ recvCommand ∧ loop.cmd ≠ sendCommand
    | some (cmd, rest) => cmd = sendCommand →
        ∃ desAddr, leadingInteger (getline rest) = some desAddr ∧
          -9223372036854775808 ≤ desAddr ∧ desAddr ≤ 9223372036854775807

namespace Loop

variable {loop next : Loop} {subnetCount : UInt16} {i : Nat}

/-- A `recv` always changes the hub. -/
theorem onRecv_changes (loop : Loop) (i : Nat) (cmd : Text) :
    ¬ loop.SameTraffic ⟨loop.hub.onRecv lineFrame i, cmd⟩ := by
  intro same
  unfold Hub.onRecv at same
  split at same
  · have count := congrFun same.reading i
    simp at count
  · next front rest shape =>
      have queue := congrFun same.routerBuf i
      simp [shape] at queue

/-- A `send` to no subnet changes a counter only. -/
theorem onSend_outside {desAddr : Int} (payload cmd : Text)
    (outside : ¬ (0 ≤ desAddr ∧ desAddr < subnetCount.toNat)) :
    loop.SameTraffic
      ⟨loop.hub.onSend lineFrame subnetCount desAddr payload, cmd⟩ := by
  unfold Hub.onSend
  rw [if_neg outside]
  exact ⟨rfl, rfl, rfl⟩

/-- A blank line is handled under the command of the message before. -/
theorem handle_blank {frame : Text}
    (blank : extractWord (readMsg frame ++ ['\n']) = none) :
    loop.handle subnetCount i frame =
      if loop.cmd = recvCommand then
        some ⟨loop.hub.onRecv lineFrame i, loop.cmd⟩
      else if loop.cmd = sendCommand then none
      else some loop := by
  unfold handle
  rw [blank]
  rfl

theorem handle_word {frame cmd rest : Text}
    (word : extractWord (readMsg frame ++ ['\n']) = some (cmd, rest)) :
    loop.handle subnetCount i frame =
      if cmd = recvCommand then
        some ⟨loop.hub.onRecv lineFrame i, cmd⟩
      else if cmd = sendCommand then
        (stol (getline rest)).map fun desAddr =>
          ⟨loop.hub.onSend lineFrame subnetCount desAddr (getline rest), cmd⟩
      else some ⟨loop.hub, cmd⟩ := by
  unfold handle
  rw [word]
  rfl

end Loop

section Survival

variable {loop : Loop} {subnetCount : UInt16} {i : Nat} {frame : Text}

theorem survives_blank_iff
    (blank : extractWord (readMsg frame ++ ['\n']) = none)
    (fits : Fits frame) :
    Survives loop subnetCount i frame ↔
      loop.cmd ≠ recvCommand ∧ loop.cmd ≠ sendCommand := by
  have malformed : ¬ WellFormed subnetCount (readMsg frame) := by
    rintro ⟨cmd, rest, word, _⟩
    rw [blank] at word
    cases word
  simp only [Survives, Loop.iteration_of_fits fits, Loop.handle_blank blank,
    malformed, not_false_iff, true_implies]
  by_cases recv : loop.cmd = recvCommand
  · simp only [recv, if_true, ne_eq, not_true_eq_false, false_and, iff_false]
    rintro ⟨next, ends, same⟩
    exact loop.onRecv_changes i _ (Option.some.inj ends ▸ same)
  · by_cases send : loop.cmd = sendCommand
    · simp [send, sendCommand_ne_recvCommand]
    · simp only [recv, send, if_false, ne_eq, not_false_iff, and_self,
        iff_true]
      exact ⟨loop, rfl, rfl, rfl, rfl⟩

theorem survives_word_iff {cmd rest : Text}
    (word : extractWord (readMsg frame ++ ['\n']) = some (cmd, rest))
    (fits : Fits frame) :
    Survives loop subnetCount i frame ↔
      (cmd = sendCommand → ∃ desAddr,
        leadingInteger (getline rest) = some desAddr ∧
          -9223372036854775808 ≤ desAddr ∧
            desAddr ≤ 9223372036854775807) := by
  simp only [Survives, Loop.iteration_of_fits fits, Loop.handle_word word]
  by_cases recv : cmd = recvCommand
  · subst recv
    have wellFormed : WellFormed subnetCount (readMsg frame) :=
      ⟨recvCommand, rest, word, Or.inl rfl⟩
    simp [wellFormed, sendCommand_ne_recvCommand.symm]
  · by_cases send : cmd = sendCommand
    · subst send
      simp only [if_neg recv, if_true, true_implies]
      rw [stol_eq]
      cases number : leadingInteger (getline rest) with
      | none => simp
      | some desAddr =>
          simp only [Option.bind_some, Option.some.injEq, exists_eq_left']
          rw [← longRange_isSome]
          cases range : longRange desAddr with
          | none => simp
          | some value =>
              obtain rfl := longRange_eq_some range
              simp only [Option.map_some, Option.some.injEq, exists_eq_left',
                Option.isSome_some, iff_true]
              intro malformed
              apply Loop.onSend_outside
              intro inside
              exact malformed ⟨sendCommand, rest, word,
                Or.inr ⟨rfl, value, number, inside⟩⟩
    · simp only [recv, send, if_false, false_implies, iff_true]
      exact ⟨_, rfl, fun _ => ⟨rfl, rfl, rfl⟩⟩

/-- An iteration of the hub survives a message, and ignores it if it is
malformed, exactly if the message is harmless. -/
theorem survives_iff (loop : Loop) (subnetCount : UInt16) (i : Nat)
    (frame : Text) :
    Survives loop subnetCount i frame ↔ Harmless loop frame := by
  by_cases fits : Fits frame
  · simp only [Harmless, fits, true_and]
    split
    · next blank => exact survives_blank_iff blank fits
    · next cmd rest word => exact survives_word_iff word fits
  · simp only [Harmless, fits, false_and, iff_false]
    rintro ⟨next, ends, _⟩
    simp [Loop.iteration, readFrame_of_not_fits fits] at ends

end Survival

/-- A `send` without a number ends the hub. -/
theorem send_without_number_throws :
    ¬ Survives Loop.start 2 0 ['s', 'e', 'n', 'd', ' ', 'x'] := by
  rintro ⟨next, ends, _⟩
  have word : extractWord
      (readMsg ['s', 'e', 'n', 'd', ' ', 'x'] ++ ['\n']) =
        some (sendCommand, [' ', 'x', '\n']) := by decide
  have thrown : Loop.start.iteration 2 0 ['s', 'e', 'n', 'd', ' ', 'x'] =
      none := by
    rw [Loop.iteration_of_fits (Or.inl (by decide)), Loop.handle_word word]
    decide
  rw [thrown] at ends
  cases ends

end ChipletSniper.Interchiplet
