import Mathlib.Data.List.TakeWhile
import ChipletSniper.Library.Lines

/-!
# The mirrored output of a traced program

`handleOutputFunc` prints the lines that a program writes, with a prefix, and
keeps the end of a write call that is not a line yet.  It keeps only the end
of the last call: an end that was kept before is overwritten.
-/

namespace ChipletSniper.TraceFrontend

open Library

/-- `*ptr == '\r' || *ptr == '\n'`. -/
def isNewline (byte : UInt8) : Bool := byte == 13 || byte == 10

/-- `[TRACE:%u] `. -/
def tracePrefix (threadId : Nat) : List UInt8 :=
  ("[TRACE:" ++ toString threadId ++ "] ").toUTF8.toList

/-- The size of `m_output_leftover`. -/
def leftoverSize : Nat := 160

/-- The bytes behind the first line. -/
def behindLine (data : List UInt8) : List UInt8 :=
  data.dropWhile fun byte => !isNewline byte

theorem length_dropWhile_behindLine {data : List UInt8}
    (more : behindLine data ≠ []) :
    ((behindLine data).dropWhile isNewline).length < data.length := by
  have whole : (behindLine data).length ≤ data.length :=
    (List.dropWhile_sublist _).length_le
  cases behind : behindLine data with
  | nil => exact absurd behind more
  | cons byte rest =>
      have head : isNewline byte = true := by
        have stopped : (!isNewline ((behindLine data).head more)) = false :=
          List.head_dropWhile_not _ more
        simpa [behind] using stopped
      have shorter : (rest.dropWhile isNewline).length ≤ rest.length :=
        (List.dropWhile_sublist _).length_le
      rw [behind, List.length_cons] at whole
      rw [List.dropWhile_cons_of_pos head]
      omega

/-- The loop over the lines of a write call, with what is printed and the
leftover. -/
def outputLoop (threadId : Nat) (data leftover : List UInt8) :
    List UInt8 × List UInt8 :=
  if behindLine data = [] then
    ([], if data = [] then leftover else data.take leftoverSize)
  else
    let next := outputLoop threadId ((behindLine data).dropWhile isNewline) []
    (tracePrefix threadId ++ leftover ++
      data.takeWhile (fun byte => !isNewline byte) ++ [10] ++ next.1, next.2)
termination_by data.length
decreasing_by
  apply length_dropWhile_behindLine
  assumption

/-- What is printed to the stream of a file descriptor, and the leftover. -/
def handleOutputFunc (threadId fd : Nat) (data leftover : List UInt8) :
    List UInt8 × List UInt8 :=
  if fd = 1 ∨ fd = 2 then outputLoop threadId data leftover
  else ([], leftover)

/-- What is printed to standard output for some write calls. -/
def printedBy (threadId : Nat) (leftover : List UInt8) :
    List (List UInt8) → List UInt8
  | [] => []
  | data :: calls =>
      let call := handleOutputFunc threadId 1 data leftover
      call.1 ++ printedBy threadId call.2 calls

/-! ## A write call -/

/-- The text of some lines. -/
def text (threadId : Nat) (lines : List (List UInt8)) : List UInt8 :=
  lines.flatMap fun line => tracePrefix threadId ++ line ++ [10]

theorem text_append (threadId : Nat) (first second : List (List UInt8)) :
    text threadId (first ++ second) =
      text threadId first ++ text threadId second :=
  List.flatMap_append

theorem behindLine_eq_nil {data : List UInt8} :
    behindLine data = [] ↔ Lines.Free isNewline data := by
  rw [behindLine, List.dropWhile_eq_nil_iff, Lines.Free]
  simp

/-- A call whose data has a newline prints its lines, the first of them with
the leftover, and keeps what comes after them. -/
theorem outputLoop_lines (threadId : Nat) (data leftover : List UInt8)
    (notFree : ¬ Lines.Free isNewline data) :
    outputLoop threadId data leftover =
      let lines := Lines.addAll isNewline ⟨[], leftover, false⟩ data
      (text threadId lines.complete, lines.current.take leftoverSize) := by
  induction length : data.length using Nat.strong_induction_on
    generalizing data leftover with
  | _ length' ih =>
      have more : behindLine data ≠ [] :=
        fun nothing => notFree (behindLine_eq_nil.mp nothing)
      have shorter := length_dropWhile_behindLine more
      obtain ⟨newline, behind, isBehind⟩ := List.exists_cons_of_ne_nil more
      have isLine : isNewline newline = true := by
        have stopped : (!isNewline ((behindLine data).head more)) = false :=
          List.head_dropWhile_not _ more
        simpa [isBehind] using stopped
      have free : Lines.Free isNewline
          (data.takeWhile fun byte => !isNewline byte) := by
        intro byte member
        simpa using List.mem_takeWhile_imp member
      have split : data = (data.takeWhile fun byte => !isNewline byte) ++
          (newline :: behind.takeWhile isNewline) ++
            (behindLine data).dropWhile isNewline := by
        rw [isBehind, List.dropWhile_cons_of_pos isLine, List.append_assoc,
          List.cons_append, List.takeWhile_append_dropWhile, ← isBehind]
        exact List.takeWhile_append_dropWhile.symm
      -- The first line and its run of newlines.
      have begun : Lines.addAll isNewline ⟨[], leftover, false⟩ data =
          Lines.addAll isNewline
            ⟨[leftover ++ data.takeWhile fun byte => !isNewline byte],
              [], true⟩ ((behindLine data).dropWhile isNewline) := by
        conv_lhs => rw [split]
        rw [Lines.addAll_append, Lines.addAll_append,
          Lines.addAll_free_unseparated free]
        congr 1
        rw [Lines.addAll, List.foldl_cons, ← Lines.addAll, Lines.add, isLine]
        exact Lines.addAll_separators (fun _ member =>
          List.mem_takeWhile_imp member) rfl
      rw [outputLoop, if_neg more, begun]
      generalize rest : (behindLine data).dropWhile isNewline = later
        at shorter
      have later_head : ∀ byte bytes, later = byte :: bytes →
          isNewline byte = false := by
        intro byte bytes isLater
        have nonempty : (behindLine data).dropWhile isNewline ≠ [] := by
          rw [rest, isLater]
          exact List.cons_ne_nil _ _
        have stopped := List.head_dropWhile_not _ nonempty
        simpa [rest, isLater] using stopped
      have unseparated : later ≠ [] → ∀ complete,
          Lines.addAll isNewline ⟨complete, [], true⟩ later =
            Lines.addAll isNewline ⟨complete, [], false⟩ later := by
        intro nonempty complete
        obtain ⟨byte, bytes, isLater⟩ := List.exists_cons_of_ne_nil nonempty
        rw [isLater]
        exact Lines.addAll_separated (later_head byte bytes isLater) _ _ _
      by_cases nothing : later = []
      · rw [nothing, outputLoop]
        simp [behindLine, Lines.addAll, text]
      · rw [unseparated nothing, Lines.addAll_complete]
        by_cases laterFree : Lines.Free isNewline later
        · rw [outputLoop, if_pos (behindLine_eq_nil.mpr laterFree),
            if_neg nothing, Lines.addAll_free_unseparated laterFree]
          simp [text]
        · rw [ih later.length (by omega) later [] laterFree
            rfl]
          simp [text]

theorem outputLoop_free (threadId : Nat) {data : List UInt8}
    (free : Lines.Free isNewline data) (nonempty : data ≠ [])
    (leftover : List UInt8) :
    outputLoop threadId data leftover = ([], data.take leftoverSize) := by
  rw [outputLoop, if_pos (behindLine_eq_nil.mpr free), if_neg nonempty]

/-! ## Write calls in a row -/

section Calls

variable {threadId : Nat}

theorem printedBy_cons (leftover data : List UInt8) (calls : List (List UInt8)) :
    printedBy threadId leftover (data :: calls) =
      (outputLoop threadId data leftover).1 ++
        printedBy threadId (outputLoop threadId data leftover).2 calls :=
  rfl

theorem length_text_cons (line : List UInt8) (lines : List (List UInt8)) :
    (text threadId (line :: lines)).length =
      (tracePrefix threadId).length + line.length + 1 +
        (text threadId lines).length := by
  rw [text, List.flatMap_cons, List.length_append, List.length_append,
    List.length_append]
  rfl

/-- A shorter leftover does not print more. -/
theorem length_printedBy_le {calls : List (List UInt8)}
    (nonempty : ∀ data ∈ calls, data ≠ []) {leftover line : List UInt8}
    (shorter : leftover.length ≤ line.length) :
    (printedBy threadId leftover calls).length ≤
      (text threadId (Lines.joined isNewline line calls).1).length := by
  induction calls generalizing leftover line with
  | nil => exact Nat.zero_le _
  | cons data calls ih =>
      obtain ⟨first, others⟩ := List.forall_mem_cons.mp nonempty
      rw [printedBy_cons, Lines.joined, List.length_append, text_append,
        List.length_append]
      by_cases free : Lines.Free isNewline data
      · rw [outputLoop_free threadId free first,
          Lines.addAll_free_unseparated free]
        have rest := @ih others (data.take leftoverSize)
          (line ++ data) (by
            rw [List.length_append, List.length_take]
            omega)
        exact Nat.add_le_add (Nat.zero_le _) rest
      · obtain ⟨ended, lines, last, separated, -, -, same⟩ :=
          Lines.addAll_first free
        rw [outputLoop_lines threadId data leftover free, same, same]
        have rest := @ih others (last.take leftoverSize) last
          (List.length_take_le' _ _)
        dsimp only
        rw [length_text_cons, length_text_cons, List.length_append,
          List.length_append]
        omega

/-- A leftover that has lost something prints less, once there is a newline. -/
theorem length_printedBy_lt {calls : List (List UInt8)}
    (nonempty : ∀ data ∈ calls, data ≠ []) {leftover line : List UInt8}
    (shorter : leftover.length < line.length)
    (notFree : ¬ ∀ data ∈ calls, Lines.Free isNewline data) :
    (printedBy threadId leftover calls).length <
      (text threadId (Lines.joined isNewline line calls).1).length := by
  induction calls generalizing leftover line with
  | nil => exact absurd (fun _ member => absurd member List.not_mem_nil) notFree
  | cons data calls ih =>
      obtain ⟨first, others⟩ := List.forall_mem_cons.mp nonempty
      rw [printedBy_cons, Lines.joined, List.length_append, text_append,
        List.length_append]
      by_cases free : Lines.Free isNewline data
      · rw [outputLoop_free threadId free first,
          Lines.addAll_free_unseparated free]
        have later : ¬ ∀ data ∈ calls, Lines.Free isNewline data :=
          fun all => notFree (List.forall_mem_cons.mpr ⟨free, all⟩)
        have lost : (data.take leftoverSize).length < (line ++ data).length := by
          rw [List.length_append, List.length_take]
          omega
        exact Nat.add_lt_add_of_le_of_lt (Nat.zero_le _)
          (ih others lost later)
      · obtain ⟨ended, lines, last, separated, -, -, same⟩ :=
          Lines.addAll_first free
        rw [outputLoop_lines threadId data leftover free, same, same]
        have rest := @length_printedBy_le threadId calls others
          (last.take leftoverSize) last (List.length_take_le' _ _)
        dsimp only
        rw [length_text_cons, length_text_cons, List.length_append,
          List.length_append]
        omega

/-- Calls without a newline print nothing. -/
theorem printedBy_free {calls : List (List UInt8)}
    (nonempty : ∀ data ∈ calls, data ≠ [])
    (free : ∀ data ∈ calls, Lines.Free isNewline data)
    (leftover line : List UInt8) :
    printedBy threadId leftover calls = [] ∧
      (Lines.joined isNewline line calls).1 = [] := by
  induction calls generalizing leftover line with
  | nil => exact ⟨rfl, rfl⟩
  | cons data calls ih =>
      obtain ⟨first, others⟩ := List.forall_mem_cons.mp nonempty
      obtain ⟨head, tail⟩ := List.forall_mem_cons.mp free
      rw [printedBy_cons, Lines.joined, outputLoop_free threadId head first,
        Lines.addAll_free_unseparated head]
      obtain ⟨printed, lines⟩ := ih others tail
        (data.take leftoverSize) (line ++ data)
      exact ⟨printed, lines⟩

/-- A call that could lose something: it has no newline and comes after the
start of a line that ends in a later call. -/
def NothingLost (line : List UInt8) (calls : List (List UInt8)) : Prop :=
  ∀ before data after, calls = before ++ data :: after →
    Lines.Free isNewline data →
      (Lines.joined isNewline line before).2 = [] ∨
        ∀ later ∈ after, Lines.Free isNewline later

theorem nothingLost_cons {line data : List UInt8} {calls : List (List UInt8)} :
    NothingLost line (data :: calls) ↔
      (Lines.Free isNewline data → line = [] ∨
        ∀ later ∈ calls, Lines.Free isNewline later) ∧
      NothingLost
        (Lines.addAll isNewline ⟨[], line, false⟩ data).current calls := by
  constructor
  · intro kept
    constructor
    · exact kept [] data calls rfl
    · intro before next after split free
      exact kept (data :: before) next after (by rw [split]; rfl) free
  · intro kept before next after split free
    cases before with
    | nil =>
        obtain ⟨rfl, rfl⟩ := List.cons.inj split
        exact kept.1 free
    | cons head before =>
        obtain ⟨rfl, rest⟩ := List.cons.inj split
        exact kept.2 before next after rest free

/-- Every piece of a call without a newline fits into the leftover. -/
def Fits (data : List UInt8) : Prop :=
  ∀ piece, piece <:+: data → Lines.Free isNewline piece →
    piece.length < leftoverSize

theorem take_of_fits {data piece : List UInt8} (fits : Fits data)
    (isPiece : piece <:+: data) (free : Lines.Free isNewline piece) :
    piece.take leftoverSize = piece :=
  List.take_of_length_le (Nat.le_of_lt (fits piece isPiece free))

theorem printedBy_iff {calls : List (List UInt8)}
    (nonempty : ∀ data ∈ calls, data ≠ []) (fits : ∀ data ∈ calls, Fits data)
    (line : List UInt8) :
    printedBy threadId line calls =
        text threadId (Lines.joined isNewline line calls).1 ↔
      NothingLost line calls := by
  induction calls generalizing line with
  | nil =>
      apply iff_of_true rfl
      intro before data after split
      cases before <;> cases split
  | cons data calls ih =>
      obtain ⟨first, others⟩ := List.forall_mem_cons.mp nonempty
      obtain ⟨firstFits, othersFit⟩ := List.forall_mem_cons.mp fits
      have rest := ih others othersFit
      rw [nothingLost_cons, printedBy_cons, Lines.joined, text_append]
      by_cases free : Lines.Free isNewline data
      · rw [outputLoop_free threadId free first,
          Lines.addAll_free_unseparated free,
          take_of_fits firstFits (List.infix_refl data) free]
        change printedBy threadId data calls =
          text threadId (Lines.joined isNewline (line ++ data) calls).1 ↔ _
        by_cases fresh : line = []
        · rw [fresh, List.nil_append, rest]
          exact ⟨fun kept => ⟨fun _ => Or.inl rfl, kept⟩, fun kept => kept.2⟩
        · by_cases all : ∀ later ∈ calls, Lines.Free isNewline later
          · obtain ⟨printed, lines⟩ := @printedBy_free threadId calls others all
              data (line ++ data)
            rw [printed, lines]
            apply iff_of_true rfl
            refine ⟨fun _ => Or.inr all, ?_⟩
            intro before next after split _
            right
            intro later member
            apply all later
            rw [split]
            simp [member]
          · have length : 0 < line.length := List.length_pos_iff.mpr fresh
            have lost := @length_printedBy_lt threadId calls others data
              (line ++ data) (by rw [List.length_append]; omega) all
            constructor
            · intro same
              rw [same] at lost
              exact absurd lost (Nat.lt_irrefl _)
            · intro kept
              cases kept.1 free with
              | inl nothing => exact absurd nothing fresh
              | inr allFree => exact absurd allFree all
      · obtain ⟨ended, lines, last, separated, isEnd, lastFree, same⟩ :=
          Lines.addAll_first free
        rw [outputLoop_lines threadId data line free, same]
        dsimp only
        rw [take_of_fits firstFits isEnd.isInfix lastFree,
          List.append_cancel_left_eq, rest]
        exact ⟨fun kept => ⟨fun isFree => absurd isFree free, kept⟩,
          fun kept => kept.2⟩

end Calls

/-- Cutting a stream into write calls does not change what is printed, if and
only if every call without a newline begins a line or is not followed by a
newline any more. -/
theorem printedBy_flatten_iff (threadId : Nat) (calls : List (List UInt8))
    (nonempty : ∀ data ∈ calls, data ≠ [])
    (short : ∀ line, line <:+: calls.flatten → Lines.Free isNewline line →
      line.length < leftoverSize)
    (uncut : calls.IsChain (Lines.Uncut isNewline)) :
    printedBy threadId [] calls = printedBy threadId [] [calls.flatten] ↔
      ∀ before data after, calls = before ++ data :: after →
        Lines.Free isNewline data →
          (∀ last, before.flatten.getLast? = some last →
            isNewline last = true) ∨
          Lines.Free isNewline after.flatten := by
  have whole : printedBy threadId [] [calls.flatten] =
      text threadId (Lines.joined isNewline [] calls).1 := by
    rw [Lines.joined_eq [] nonempty uncut, printedBy_cons, printedBy,
      List.append_nil]
    by_cases free : Lines.Free isNewline calls.flatten
    · rw [outputLoop, if_pos (behindLine_eq_nil.mpr free),
        Lines.addAll_free_unseparated free]
      rfl
    · rw [outputLoop_lines threadId _ _ free]
  have fits : ∀ data ∈ calls, Fits data := by
    intro data member piece isPiece free
    exact short piece (isPiece.trans (List.infix_of_mem_flatten member)) free
  rw [whole, printedBy_iff nonempty fits, NothingLost]
  have begins : ∀ before data after, calls = before ++ data :: after →
      ((Lines.joined isNewline [] before).2 = [] ↔
        ∀ last, before.flatten.getLast? = some last →
          isNewline last = true) := by
    intro before data after split
    rw [split] at nonempty uncut
    rw [Lines.joined_eq [] (fun data member =>
      nonempty data (List.mem_append_left _ member)) uncut.left_of_append]
    exact Lines.current_addAll_eq_nil before.flatten
  have ends : ∀ after : List (List UInt8),
      (∀ later ∈ after, Lines.Free isNewline later) ↔
        Lines.Free isNewline after.flatten := by
    intro after
    constructor
    · intro free byte member
      obtain ⟨later, isLater, inLater⟩ := List.mem_flatten.mp member
      exact free later isLater byte inLater
    · intro free later isLater byte inLater
      exact free byte (List.mem_flatten.mpr ⟨later, isLater, inLater⟩)
  constructor
  · intro kept before data after split free
    rw [← begins before data after split, ← ends]
    exact kept before data after split free
  · intro kept before data after split free
    rw [begins before data after split, ends]
    exact kept before data after split free

theorem printedBy_twoCalls :
    printedBy 0 [] [[97], [98, 10]] = printedBy 0 [] [[97, 98, 10]] := by
  apply (printedBy_flatten_iff 0 [[97], [98, 10]] (by decide) _ _).mpr
  · intro before data after split free
    left
    intro last isLast
    cases before with
    | nil => cases isLast
    | cons first before =>
        cases before with
        | nil =>
            cases split
            exact absurd (free 10 (by decide)) (by decide)
        | cons second before =>
            cases before <;> cases split
  · intro line isInfix _
    exact Nat.lt_of_le_of_lt isInfix.length_le (by decide)
  · apply List.IsChain.cons_cons _ (List.IsChain.singleton _)
    intro last head isLast isHead both
    cases isHead
    exact absurd both.2 (by decide)

/-- The second call overwrites what the first one left. -/
theorem printedBy_threeCalls :
    printedBy 0 [] [[97], [98], [10]] = tracePrefix 0 ++ [98, 10] ∧
      printedBy 0 [] [[97, 98, 10]] = tracePrefix 0 ++ [97, 98, 10] ∧
      printedBy 0 [] [[97], [98], [10]] ≠ printedBy 0 [] [[97, 98, 10]] := by
  have pieces : printedBy 0 [] [[97], [98], [10]] =
      tracePrefix 0 ++ [98, 10] := by
    simp [printedBy, handleOutputFunc, outputLoop, behindLine, isNewline,
      leftoverSize]
  have whole : printedBy 0 [] [[97, 98, 10]] =
      tracePrefix 0 ++ [97, 98, 10] := by
    simp [printedBy, handleOutputFunc, outputLoop, behindLine, isNewline]
  refine ⟨pieces, whole, ?_⟩
  rw [pieces, whole]
  simp

end ChipletSniper.TraceFrontend
