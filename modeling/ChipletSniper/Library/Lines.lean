import Mathlib.Data.List.Chain
import Mathlib.Data.List.Induction

/-!
# Cutting a stream into lines

Items arrive one by one.  A run of separators ends a line, and what has arrived
since is the line that is not complete yet.
-/

namespace ChipletSniper.Library

/-- The lines so far, the line that is not complete, and whether the last item
was a separator. -/
structure Lines (Item : Type*) where
  complete : List (List Item)
  current : List Item
  separated : Bool

namespace Lines

variable {Item : Type*} (isSeparator : Item → Bool)

/-- No item is a separator. -/
def Free (items : List Item) : Prop :=
  ∀ item ∈ items, isSeparator item = false

def add (lines : Lines Item) (item : Item) : Lines Item :=
  if isSeparator item then
    if lines.separated then lines
    else ⟨lines.complete ++ [lines.current], [], true⟩
  else ⟨lines.complete, lines.current ++ [item], false⟩

def addAll (lines : Lines Item) (items : List Item) : Lines Item :=
  items.foldl (add isSeparator) lines

variable {isSeparator}

theorem addAll_append (lines : Lines Item) (first second : List Item) :
    lines.addAll isSeparator (first ++ second) =
      (lines.addAll isSeparator first).addAll isSeparator second :=
  List.foldl_append

theorem addAll_free {items : List Item} (free : Free isSeparator items)
    (lines : Lines Item) (nonempty : items ≠ []) :
    lines.addAll isSeparator items =
      ⟨lines.complete, lines.current ++ items, false⟩ := by
  induction items generalizing lines with
  | nil => exact absurd rfl nonempty
  | cons item items ih =>
      obtain ⟨head, tail⟩ := List.forall_mem_cons.mp free
      have step : lines.add isSeparator item =
          ⟨lines.complete, lines.current ++ [item], false⟩ := by
        rw [add, head]
        rfl
      rw [addAll, List.foldl_cons, step]
      cases items with
      | nil => rfl
      | cons next items =>
          have rest := ih tail
            ⟨lines.complete, lines.current ++ [item], false⟩ (by simp)
          rw [addAll] at rest
          rw [rest, List.append_assoc]
          rfl

theorem addAll_free_unseparated {items : List Item}
    (free : Free isSeparator items) (complete : List (List Item))
    (current : List Item) :
    addAll isSeparator ⟨complete, current, false⟩ items =
      ⟨complete, current ++ items, false⟩ := by
  cases items with
  | nil =>
      rw [List.append_nil]
      rfl
  | cons item items => exact addAll_free free _ (by simp)

/-- More separators do nothing. -/
theorem addAll_separators {items : List Item} {lines : Lines Item}
    (all : ∀ item ∈ items, isSeparator item = true)
    (separated : lines.separated = true) :
    lines.addAll isSeparator items = lines := by
  induction items with
  | nil => rfl
  | cons item items ih =>
      obtain ⟨head, tail⟩ := List.forall_mem_cons.mp all
      have step : lines.add isSeparator item = lines := by
        rw [add, head, separated]
        rfl
      rw [addAll, List.foldl_cons, step]
      exact ih tail

/-- The lines before do not matter for the ones that are added. -/
theorem addAll_complete (lines : Lines Item) (items : List Item) :
    lines.addAll isSeparator items =
      let added := addAll isSeparator ⟨[], lines.current, lines.separated⟩ items
      ⟨lines.complete ++ added.complete, added.current, added.separated⟩ := by
  induction items using List.reverseRecOn with
  | nil =>
      change lines = ⟨lines.complete ++ [], lines.current, lines.separated⟩
      rw [List.append_nil]
  | append_singleton items item ih =>
      rw [addAll_append, addAll_append, ih]
      change add isSeparator _ item =
        let added := add isSeparator _ item
        ⟨lines.complete ++ added.complete, added.current, added.separated⟩
      rw [add, add]
      split
      · split
        · rfl
        · simp
      · rfl

/-- An item that is no separator clears the flag. -/
theorem addAll_separated {item : Item} {items : List Item}
    (head : isSeparator item = false) (complete : List (List Item))
    (current : List Item) (separated : Bool) :
    addAll isSeparator ⟨complete, current, separated⟩ (item :: items) =
      addAll isSeparator ⟨complete, current, false⟩ (item :: items) := by
  rw [addAll, addAll, List.foldl_cons, List.foldl_cons, add, add, head]
  rfl

/-- Behind a separator there is no line that is not complete. -/
theorem current_of_separated {lines : Lines Item}
    (consistent : lines.separated = true → lines.current = [])
    (items : List Item) :
    (lines.addAll isSeparator items).separated = true →
      (lines.addAll isSeparator items).current = [] := by
  induction items generalizing lines with
  | nil => exact consistent
  | cons item items ih =>
      rw [addAll, List.foldl_cons]
      apply ih
      rw [add]
      split
      · split
        · exact consistent
        · exact fun _ => rfl
      · exact fun separated => by cases separated

/-- The line that is not complete is the end of what has arrived. -/
theorem current_suffix (complete : List (List Item)) (separated : Bool)
    (items : List Item) :
    (addAll isSeparator ⟨complete, [], separated⟩ items).current <:+ items ∧
      Free isSeparator
        (addAll isSeparator ⟨complete, [], separated⟩ items).current := by
  induction items using List.reverseRecOn with
  | nil => exact ⟨List.suffix_refl _, fun _ member =>
      absurd member List.not_mem_nil⟩
  | append_singleton items item ih =>
      have consistent := @current_of_separated Item isSeparator
        ⟨complete, [], separated⟩ (fun _ => rfl) items
      obtain ⟨isEnd, free⟩ := ih
      rw [addAll_append]
      generalize addAll isSeparator ⟨complete, [], separated⟩ items = lines
        at consistent isEnd free ⊢
      change (add isSeparator lines item).current <:+ _ ∧
        Free isSeparator (add isSeparator lines item).current
      have nothing : ([] : List Item) <:+ items ++ [item] ∧
          Free isSeparator [] :=
        ⟨List.nil_suffix, fun _ member => absurd member List.not_mem_nil⟩
      rw [add]
      split
      · split
        next isSeparated =>
          rw [consistent isSeparated]
          exact nothing
        next => exact nothing
      next head =>
        constructor
        · obtain ⟨before, split⟩ := isEnd
          refine ⟨before, ?_⟩
          rw [← split, List.append_assoc]
        · intro other member
          cases List.mem_append.mp member with
          | inl old => exact free other old
          | inr new =>
              rw [List.mem_singleton.mp new]
              exact Bool.not_eq_true _ ▸ head

/-- A stream with a separator completes the line that was begun, and is
independent of it otherwise; the line that is not complete then is its end. -/
theorem addAll_first {items : List Item}
    (notFree : ¬ Free isSeparator items) :
    ∃ line others last separated,
      last <:+ items ∧ Free isSeparator last ∧ ∀ current,
        addAll isSeparator ⟨[], current, false⟩ items =
          ⟨(current ++ line) :: others, last, separated⟩ := by
  induction items with
  | nil => exact absurd (fun _ member => absurd member List.not_mem_nil) notFree
  | cons item items ih =>
      by_cases head : isSeparator item = true
      · let rest := addAll isSeparator ⟨[], [], true⟩ items
        obtain ⟨isEnd, free⟩ := @current_suffix Item isSeparator [] true items
        refine ⟨[], rest.complete, rest.current, rest.separated,
          isEnd.trans (List.suffix_cons item items), free, fun current => ?_⟩
        have step : add isSeparator ⟨[], current, false⟩ item =
            ⟨[current], [], true⟩ := by
          rw [add, head]
          rfl
        rw [addAll, List.foldl_cons, step, ← addAll, addAll_complete,
          List.append_nil]
        rfl
      · rw [Bool.not_eq_true] at head
        have tail : ¬ Free isSeparator items := by
          intro free
          exact notFree (List.forall_mem_cons.mpr ⟨head, free⟩)
        obtain ⟨line, others, last, separated, isEnd, free, rest⟩ :=
          ih tail
        refine ⟨item :: line, others, last, separated,
          isEnd.trans (List.suffix_cons item items), free, fun current => ?_⟩
        have step : add isSeparator ⟨[], current, false⟩ item =
            ⟨[], current ++ [item], false⟩ := by
          rw [add, head]
          rfl
        rw [addAll, List.foldl_cons, step, ← addAll, rest, List.append_assoc]
        rfl

/-- The line that is not complete is empty at first and behind a separator. -/
theorem current_addAll_eq_nil (items : List Item) :
    (addAll isSeparator ⟨[], [], false⟩ items).current = [] ↔
      ∀ last, items.getLast? = some last → isSeparator last = true := by
  induction items using List.reverseRecOn with
  | nil => simp [addAll]
  | append_singleton items item _ =>
      have consistent := @current_of_separated Item isSeparator
        ⟨[], [], false⟩ (fun _ => rfl) items
      rw [addAll_append, List.getLast?_concat]
      generalize addAll isSeparator ⟨[], [], false⟩ items = lines at consistent ⊢
      change (add isSeparator lines item).current = [] ↔ _
      rw [add]
      cases head : isSeparator item with
      | false => simp [head]
      | true =>
          apply iff_of_true
          · split
            · split
              next separated => exact consistent separated
              next => rfl
            · contradiction
          · intro last same
            cases same
            exact head

/-! ## Streams in pieces -/

/-- The lines of a stream whose pieces are cut into lines one by one, and the
line that is not complete. -/
def joined (isSeparator : Item → Bool) (current : List Item) :
    List (List Item) → List (List Item) × List Item
  | [] => ([], current)
  | piece :: rest =>
      let lines := addAll isSeparator ⟨[], current, false⟩ piece
      let later := joined isSeparator lines.current rest
      (lines.complete ++ later.1, later.2)

/-- Two pieces do not cut a run of separators. -/
def Uncut (isSeparator : Item → Bool) (first second : List Item) : Prop :=
  ∀ last head, first.getLast? = some last → second.head? = some head →
    ¬ (isSeparator last = true ∧ isSeparator head = true)

/-- Only a separator leaves the flag. -/
theorem last_of_separated {items : List Item} (nonempty : items ≠ [])
    {lines : Lines Item}
    (separated : (lines.addAll isSeparator items).separated = true) :
    ∃ last, items.getLast? = some last ∧ isSeparator last = true := by
  cases items using List.reverseRecOn with
  | nil => exact absurd rfl nonempty
  | append_singleton items item =>
      refine ⟨item, List.getLast?_concat, ?_⟩
      rw [addAll_append] at separated
      change (add isSeparator _ item).separated = true at separated
      rw [add] at separated
      split at separated
      next head => exact head
      next => cases separated

/-- The pieces are cut into the lines of the stream. -/
theorem joined_eq {pieces : List (List Item)} (current : List Item)
    (nonempty : ∀ piece ∈ pieces, piece ≠ [])
    (uncut : pieces.IsChain (Uncut isSeparator)) :
    joined isSeparator current pieces =
      ((addAll isSeparator ⟨[], current, false⟩ pieces.flatten).complete,
        (addAll isSeparator ⟨[], current, false⟩ pieces.flatten).current) := by
  induction pieces generalizing current with
  | nil => rfl
  | cons piece pieces ih =>
      obtain ⟨first, others⟩ := List.forall_mem_cons.mp nonempty
      have rest := fun current => ih current others uncut.tail
      have last := @last_of_separated Item isSeparator piece first
        ⟨[], current, false⟩
      rw [joined, List.flatten_cons, addAll_append, rest]
      generalize addAll isSeparator ⟨[], current, false⟩ piece = lines
        at last ⊢
      obtain ⟨complete, line, separated⟩ := lines
      have unseparated : ∀ line complete,
          (addAll isSeparator ⟨complete, line, separated⟩
            pieces.flatten).complete =
            (addAll isSeparator ⟨complete, line, false⟩
              pieces.flatten).complete ∧
          (addAll isSeparator ⟨complete, line, separated⟩
            pieces.flatten).current =
            (addAll isSeparator ⟨complete, line, false⟩
              pieces.flatten).current := by
        intro line complete
        cases separated with
        | false => exact ⟨rfl, rfl⟩
        | true =>
            cases pieces with
            | nil => exact ⟨rfl, rfl⟩
            | cons second pieces =>
                cases second with
                | nil => exact absurd rfl (others [] List.mem_cons_self)
                | cons item items =>
                    obtain ⟨ending, isEnd, isSep⟩ := last rfl
                    have head : isSeparator item = false := by
                      by_contra isHead
                      rw [Bool.not_eq_false] at isHead
                      exact uncut.rel ending item isEnd rfl
                        ⟨isSep, isHead⟩
                    rw [List.flatten_cons, List.cons_append,
                      addAll_separated head]
                    exact ⟨rfl, rfl⟩
      rw [(unseparated line complete).1, (unseparated line complete).2]
      rw [addAll_complete ⟨complete, line, false⟩]

end Lines

end ChipletSniper.Library
