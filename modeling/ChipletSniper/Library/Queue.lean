import Mathlib.Data.List.Sort

/-!
# Queues ordered by a key

A new item goes behind the items with an equal key, as in a `multiset`.
-/

namespace ChipletSniper.Library

variable {Item Key Value : Type*} [LinearOrder Key] (key : Item → Key)

/-- Adds an item behind the items whose key is not greater. -/
def enqueue (item : Item) (queue : List Item) : List Item :=
  queue.orderedInsert (fun new old => key new < key old) item

/-- Adds items one after the other. -/
def enqueueAll (items queue : List Item) : List Item :=
  items.foldl (fun queue item => enqueue key item queue) queue

/-- The items come in the order of their keys. -/
def Ordered (queue : List Item) : Prop :=
  queue.Pairwise fun first second => key first ≤ key second

variable {key} {item : Item} {queue : List Item}

theorem enqueue_perm (item : Item) (queue : List Item) :
    (enqueue key item queue).Perm (item :: queue) :=
  List.perm_orderedInsert _ item queue

@[simp]
theorem mem_enqueue {other : Item} :
    other ∈ enqueue key item queue ↔ other = item ∨ other ∈ queue :=
  List.mem_orderedInsert _

theorem enqueue_cons (first : Item) (rest : List Item) :
    enqueue key item (first :: rest) =
      if key item < key first then item :: first :: rest
      else first :: enqueue key item rest :=
  rfl

theorem Ordered.enqueue (ordered : Ordered key queue) (item : Item) :
    Ordered key (enqueue key item queue) := by
  induction queue with
  | nil => exact List.pairwise_singleton _ _
  | cons first rest ih =>
      obtain ⟨before, behind⟩ := List.pairwise_cons.mp ordered
      rw [enqueue_cons]
      split
      case isTrue earlier =>
        refine List.pairwise_cons.mpr ⟨?_, ordered⟩
        intro other member
        rcases List.mem_cons.mp member with rfl | later
        · exact le_of_lt earlier
        · exact (le_of_lt earlier).trans (before other later)
      case isFalse later =>
        refine List.pairwise_cons.mpr ⟨?_, ih behind⟩
        intro other member
        rcases mem_enqueue.mp member with rfl | old
        · exact not_lt.mp later
        · exact before other old

/-- An item that is not selected does not change the selection. -/
theorem filterMap_enqueue_of_none {pick : Item → Option Value}
    (skipped : pick item = none) :
    (enqueue key item queue).filterMap pick = queue.filterMap pick := by
  induction queue with
  | nil => simp [enqueue, skipped]
  | cons first rest ih =>
      rw [enqueue_cons]
      split
      · rw [List.filterMap_cons_none skipped]
      · rw [List.filterMap_cons, ih, List.filterMap_cons]

/-- An item goes behind the selected items if none of them is later. -/
theorem filterMap_enqueue_of_last {pick : Item → Option Value} {value : Value}
    (ordered : Ordered key queue) (picked : pick item = some value)
    (last : ∀ other ∈ queue, pick other ≠ none → key other ≤ key item) :
    (enqueue key item queue).filterMap pick =
      queue.filterMap pick ++ [value] := by
  induction queue with
  | nil => simp [enqueue, picked]
  | cons first rest ih =>
      obtain ⟨before, behind⟩ := List.pairwise_cons.mp ordered
      rw [enqueue_cons]
      split
      case isTrue earlier =>
        -- everything behind the new item is later, hence not selected
        have unselected : (first :: rest).filterMap pick = [] := by
          rw [List.filterMap_eq_nil_iff]
          intro other member
          by_contra selected
          have bound := last other member selected
          rcases List.mem_cons.mp member with rfl | later
          · exact absurd earlier (not_lt.mpr bound)
          · exact absurd (earlier.trans_le (before other later))
              (not_lt.mpr bound)
        rw [List.filterMap_cons_some picked, unselected]
        rfl
      case isFalse =>
        have tail := ih behind fun other later =>
          last other (List.mem_cons_of_mem first later)
        rw [List.filterMap_cons, tail, List.filterMap_cons]
        split <;> rfl

@[simp]
theorem enqueueAll_nil : enqueueAll key [] queue = queue :=
  rfl

@[simp]
theorem enqueueAll_singleton :
    enqueueAll key [item] queue = enqueue key item queue :=
  rfl

theorem enqueueAll_append (first second queue : List Item) :
    enqueueAll key (first ++ second) queue =
      enqueueAll key second (enqueueAll key first queue) :=
  List.foldl_append

theorem enqueueAll_perm (items : List Item) :
    ∀ queue, (enqueueAll key items queue).Perm (items ++ queue) := by
  induction items with
  | nil => exact fun queue => List.Perm.refl queue
  | cons item rest ih =>
      intro queue
      calc enqueueAll key (item :: rest) queue
          = enqueueAll key rest (enqueue key item queue) := rfl
        _ |>.Perm (rest ++ enqueue key item queue) := ih _
        _ |>.Perm (rest ++ item :: queue) :=
            (enqueue_perm item queue).append_left rest
        _ |>.Perm (item :: rest ++ queue) := List.perm_middle

theorem mem_enqueueAll {items : List Item} {other : Item} :
    other ∈ enqueueAll key items queue ↔ other ∈ items ∨ other ∈ queue := by
  rw [(enqueueAll_perm items queue).mem_iff, List.mem_append]

theorem Ordered.enqueueAll (items : List Item) :
    ∀ {queue : List Item}, Ordered key queue →
      Ordered key (enqueueAll key items queue) := by
  induction items with
  | nil => exact fun ordered => ordered
  | cons item rest ih =>
      intro queue ordered
      exact ih (ordered.enqueue item)

theorem filterMap_enqueueAll_of_none {pick : Item → Option Value}
    {items : List Item} (skipped : ∀ item ∈ items, pick item = none) :
    (enqueueAll key items queue).filterMap pick = queue.filterMap pick := by
  induction items generalizing queue with
  | nil => rfl
  | cons item rest ih =>
      calc (enqueueAll key (item :: rest) queue).filterMap pick
          = (enqueue key item queue).filterMap pick :=
            ih fun other later =>
              skipped other (List.mem_cons_of_mem item later)
        _ = queue.filterMap pick :=
            filterMap_enqueue_of_none (skipped item List.mem_cons_self)

end ChipletSniper.Library
