import Mathlib.Data.List.Forall2
import Mathlib.Data.List.Pairwise
import Mathlib.Data.List.Perm.Basic
import ChipletSniper.Library.Queue

/-!
# Matching two streams by a key

The items of the first stream wait in one queue for every key, and every item
of the second stream takes the front of the queue of its key, if there is one.
So the items of a key are matched in their order, whatever the order of the
keys.
-/

namespace ChipletSniper.Library

open Function

variable {Key First Second : Type*} [DecidableEq Key]

section Collect

variable {Item : Type*} (key : Item → Key) (value : Item → First)

/-- The value of every item goes to the end of the queue of its key. -/
def collect (items : List Item) (table : Key → List First) :
    Key → List First :=
  items.foldl
    (fun table item =>
      update table (key item) (table (key item) ++ [value item]))
    table

theorem collect_apply (items : List Item) :
    ∀ (table : Key → List First) (k : Key),
      collect key value items table k =
        table k ++ (items.filter fun item => key item = k).map value := by
  induction items with
  | nil => exact fun table k => (List.append_nil _).symm
  | cons item rest ih =>
      intro table k
      rw [collect, List.foldl_cons, ← collect, ih]
      by_cases same : key item = k
      · subst same
        rw [update_self, List.filter_cons_of_pos (by simp),
          List.append_assoc]
        rfl
      · rw [update_of_ne (Ne.symm same),
          List.filter_cons_of_neg (by simpa using same)]

end Collect

section Pair

variable (key : Second → Key)

/-- Every item takes the front of the queue of its key. -/
def pairUp : (Key → List First) → List Second → List (First × Second)
  | _, [] => []
  | table, item :: rest =>
      match table (key item) with
      | [] => pairUp table rest
      | front :: others =>
          (front, item) ::
            pairUp (update table (key item) others) rest

theorem pairUp_cons_of_nil {table : Key → List First} {item : Second}
    (rest : List Second) (empty : table (key item) = []) :
    pairUp key table (item :: rest) = pairUp key table rest := by
  simp [pairUp, empty]

theorem pairUp_cons_of_cons {table : Key → List First} {item : Second}
    {front : First} {others : List First} (rest : List Second)
    (waiting : table (key item) = front :: others) :
    pairUp key table (item :: rest) =
      (front, item) ::
        pairUp key (update table (key item) others) rest := by
  simp [pairUp, waiting]

/-- The items of one key are matched in their order. -/
theorem filter_pairUp (items : List Second) :
    ∀ (table : Key → List First) (k : Key),
      (pairUp key table items).filter (fun pair => key pair.2 = k) =
        (table k).zip (items.filter fun item => key item = k) := by
  induction items with
  | nil =>
      intro table k
      simp [pairUp]
  | cons item rest ih =>
      intro table k
      cases waiting : table (key item) with
      | nil =>
          rw [pairUp_cons_of_nil key rest waiting, ih]
          by_cases same : key item = k
          · subst same
            simp [waiting]
          · rw [List.filter_cons_of_neg (by simpa using same)]
      | cons front others =>
          rw [pairUp_cons_of_cons key rest waiting]
          by_cases same : key item = k
          · subst same
            rw [List.filter_cons_of_pos (by simp), ih,
              update_self, waiting,
              List.filter_cons_of_pos (by simp), List.zip_cons_cons]
          · rw [List.filter_cons_of_neg (by simpa using same),
              ih, update_of_ne (Ne.symm same),
              List.filter_cons_of_neg (by simpa using same)]

/-- The items of the first stream that are matched are the first ones. -/
theorem map_fst_zip_isPrefix (first : List First) :
    ∀ second : List Second, (first.zip second).map Prod.fst <+: first := by
  induction first with
  | nil => exact fun _ => List.prefix_rfl
  | cons item rest ih =>
      intro second
      cases second with
      | nil => exact List.nil_prefix
      | cons other others =>
          exact (List.prefix_cons_inj item).mpr (ih others)

/-- Two lists agree as far as the second one goes. -/
theorem forall_mem_zip_iff_prefix {Value : Type*} {tagFirst : First → Value}
    {tagSecond : Second → Value} {first : List First} {second : List Second}
    (short : second.length ≤ first.length) :
    (∀ pair ∈ first.zip second, tagFirst pair.1 = tagSecond pair.2) ↔
      second.map tagSecond <+: first.map tagFirst := by
  induction first generalizing second with
  | nil =>
      have none := List.eq_nil_of_length_eq_zero (Nat.le_zero.mp short)
      simp [none]
  | cons item rest ih =>
      cases second with
      | nil => simp
      | cons other others =>
          rw [List.zip_cons_cons, List.forall_mem_cons,
            ih (Nat.le_of_succ_le_succ short),
            List.map_cons, List.map_cons, List.cons_prefix_cons]
          exact and_congr_left fun _ => eq_comm

/-- A property of all matched items, key by key. -/
theorem forall_mem_pairUp_iff {table : Key → List First} {items : List Second}
    {Good : First × Second → Prop} :
    (∀ pair ∈ pairUp key table items, Good pair) ↔
      ∀ k, ∀ pair ∈ (table k).zip (items.filter fun item => key item = k),
        Good pair := by
  constructor
  · intro all k pair member
    rw [← filter_pairUp] at member
    exact all pair (List.mem_filter.mp member).1
  · intro all pair member
    apply all (key pair.2)
    rw [← filter_pairUp]
    exact List.mem_filter.mpr ⟨member, by simp⟩

end Pair

section Permutations

variable {Item : Type*}

/-- Lists with the same items of every key are permutations of each other. -/
theorem perm_of_filter_key (key : Item → Key) {first second : List Item}
    (same : ∀ k, (first.filter fun item => key item = k).Perm
      (second.filter fun item => key item = k)) :
    first.Perm second := by
  classical
  rw [List.perm_iff_count]
  intro item
  have counts := (same (key item)).count_eq item
  rwa [List.count_filter (by simp), List.count_filter (by simp)] at counts

/-- Every permutation of the images belongs to a permutation of the items. -/
theorem exists_perm_of_perm_map {Image : Type*} {image : Item → Image}
    {images : List Image} {items : List Item}
    (perm : images.Perm (items.map image)) :
    ∃ others : List Item, others.Perm items ∧ images = others.map image := by
  have pictures : List.Forall₂ (fun picture item => picture = image item)
      (items.map image) items := by
    rw [List.forall₂_map_left_iff, List.forall₂_same]
    exact fun _ _ => rfl
  obtain ⟨others, related, reordered⟩ :=
    List.perm_comp_forall₂ perm pictures
  refine ⟨others, reordered, ?_⟩
  clear reordered pictures perm
  induction related with
  | nil => rfl
  | cons same _ ih =>
      rw [same, ih, List.map_cons]

/-- The result of a sort that need not be stable. -/
def SortOf {Value : Type*} [LinearOrder Value] (value : Item → Value)
    (items output : List Item) : Prop :=
  output.Perm items ∧ Ordered value output

/-- Lists that are sorted without ties are equal to their permutations that
are sorted. -/
theorem eq_of_perm_of_sorted {Value : Type*} [LinearOrder Value]
    {value : Item → Value} {first second : List Item}
    (perm : first.Perm second)
    (sortedFirst : first.Pairwise fun a b => value a ≤ value b)
    (sortedSecond : second.Pairwise fun a b => value a < value b) :
    first = second := by
  have apart : second.Pairwise fun a b => value a ≠ value b :=
    sortedSecond.imp fun below => ne_of_lt below
  refine perm.eq_of_pairwise ?_ sortedFirst
    (sortedSecond.imp fun below => le_of_lt below)
  intro a b inFirst inSecond below above
  by_contra different
  have symmetric : Std.Symm fun a b : Item => value a ≠ value b :=
    ⟨fun _ _ => Ne.symm⟩
  exact apart.forall (perm.subset inFirst) inSecond different
    (le_antisymm below above)

end Permutations

end ChipletSniper.Library
