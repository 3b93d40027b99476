import Mathlib.Data.List.Perm.Basic

/-!
# Taking the first matching items out of a list

A scan that erases the first matching item is repeated a number of times. The
items that it takes out are the first matching ones, and the others stay in
order.
-/

namespace ChipletSniper.Library

variable {Item : Type*} (keep : Item → Bool)

/-- The first `count` matching items. -/
def firstMatches (count : Nat) (items : List Item) : List Item :=
  (items.filter keep).take count

/-- The list without its first `count` matching items. -/
def withoutFirst : Nat → List Item → List Item
  | _, [] => []
  | 0, items => items
  | count + 1, item :: rest =>
      if keep item then withoutFirst count rest
      else item :: withoutFirst (count + 1) rest

variable {keep}

@[simp] theorem withoutFirst_zero (items : List Item) :
    withoutFirst keep 0 items = items := by
  cases items <;> rfl

@[simp] theorem withoutFirst_nil (count : Nat) :
    withoutFirst keep count [] = [] := by
  cases count <;> rfl

theorem withoutFirst_cons_pos {item : Item} (found : keep item = true)
    (count : Nat) (rest : List Item) :
    withoutFirst keep (count + 1) (item :: rest) =
      withoutFirst keep count rest :=
  if_pos found

theorem withoutFirst_cons_neg {item : Item} (skipped : keep item = false)
    (count : Nat) (rest : List Item) :
    withoutFirst keep (count + 1) (item :: rest) =
      item :: withoutFirst keep (count + 1) rest :=
  if_neg (by simp [skipped])

theorem firstMatches_cons_pos {item : Item} (found : keep item = true)
    (count : Nat) (rest : List Item) :
    firstMatches keep (count + 1) (item :: rest) =
      item :: firstMatches keep count rest := by
  simp [firstMatches, found]

theorem firstMatches_cons_neg {item : Item} (skipped : keep item = false)
    (count : Nat) (rest : List Item) :
    firstMatches keep count (item :: rest) = firstMatches keep count rest := by
  simp [firstMatches, skipped]

/-- Nothing is lost and nothing is added. -/
theorem firstMatches_append_withoutFirst (count : Nat) (items : List Item) :
    (firstMatches keep count items ++ withoutFirst keep count items).Perm
      items := by
  induction items generalizing count with
  | nil => simp [firstMatches]
  | cons item rest ih =>
      cases count with
      | zero => simp [firstMatches]
      | succ count =>
          cases found : keep item with
          | true =>
              rw [withoutFirst_cons_pos found, firstMatches_cons_pos found]
              exact (ih count).cons item
          | false =>
              rw [withoutFirst_cons_neg found, firstMatches_cons_neg found]
              exact List.perm_middle.trans
                ((ih (count + 1)).cons item)

/-! ## One scan after another -/

/-- A scan that finds nothing ends the repetition. -/
theorem withoutFirst_of_none {items : List Item}
    (none : items.find? keep = none) (count : Nat) :
    withoutFirst keep count items = items := by
  induction items with
  | nil => simp
  | cons item rest ih =>
      cases count with
      | zero => simp
      | succ count =>
          have skipped : keep item = false := by
            have := List.find?_eq_none.mp none item List.mem_cons_self
            simpa using this
          rw [List.find?_cons_of_neg (by simp [skipped])] at none
          rw [withoutFirst_cons_neg skipped, ih none]

theorem firstMatches_of_none {items : List Item}
    (none : items.find? keep = none) (count : Nat) :
    firstMatches keep count items = [] := by
  have empty : items.filter keep = [] :=
    List.filter_eq_nil_iff.mpr (List.find?_eq_none.mp none)
  simp [firstMatches, empty]

/-- A scan that finds an item erases it. -/
theorem withoutFirst_eraseP (count : Nat) (items : List Item) :
    withoutFirst keep (count + 1) items =
      withoutFirst keep count (items.eraseP keep) := by
  induction items with
  | nil => simp
  | cons item rest ih =>
      cases found : keep item with
      | true =>
          rw [withoutFirst_cons_pos found, List.eraseP_cons_of_pos found]
      | false =>
          rw [withoutFirst_cons_neg found,
            List.eraseP_cons_of_neg (by simp [found]), ih]
          cases count with
          | zero => simp
          | succ count => rw [withoutFirst_cons_neg found]

theorem firstMatches_eraseP {items : List Item} {item : Item}
    (found : items.find? keep = some item) (count : Nat) :
    firstMatches keep (count + 1) items =
      item :: firstMatches keep count (items.eraseP keep) := by
  induction items with
  | nil => cases found
  | cons head rest ih =>
      cases keeps : keep head with
      | true =>
          rw [List.find?_cons_of_pos keeps] at found
          cases found
          rw [firstMatches_cons_pos keeps, List.eraseP_cons_of_pos keeps]
      | false =>
          rw [List.find?_cons_of_neg (by simp [keeps])] at found
          rw [firstMatches_cons_neg keeps, ih found,
            List.eraseP_cons_of_neg (by simp [keeps]),
            firstMatches_cons_neg keeps]

/-! ## Two conditions -/

/-- A stronger condition selects the same items exactly if the first items
that meet the weaker one also meet the stronger. -/
theorem firstMatches_eq_of_forall {weak strong : Item → Bool}
    (stronger : ∀ item, strong item = true → weak item = true) {count : Nat}
    {items : List Item}
    (both : ∀ item ∈ firstMatches weak count items, strong item = true) :
    firstMatches weak count items = firstMatches strong count items ∧
      withoutFirst weak count items = withoutFirst strong count items := by
  induction items generalizing count with
  | nil => simp [firstMatches]
  | cons item rest ih =>
      cases count with
      | zero => simp [firstMatches]
      | succ count =>
          cases meets : weak item with
          | true =>
              rw [firstMatches_cons_pos meets] at both
              have also : strong item = true := both item List.mem_cons_self
              obtain ⟨taken, left⟩ := ih
                fun other member => both other (List.mem_cons_of_mem item member)
              rw [firstMatches_cons_pos meets, firstMatches_cons_pos also,
                withoutFirst_cons_pos meets, withoutFirst_cons_pos also,
                taken, left]
              exact ⟨rfl, rfl⟩
          | false =>
              have neither : strong item = false := by
                by_contra also
                rw [stronger item (by simpa using also)] at meets
                cases meets
              rw [firstMatches_cons_neg meets] at both
              obtain ⟨taken, left⟩ := ih both
              rw [firstMatches_cons_neg meets, firstMatches_cons_neg neither,
                withoutFirst_cons_neg meets, withoutFirst_cons_neg neither,
                taken, left]
              exact ⟨rfl, rfl⟩

/-- What is left tells which items were taken. -/
theorem forall_of_withoutFirst_eq {weak strong : Item → Bool} {count : Nat}
    {items : List Item}
    (same : withoutFirst weak count items = withoutFirst strong count items) :
    ∀ item ∈ firstMatches weak count items, strong item = true := by
  have perm : (firstMatches weak count items ++
      withoutFirst weak count items).Perm
      (firstMatches strong count items ++ withoutFirst weak count items) := by
    refine (firstMatches_append_withoutFirst count items).trans ?_
    rw [same]
    exact (firstMatches_append_withoutFirst count items).symm
  have taken := (List.perm_append_right_iff _).mp perm
  intro item member
  have selected := taken.mem_iff.mp member
  exact (List.mem_filter.mp (List.mem_of_mem_take selected)).2

end ChipletSniper.Library
