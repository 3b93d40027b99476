import Mathlib.Data.List.Basic

/-!
# Lists that are related place by place

A list is changed in place: every item is related to the one that stands at its
place afterwards.
-/

namespace ChipletSniper.Library

variable {Item : Type*}

/-- The items at each place are related. -/
structure Pointwise (relation : Nat → Item → Item → Prop)
    (before after : List Item) : Prop where
  length : after.length = before.length
  forward : ∀ {place item}, before[place]? = some item →
    ∃ next, after[place]? = some next ∧ relation place item next

namespace Pointwise

variable {relation : Nat → Item → Item → Prop} {before after : List Item}

theorem refl (reflexive : ∀ place item, relation place item item)
    (items : List Item) : Pointwise relation items items :=
  ⟨rfl, fun found => ⟨_, found, reflexive _ _⟩⟩

theorem backward (pointwise : Pointwise relation before after) {place : Nat}
    {next : Item} (found : after[place]? = some next) :
    ∃ item, before[place]? = some item ∧ relation place item next := by
  obtain ⟨inAfter, -⟩ := List.getElem?_eq_some_iff.mp found
  have inBefore : place < before.length := by
    rw [← pointwise.length]
    exact inAfter
  have old := List.getElem?_eq_getElem inBefore
  obtain ⟨other, same, related⟩ := pointwise.forward old
  rw [found] at same
  cases same
  exact ⟨_, old, related⟩

theorem trans {middle : List Item} {first second : Nat → Item → Item → Prop}
    (composes : ∀ place item next last,
      first place item next → second place next last → relation place item last)
    (head : Pointwise first before middle) (tail : Pointwise second middle after) :
    Pointwise relation before after where
  length := tail.length.trans head.length
  forward := by
    intro place item found
    obtain ⟨next, foundNext, related⟩ := head.forward found
    obtain ⟨last, foundLast, relatedLast⟩ := tail.forward foundNext
    exact ⟨last, foundLast, composes _ _ _ _ related relatedLast⟩

theorem mono {other : Nat → Item → Item → Prop}
    (weaker : ∀ place item next,
      relation place item next → other place item next)
    (pointwise : Pointwise relation before after) :
    Pointwise other before after where
  length := pointwise.length
  forward := by
    intro place item found
    obtain ⟨next, foundNext, related⟩ := pointwise.forward found
    exact ⟨next, foundNext, weaker _ _ _ related⟩

/-- One item is replaced. -/
theorem set {place : Nat} {item next : Item}
    (found : before[place]? = some item) (related : relation place item next)
    (others : ∀ other entry, other ≠ place → before[other]? = some entry →
      relation other entry entry) :
    Pointwise relation before (before.set place next) where
  length := List.length_set
  forward := by
    intro other entry foundOther
    by_cases same : place = other
    · subst same
      rw [found] at foundOther
      cases foundOther
      obtain ⟨inside, -⟩ := List.getElem?_eq_some_iff.mp found
      exact ⟨next, List.getElem?_set_self inside, related⟩
    · refine ⟨entry, ?_, others other entry (Ne.symm same) foundOther⟩
      rw [List.getElem?_set_ne same]
      exact foundOther

/-- What related items share is shared by the lists. -/
theorem map_eq {Value : Type*} {value : Item → Value}
    (shared : ∀ place item next, relation place item next →
      value next = value item)
    (pointwise : Pointwise relation before after) :
    after.map value = before.map value := by
  apply List.ext_getElem?
  intro place
  rw [List.getElem?_map, List.getElem?_map]
  cases found : before[place]? with
  | some item =>
      obtain ⟨next, foundNext, related⟩ := pointwise.forward found
      rw [foundNext, Option.map_some, Option.map_some,
        shared place item next related]
  | none =>
      have outside : after[place]? = none := by
        rw [List.getElem?_eq_none_iff] at found ⊢
        rw [pointwise.length]
        exact found
      rw [outside]

end Pointwise

end ChipletSniper.Library
