import Mathlib.Order.Basic
import Mathlib.Data.List.Nodup
import Mathlib.Data.List.Range
import Mathlib.Order.Lattice

/-!
# Increasing lists of intervals

An interval runs from its first point up to its end, the end left out. Free
intervals are kept in order, and a booking takes its time out of one of them.
-/

namespace ChipletSniper.Library

variable {Time : Type*} [LinearOrder Time]

/-- One of the intervals is over when the other begins. -/
def Apart (first second : Time × Time) : Prop :=
  first.2 ≤ second.1 ∨ second.2 ≤ first.1

/-- The first interval is part of the second. -/
def Inside (first second : Time × Time) : Prop :=
  second.1 ≤ first.1 ∧ first.2 ≤ second.2

theorem Apart.symm {first second : Time × Time}
    (apart : Apart first second) : Apart second first :=
  apart.elim Or.inr Or.inl

theorem Apart.of_inside {part whole other : Time × Time}
    (apart : Apart whole other) (inside : Inside part whole) :
    Apart part other :=
  apart.imp inside.2.trans fun later => later.trans inside.1

/-- Intervals in order, none of which begins before the one in front of it is
over. -/
structure Increasing (intervals : List (Time × Time)) : Prop where
  proper : ∀ interval ∈ intervals, interval.1 ≤ interval.2
  ordered : intervals.Pairwise fun first second => first.2 ≤ second.1

namespace Increasing

theorem nil : Increasing ([] : List (Time × Time)) :=
  ⟨fun _ member => absurd member List.not_mem_nil, List.Pairwise.nil⟩

theorem singleton {interval : Time × Time}
    (proper : interval.1 ≤ interval.2) : Increasing [interval] := by
  refine ⟨fun other member => ?_, List.pairwise_singleton _ _⟩
  rw [List.mem_singleton.mp member]
  exact proper

theorem pair {first second : Time × Time} (early : first.1 ≤ first.2)
    (between : first.2 ≤ second.1) (late : second.1 ≤ second.2) :
    Increasing [first, second] := by
  refine ⟨fun other member => ?_, List.pairwise_pair.mpr between⟩
  rcases List.mem_pair.mp member with rfl | rfl
  · exact early
  · exact late

theorem sublist {intervals others : List (Time × Time)}
    (increasing : Increasing intervals) (part : others.Sublist intervals) :
    Increasing others :=
  ⟨fun interval member =>
    increasing.proper interval (part.subset member),
    increasing.ordered.sublist part⟩

variable {before after pieces : List (Time × Time)} {interval : Time × Time}

/-- No interval ends behind the last one. -/
theorem le_last {intervals : List (Time × Time)} {last : Time × Time}
    (increasing : Increasing intervals)
    (final : intervals.getLast? = some last) (member : interval ∈ intervals) :
    interval.2 ≤ last.2 := by
  obtain ⟨front, rfl⟩ := List.getLast?_eq_some_iff.mp final
  rcases List.mem_append.mp member with earlier | same
  · exact ((List.pairwise_append.mp increasing.ordered).2.2 interval earlier
      last List.mem_cons_self).trans (increasing.proper last
        (List.mem_append_right _ List.mem_cons_self))
  · rw [List.mem_singleton.mp same]

/-- Parts in order take the place of an interval. -/
theorem replace (increasing : Increasing (before ++ interval :: after))
    (parts : Increasing pieces)
    (inside : ∀ piece ∈ pieces, Inside piece interval) :
    Increasing (before ++ pieces ++ after) := by
  obtain ⟨early, late, across⟩ :=
    List.pairwise_append.mp increasing.ordered
  obtain ⟨next, later⟩ := List.pairwise_cons.mp late
  constructor
  · intro other member
    rcases List.mem_append.mp member with member | member
    · rcases List.mem_append.mp member with member | member
      · exact increasing.proper other (List.mem_append_left _ member)
      · exact parts.proper other member
    · exact increasing.proper other
        (List.mem_append_right _ (List.mem_cons_of_mem _ member))
  · refine List.pairwise_append.mpr
      ⟨List.pairwise_append.mpr ⟨early, parts.ordered, ?_⟩, later, ?_⟩
    · intro first earlier piece member
      exact (across first earlier interval List.mem_cons_self).trans
        (inside piece member).1
    · intro first earlier last member
      rcases List.mem_append.mp earlier with earlier | earlier
      · exact across first earlier last (List.mem_cons_of_mem _ member)
      · exact (inside first earlier).2.trans (next last member)

end Increasing

/-! ## Bookings -/

/-- The free intervals are in order, and the bookings lie between them, no two
at one time. -/
structure Booked (free taken : List (Time × Time)) : Prop where
  increasing : Increasing free
  single : taken.Pairwise Apart
  outside : ∀ booking ∈ taken, ∀ interval ∈ free, Apart booking interval

namespace Booked

variable {free taken before after pieces others : List (Time × Time)}
variable {interval grant : Time × Time}

theorem of_increasing (increasing : Increasing free) : Booked free [] :=
  ⟨increasing, List.Pairwise.nil,
    fun _ member => absurd member List.not_mem_nil⟩

/-- Free time may be forgotten. -/
theorem forget (booked : Booked free taken)
    (part : others.Sublist free) : Booked others taken :=
  ⟨booked.increasing.sublist part, booked.single,
    fun booking member interval free =>
      booked.outside booking member interval (part.subset free)⟩

/-- A booking inside a free interval, of which what it leaves stays free. -/
theorem book (booked : Booked (before ++ interval :: after) taken)
    (parts : Increasing pieces)
    (inside : ∀ piece ∈ pieces, Inside piece interval)
    (fits : Inside grant interval)
    (clear : ∀ piece ∈ pieces, Apart grant piece) :
    Booked (before ++ pieces ++ after) (grant :: taken) := by
  have ordered := List.pairwise_append.mp booked.increasing.ordered
  have here : interval ∈ before ++ interval :: after :=
    List.mem_append_right _ List.mem_cons_self
  refine ⟨booked.increasing.replace parts inside,
    List.pairwise_cons.mpr ⟨fun booking member => ?_, booked.single⟩, ?_⟩
  · exact ((booked.outside booking member interval here).symm).of_inside fits
  · intro booking member other free
    rcases List.mem_cons.mp member with rfl | member
    · rcases List.mem_append.mp free with free | free
      · rcases List.mem_append.mp free with free | free
        · exact Or.inr ((ordered.2.2 other free interval
            List.mem_cons_self).trans fits.1)
        · exact clear other free
      · exact Or.inl (fits.2.trans
          ((List.pairwise_cons.mp ordered.2.1).1 other free))
    · rcases List.mem_append.mp free with free | free
      · rcases List.mem_append.mp free with free | free
        · exact booked.outside booking member other
            (List.mem_append_left _ free)
        · exact ((booked.outside booking member interval here).symm.of_inside
            (inside other free)).symm
      · exact booked.outside booking member other
          (List.mem_append_right _ (List.mem_cons_of_mem _ free))

end Booked

/-! ## Several units -/

/-- The instant lies in the interval. -/
def Covers (interval : Time × Time) (instant : Time) : Prop :=
  interval.1 ≤ instant ∧ instant < interval.2

instance {interval : Time × Time} {instant : Time} :
    Decidable (Covers interval instant) :=
  inferInstanceAs (Decidable (_ ∧ _))

theorem Apart.not_covers {first second : Time × Time} {instant : Time}
    (apart : Apart first second) (here : Covers first instant) :
    ¬ Covers second instant := by
  intro there
  rcases apart with early | late
  · exact absurd (early.trans there.1) (not_le.mpr here.2)
  · exact absurd (late.trans here.1) (not_le.mpr there.2)

/-- In how many of the intervals an instant lies. -/
def coverage (intervals : List (Time × Time)) (instant : Time) : Nat :=
  intervals.countP fun interval => decide (Covers interval instant)

/-- Every service has its unit, and no unit gives two at one time. -/
structure Assigned (units : Nat) (services : List (Nat × Time × Time)) :
    Prop where
  unit_lt : ∀ service ∈ services, service.1 < units
  single : services.Pairwise fun first second =>
    first.1 = second.1 → Apart first.2 second.2

namespace Assigned

variable {units : Nat} {services : List (Nat × Time × Time)}

/-- The units that serve at an instant. -/
private def busy (services : List (Nat × Time × Time)) (instant : Time) :
    List Nat :=
  (services.filter fun service =>
    decide (Covers service.2 instant)).map Prod.fst

private theorem mem_busy {unit : Nat} {instant : Time} :
    unit ∈ busy services instant ↔
      ∃ service ∈ services, service.1 = unit ∧ Covers service.2 instant := by
  unfold busy
  rw [List.mem_map]
  constructor
  · rintro ⟨service, member, same⟩
    obtain ⟨member, covers⟩ := List.mem_filter.mp member
    exact ⟨service, member, same, of_decide_eq_true covers⟩
  · rintro ⟨service, member, same, covers⟩
    exact ⟨service,
      List.mem_filter.mpr ⟨member, decide_eq_true covers⟩, same⟩

private theorem length_busy (instant : Time) :
    (busy services instant).length =
      coverage (services.map Prod.snd) instant := by
  rw [busy, List.length_map, coverage, List.countP_map,
    List.countP_eq_length_filter]
  rfl

private theorem nodup_busy (assigned : Assigned units services)
    (instant : Time) : (busy services instant).Nodup := by
  refine List.pairwise_map.mpr ((assigned.single.filter _).imp_of_mem ?_)
  intro first second here there apart same
  exact (apart same).not_covers
    (of_decide_eq_true (List.mem_filter.mp here).2)
    (of_decide_eq_true (List.mem_filter.mp there).2)

private theorem busy_subset (assigned : Assigned units services)
    (instant : Time) : busy services instant ⊆ List.range units := by
  intro unit member
  obtain ⟨service, given, same, _⟩ := mem_busy.mp member
  exact List.mem_range.mpr (same ▸ assigned.unit_lt service given)

/-- There are never more services than units. -/
theorem coverage_le (assigned : Assigned units services) (instant : Time) :
    coverage (services.map Prod.snd) instant ≤ units := by
  rw [← length_busy]
  exact (List.Nodup.length_le_of_subset (assigned.nodup_busy instant)
    (assigned.busy_subset instant)).trans_eq List.length_range

/-- Fewer services than units leave a unit without one. -/
theorem coverage_lt_iff (assigned : Assigned units services)
    (instant : Time) :
    coverage (services.map Prod.snd) instant < units ↔
      ∃ unit < units, ∀ service ∈ services, service.1 = unit →
        ¬ Covers service.2 instant := by
  rw [← length_busy]
  constructor
  · intro fewer
    by_contra allBusy
    refine absurd fewer (not_lt.mpr ?_)
    have covered : List.range units ⊆ busy services instant := by
      intro unit member
      by_contra free
      refine allBusy ⟨unit, List.mem_range.mp member,
        fun service given same covers => free ?_⟩
      exact mem_busy.mpr ⟨service, given, same, covers⟩
    exact List.length_range.symm.trans_le
      (List.Nodup.length_le_of_subset List.nodup_range covered)
  · rintro ⟨unit, inside, free⟩
    have missing : unit ∉ busy services instant := by
      intro member
      obtain ⟨service, given, same, covers⟩ := mem_busy.mp member
      exact free service given same covers
    have whole : (unit :: busy services instant).Nodup :=
      List.nodup_cons.mpr ⟨missing, assigned.nodup_busy instant⟩
    have part : unit :: busy services instant ⊆ List.range units :=
      List.cons_subset.mpr
        ⟨List.mem_range.mpr inside, assigned.busy_subset instant⟩
    exact (List.Nodup.length_le_of_subset whole part).trans_eq
      List.length_range

/-- A unit gives a service after its last one. -/
theorem serve (assigned : Assigned units services) {unit : Nat}
    {service : Time × Time} (inside : unit < units)
    (later : ∀ earlier ∈ services, earlier.1 = unit →
      earlier.2.2 ≤ service.1) :
    Assigned units (services ++ [(unit, service)]) where
  unit_lt := by
    intro other member
    rcases List.mem_append.mp member with member | member
    · exact assigned.unit_lt other member
    · rw [List.mem_singleton.mp member]
      exact inside
  single := by
    refine List.pairwise_append.mpr
      ⟨assigned.single, List.pairwise_singleton _ _, ?_⟩
    intro first earlier second member same
    rw [List.mem_singleton.mp member] at same ⊢
    exact Or.inl (later first earlier same)

end Assigned

end ChipletSniper.Library
