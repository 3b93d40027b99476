import Mathlib.Logic.Relation

/-!
# Runs of a partial step function

A run given by a list of actions is a path of the transition relation, and
what every transition preserves holds at its end.
-/

namespace ChipletSniper.Library

open Relation (ReflTransGen)

section

variable {State Action : Type*} {step : State → Action → Option State}
variable {Next : State → State → Prop}

/-- The actions of a list lead along the transition relation. -/
theorem reflTransGen_of_foldlM
    (sound : ∀ state action next,
      step state action = some next → Next state next) :
    ∀ {actions : List Action} {first last : State},
      actions.foldlM step first = some last → ReflTransGen Next first last := by
  intro actions
  induction actions with
  | nil =>
      intro first last run
      cases run
      exact ReflTransGen.refl
  | cons action rest ih =>
      intro first last run
      rw [List.foldlM_cons] at run
      obtain ⟨middle, head, tail⟩ := Option.bind_eq_some_iff.mp run
      exact ReflTransGen.head (sound first action middle head)
        (ih tail)

/-- An invariant of the transitions holds along every path. -/
theorem invariant_of_reflTransGen (Invariant : State → Prop)
    (preserved : ∀ {state next},
      Invariant state → Next state next → Invariant next)
    {first last : State} (initial : Invariant first)
    (path : ReflTransGen Next first last) :
    Invariant last := by
  induction path with
  | refl => exact initial
  | tail _ step ih =>
      exact preserved ih step

/-- A run whose steps lower a measure is no longer than the measure. -/
theorem length_le_of_decreasing (measure : State → Nat)
    (Invariant : State → Prop) (Allowed : Action → Prop)
    (lowers : ∀ {state action next}, Invariant state → Allowed action →
      step state action = some next →
      Invariant next ∧ measure next < measure state) :
    ∀ {actions : List Action} {first last : State}, Invariant first →
      (∀ action ∈ actions, Allowed action) →
      actions.foldlM step first = some last →
      actions.length + measure last ≤ measure first := by
  intro actions
  induction actions with
  | nil =>
      intro first last _ _ run
      cases run
      exact Nat.le_of_eq (Nat.zero_add _)
  | cons action rest ih =>
      intro first last initial allowed run
      rw [List.foldlM_cons] at run
      obtain ⟨middle, head, tail⟩ := Option.bind_eq_some_iff.mp run
      obtain ⟨kept, less⟩ :=
        lowers initial (allowed action List.mem_cons_self) head
      have later := ih kept
        (fun other mem => allowed other (List.mem_cons_of_mem action mem))
        tail
      rw [List.length_cons]
      omega

/-- A goal is reached where a step that lowers the measure is always
possible before it. -/
theorem exists_path_of_decreasing (measure : State → Nat)
    (Invariant Goal : State → Prop)
    (goesOn : ∀ {state}, Invariant state → ¬ Goal state →
      ∃ next, Next state next ∧ Invariant next ∧ measure next < measure state)
    {first : State} (initial : Invariant first) :
    ∃ last, ReflTransGen Next first last ∧ Invariant last ∧ Goal last := by
  generalize bound : measure first = value
  induction value using Nat.strongRecOn generalizing first with
  | ind value ih =>
      by_cases done : Goal first
      · exact ⟨first, ReflTransGen.refl, initial, done⟩
      · obtain ⟨next, stepped, invariant, less⟩ := goesOn initial done
        rw [bound] at less
        obtain ⟨last, path, result⟩ :=
          ih _ less invariant rfl
        exact ⟨last, ReflTransGen.head stepped path, result⟩

end

section Loops

variable {State Item Error : Type*}

theorem bind_eq_ok {Value : Type*} {first : Except Error State}
    {second : State → Except Error Value} {value : Value} :
    first.bind second = .ok value ↔
      ∃ state, first = .ok state ∧ second state = .ok value := by
  cases first <;> simp [Except.bind]

theorem bind_eq_error {Value : Type*} {first : Except Error State}
    {second : State → Except Error Value} {error : Error} :
    first.bind second = .error error ↔
      first = .error error ∨
        ∃ state, first = .ok state ∧ second state = .error error := by
  cases first <;> simp [Except.bind]

theorem map_eq_ok {Value : Type*} {first : Except Error State}
    {change : State → Value} {value : Value} :
    first.map change = .ok value ↔
      ∃ state, first = .ok state ∧ change state = value := by
  cases first <;> simp [Except.map]

theorem map_eq_error {Value : Type*} {first : Except Error State}
    {change : State → Value} {error : Error} :
    first.map change = .error error ↔ first = .error error := by
  cases first <;> simp [Except.map]

theorem mapError_eq_ok {Other : Type*} {first : Except Error State}
    {change : Error → Other} {state : State} :
    first.mapError change = .ok state ↔ first = .ok state := by
  cases first with
  | error failure =>
      constructor
      · intro mapped
        cases mapped
      · intro same
        cases same
  | ok result =>
      constructor
      · intro mapped
        cases mapped
        rfl
      · intro same
        cases same
        rfl

/-- A loop that may fail, with an invariant that mentions the items still to
come. -/
theorem foldlM_induction {step : State → Item → Except Error State}
    (Invariant : List Item → State → Prop)
    (preserved : ∀ {item rest state next},
      Invariant (item :: rest) state → step state item = .ok next →
        Invariant rest next) :
    ∀ {items : List Item} {first last : State},
      Invariant items first → items.foldlM step first = .ok last →
        Invariant [] last := by
  intro items
  induction items with
  | nil =>
      intro first last initial run
      cases run
      exact initial
  | cons item rest ih =>
      intro first last initial run
      rw [List.foldlM_cons] at run
      cases taken : step first item with
      | error _ =>
          rw [taken] at run
          cases run
      | ok middle =>
          rw [taken] at run
          exact ih (preserved initial taken) run

/-- A loop with more state than is looked at. -/
theorem foldlM_map {Part : Type*} {step : State → Item → Except Error State}
    {stepPart : Part → Item → Except Error Part} (part : State → Part)
    (agrees : ∀ state item,
      (step state item).map part = stepPart (part state) item)
    (items : List Item) (first : State) :
    (items.foldlM step first).map part =
      items.foldlM stepPart (part first) := by
  induction items generalizing first with
  | nil => rfl
  | cons item rest ih =>
      rw [List.foldlM_cons, List.foldlM_cons, ← agrees]
      cases step first item with
      | error _ => rfl
      | ok middle => exact ih middle

/-- A loop whose steps never fail does not fail, and keeps the invariant. -/
theorem exists_foldlM_ok {step : State → Item → Except Error State}
    (Invariant : State → Prop)
    (total : ∀ {state}, Invariant state → ∀ item,
      ∃ next, step state item = .ok next ∧ Invariant next)
    (items : List Item) {first : State} (initial : Invariant first) :
    ∃ last, items.foldlM step first = .ok last ∧ Invariant last := by
  induction items generalizing first with
  | nil => exact ⟨first, rfl, initial⟩
  | cons item rest ih =>
      obtain ⟨next, stepped, kept⟩ := total initial item
      obtain ⟨last, run, final⟩ := ih kept
      refine ⟨last, ?_, final⟩
      rw [List.foldlM_cons, stepped]
      exact run

/-- A loop does not fail in a way that none of its steps fails. -/
theorem foldlM_ne_error {step : State → Item → Except Error State}
    {error : Error} (Invariant : List Item → State → Prop)
    (preserved : ∀ {item rest state next},
      Invariant (item :: rest) state → step state item = .ok next →
        Invariant rest next)
    (safe : ∀ {item rest state},
      Invariant (item :: rest) state → step state item ≠ .error error) :
    ∀ {items : List Item} {first : State},
      Invariant items first → items.foldlM step first ≠ .error error := by
  intro items
  induction items with
  | nil =>
      intro first _ failed
      cases failed
  | cons item rest ih =>
      intro first initial failed
      rw [List.foldlM_cons] at failed
      cases taken : step first item with
      | error other =>
          rw [taken] at failed
          cases failed
          exact safe initial taken
      | ok middle =>
          rw [taken] at failed
          exact ih (preserved initial taken) failed

/-- Every item of the loop meets its condition where it comes up. -/
def Along (step : State → Item → Except Error State)
    (Condition : State → Item → Prop) : List Item → State → Prop
  | [], _ => True
  | item :: rest, state =>
      Condition state item ∧
        ∀ next, step state item = .ok next → Along step Condition rest next

/-- What an invariant gives for one item, it gives along the loop. -/
theorem Along.induction {step : State → Item → Except Error State}
    {Condition Result : State → Item → Prop} (Invariant : State → Prop) :
    ∀ {items : List Item} {first : State},
      (∀ item ∈ items, ∀ state, Invariant state → Condition state item →
        Result state item ∧
          ∀ next, step state item = .ok next → Invariant next) →
      Along step Condition items first → Invariant first →
        Along step Result items first := by
  intro items
  induction items with
  | nil => exact fun _ _ _ => trivial
  | cons item rest ih =>
      intro first preserved along initial
      obtain ⟨result, kept⟩ :=
        preserved item List.mem_cons_self first initial along.1
      exact ⟨result, fun next stepped => ih
        (fun other later => preserved other (List.mem_cons_of_mem item later))
        (along.2 next stepped) (kept next stepped)⟩

/-- Every item of a loop that cannot fail meets its condition where it comes
up. -/
def Throughout (step : State → Item → State)
    (Condition : State → Item → Prop) : List Item → State → Prop
  | [], _ => True
  | item :: rest, state =>
      Condition state item ∧ Throughout step Condition rest (step state item)

/-- What an invariant gives for one item, it gives throughout the loop. -/
theorem Throughout.induction {step : State → Item → State}
    {Condition Result : State → Item → Prop} (Invariant : State → Prop)
    (preserved : ∀ {state item}, Invariant state → Condition state item →
      Result state item ∧ Invariant (step state item)) :
    ∀ {items : List Item} {first : State},
      Throughout step Condition items first → Invariant first →
        Throughout step Result items first := by
  intro items
  induction items with
  | nil => exact fun _ _ => trivial
  | cons item rest ih =>
      intro first throughout initial
      obtain ⟨result, kept⟩ := preserved initial throughout.1
      exact ⟨result, ih throughout.2 kept⟩

/-- A condition that is exact for one item is exact for the loop. -/
theorem foldlM_ne_error_iff {step : State → Item → Except Error State}
    {error : Error} {Condition : State → Item → Prop}
    (exact : ∀ {state item},
      step state item ≠ .error error ↔ Condition state item)
    (items : List Item) (first : State) :
    items.foldlM step first ≠ .error error ↔
      Along step Condition items first := by
  induction items generalizing first with
  | nil => exact ⟨fun _ => trivial, fun _ stuck => by cases stuck⟩
  | cons item rest ih =>
      rw [List.foldlM_cons, Along, ← exact]
      rcases step first item with stop | next
      · exact ⟨fun safe => ⟨safe, fun _ stepped => by cases stepped⟩,
          And.left⟩
      · refine (ih next).trans
          ⟨fun safe => ⟨fun stuck => ?_, fun _ stepped => ?_⟩,
            fun safe => safe.2 next rfl⟩
        · cases stuck
        · cases stepped
          exact safe

/-- A property holds in every state of a run exactly if every step meets the
condition that is exact for it. -/
theorem prefixes_iff_along {step : State → Item → Except Error State}
    {Condition : State → Item → Prop} {Lawful : State → Prop}
    (Invariant : State → Prop)
    (exact : ∀ {state item}, Invariant state → Lawful state →
      ∃ next, step state item = .ok next ∧ Invariant next ∧
        (Lawful next ↔ Condition state item)) :
    ∀ {items : List Item} {first : State}, Invariant first → Lawful first →
      ((∀ reached, reached <+: items → ∀ state,
          reached.foldlM step first = .ok state → Lawful state) ↔
        Along step Condition items first) := by
  intro items
  induction items with
  | nil =>
      intro first _ lawful
      refine ⟨fun _ => trivial, fun _ reached part state run => ?_⟩
      rw [List.prefix_nil.mp part] at run
      cases run
      exact lawful
  | cons item rest ih =>
      intro first kept lawful
      obtain ⟨next, stepped, keptNext, lawfulNext⟩ := exact kept lawful
      have one : ∀ items, (item :: items).foldlM step first =
          items.foldlM step next := by
        intro items
        rw [List.foldlM_cons, stepped]
        rfl
      constructor
      · intro always
        have here := always [item] (List.prefix_append [item] rest) next
          (one [])
        refine ⟨lawfulNext.mp here, fun other same => ?_⟩
        cases stepped.symm.trans same
        exact (ih keptNext here).mp
          fun reached part state run =>
            always (item :: reached) (List.cons_prefix_cons.mpr ⟨rfl, part⟩)
              state ((one reached).trans run)
      · intro along reached part state run
        rcases List.prefix_cons_iff.mp part with rfl | ⟨later, rfl, inner⟩
        · cases run
          exact lawful
        · exact (ih keptNext
            (lawfulNext.mpr along.1)).mpr (along.2 next stepped) later inner
              state ((one later).symm.trans run)

/-- A loop fails as one of its steps does. -/
theorem exists_of_foldlM_error {step : State → Item → Except Error State}
    {error : Error} :
    ∀ {items : List Item} {first : State},
      items.foldlM step first = .error error →
      ∃ item ∈ items, ∃ state, step state item = .error error := by
  intro items
  induction items with
  | nil =>
      intro first failed
      cases failed
  | cons item rest ih =>
      intro first failed
      rw [List.foldlM_cons] at failed
      rcases bind_eq_error.mp failed with here | ⟨middle, _, later⟩
      · exact ⟨item, List.mem_cons_self, first, here⟩
      · obtain ⟨other, member, further⟩ := ih later
        exact ⟨other, List.mem_cons_of_mem item member, further⟩

/-- A loop whose steps change nothing changes nothing. -/
theorem foldlM_fixed {step : State → Item → Except Error State}
    {state : State} {items : List Item}
    (fixed : ∀ item ∈ items, step state item = .ok state) :
    items.foldlM step state = .ok state := by
  induction items with
  | nil => rfl
  | cons item rest ih =>
      rw [List.foldlM_cons, fixed item List.mem_cons_self]
      exact ih fun other later =>
        fixed other (List.mem_cons_of_mem item later)

theorem foldl_fixed {step : State → Item → State} {state : State}
    {items : List Item} (fixed : ∀ item ∈ items, step state item = state) :
    items.foldl step state = state := by
  induction items with
  | nil => rfl
  | cons item rest ih =>
      rw [List.foldl_cons, fixed item List.mem_cons_self]
      exact ih fun other later =>
        fixed other (List.mem_cons_of_mem item later)

/-- A loop that cannot fail, with an invariant that mentions the items still
to come. -/
theorem foldl_induction {step : State → Item → State}
    (Invariant : List Item → State → Prop)
    (preserved : ∀ {item rest state},
      Invariant (item :: rest) state → Invariant rest (step state item)) :
    ∀ {items : List Item} {first : State},
      Invariant items first → Invariant [] (items.foldl step first) := by
  intro items
  induction items with
  | nil =>
      intro first initial
      exact initial
  | cons item rest ih =>
      intro first initial
      exact ih (preserved initial)

end Loops

end ChipletSniper.Library
