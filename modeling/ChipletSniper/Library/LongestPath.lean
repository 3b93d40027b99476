import Mathlib.Data.List.Basic
import Mathlib.Logic.Function.Basic
import Mathlib.Order.Lattice

/-!
# Longest paths by one sweep

The nodes of a graph without cycles are visited in an order in which the
consumers of a node come before it. Every node passes what it has got so far
on to its producers and forgets it.
-/

namespace ChipletSniper.Library

open Function

variable {Node : Type*}

/-- A path leads from a direct node back to `node`; the number is the sum of
the weights along it. -/
inductive PathTo (direct : List Node) (producers : Node → List Node)
    (weight : Node → Nat) : Node → Nat → Prop where
  | direct {node : Node} :
      node ∈ direct → PathTo direct producers weight node (weight node)
  | producer {node consumer : Node} {total : Nat} :
      PathTo direct producers weight consumer total →
        node ∈ producers consumer →
          PathTo direct producers weight node (total + weight node)

/-- A number is the greatest sum along a path, or zero if there is none. -/
structure IsLongest (direct : List Node) (producers : Node → List Node)
    (weight : Node → Nat) (longest : Nat) : Prop where
  bound : ∀ {node total}, PathTo direct producers weight node total →
    total ≤ longest
  attained : longest = 0 ∨ ∃ node, PathTo direct producers weight node longest

variable {producers : Node → List Node}

/-- The nodes still to come are in order: no node is its own producer or the
producer of one behind it, and all producers are still to come. -/
structure ConsumersFirst (producers : Node → List Node) (nodes : List Node) :
    Prop where
  distinct : nodes.Nodup
  backward : nodes.Pairwise fun before after => before ∉ producers after
  irreflexive : ∀ node ∈ nodes, node ∉ producers node
  closed : ∀ node ∈ nodes, ∀ producer ∈ producers node, producer ∈ nodes

theorem ConsumersFirst.tail {node : Node} {rest : List Node}
    (ordered : ConsumersFirst producers (node :: rest)) :
    ConsumersFirst producers rest := by
  obtain ⟨first, backward⟩ := List.pairwise_cons.mp ordered.backward
  refine ⟨(List.nodup_cons.mp ordered.distinct).2, backward, ?_, ?_⟩
  · intro other member
    exact ordered.irreflexive other (List.mem_cons_of_mem node member)
  · intro other member producer produces
    have inside := ordered.closed other (List.mem_cons_of_mem node member)
      producer produces
    rcases List.mem_cons.mp inside with rfl | later
    · exact absurd produces (first other member)
    · exact later

/-- The producers of the first node lie behind it. -/
theorem ConsumersFirst.producers_tail {node producer : Node} {rest : List Node}
    (ordered : ConsumersFirst producers (node :: rest))
    (produces : producer ∈ producers node) : producer ∈ rest := by
  rcases List.mem_cons.mp
    (ordered.closed node List.mem_cons_self producer produces) with rfl | later
  · exact absurd produces (ordered.irreflexive producer List.mem_cons_self)
  · exact later

variable {direct : List Node} {weight : Node → Nat}

/-- The nodes on paths lie among the nodes that are closed under producers. -/
theorem mem_of_pathTo {nodes : List Node} {node : Node} {total : Nat}
    (ordered : ConsumersFirst producers nodes)
    (inside : ∀ node ∈ direct, node ∈ nodes)
    (path : PathTo direct producers weight node total) : node ∈ nodes := by
  induction path with
  | direct member => exact inside _ member
  | producer _ produces ih =>
      exact ordered.closed _ ih _ produces

/-- What every node has got, and the longest path so far. -/
structure Sweep (Node : Type*) where
  times : Node → Nat
  longest : Nat

namespace Sweep

variable [DecidableEq Node]
variable (modulus : Nat) (weight : Node → Nat) (producers : Node → List Node)

/-- A node passes its time on to one of its producers. -/
def relax (node : Node) (times : Node → Nat) (producer : Node) : Node → Nat :=
  update times producer
    (max ((weight producer + times node) % modulus) (times producer))

/-- A node is visited. Without a path to it nothing happens. -/
def visit (sweep : Sweep Node) (node : Node) : Sweep Node :=
  if sweep.times node = 0 then
    sweep
  else
    let times :=
      (producers node).foldl (relax modulus weight node) sweep.times
    { times := update times node 0
      longest := max sweep.longest (times node) }

variable {modulus weight producers}

/-! ## One visit -/

theorem relax_of_ne {node producer other : Node} {times : Node → Nat}
    (different : other ≠ producer) :
    relax modulus weight node times producer other = times other :=
  update_of_ne different _ _

theorem foldl_relax_of_not_mem {node other : Node} {nodes : List Node}
    (outside : other ∉ nodes) (times : Node → Nat) :
    nodes.foldl (relax modulus weight node) times other = times other := by
  induction nodes generalizing times with
  | nil => rfl
  | cons head rest ih =>
      obtain ⟨different, later⟩ := not_or.mp (List.mem_cons.not.mp outside)
      rw [List.foldl_cons, ih later, relax_of_ne different]

/-- Every producer gets at least what it had and what is passed on, and
nothing else. -/
theorem foldl_relax_of_mem {node other : Node} {nodes : List Node}
    (apart : node ∉ nodes) (member : other ∈ nodes) (times : Node → Nat)
    (small : weight other + times node < modulus) :
    nodes.foldl (relax modulus weight node) times other =
      max (weight other + times node) (times other) := by
  induction nodes generalizing times with
  | nil => cases member
  | cons head rest ih =>
      obtain ⟨different, later⟩ := not_or.mp (List.mem_cons.not.mp apart)
      have kept : relax modulus weight node times head node = times node :=
        relax_of_ne different
      rw [List.foldl_cons]
      by_cases again : other ∈ rest
      · rw [ih later again _ (by rw [kept]; exact small), kept]
        by_cases same : other = head
        · subst same
          rw [relax, update_self, Nat.mod_eq_of_lt small, ← max_assoc,
            max_self]
        · rw [relax_of_ne same]
      · obtain rfl := (List.mem_cons.mp member).resolve_right again
        rw [foldl_relax_of_not_mem again, relax, update_self,
          Nat.mod_eq_of_lt small]

/-- Only the producers of a node can get something. -/
theorem visit_times_of_not_mem {sweep : Sweep Node} {node other : Node}
    (outside : other ∉ producers node)
    (nothing : other = node ∨ sweep.times other = 0) :
    (sweep.visit modulus weight producers node).times other = 0 := by
  unfold visit
  split
  next empty =>
    rcases nothing with rfl | nothing
    · exact empty
    · exact nothing
  · by_cases same : other = node
    · subst same
      exact update_self _ _ _
    · refine (update_of_ne same _ _).trans ?_
      rw [foldl_relax_of_not_mem outside]
      exact nothing.resolve_left same

/-! ## The whole sweep -/

/-- When all nodes have been visited nothing is left. -/
theorem foldl_visit_times {nodes : List Node}
    (ordered : ConsumersFirst producers nodes)
    {sweep : Sweep Node} (empty : ∀ node ∉ nodes, sweep.times node = 0) :
    (nodes.foldl (visit modulus weight producers) sweep).times =
      fun _ => 0 := by
  induction nodes generalizing sweep with
  | nil =>
      funext node
      exact empty node List.not_mem_nil
  | cons node rest ih =>
      refine ih ordered.tail fun other outside => ?_
      refine visit_times_of_not_mem
        (fun produces => outside (ordered.producers_tail produces)) ?_
      by_cases same : other = node
      · exact .inl same
      · exact .inr (empty other (by simp [same, outside]))

variable {direct : List Node}

/-- What the times are while the nodes in `rest` are still to come. -/
structure Partial (direct : List Node) (producers : Node → List Node)
    (weight : Node → Nat) (rest : List Node) (sweep : Sweep Node) : Prop where
  sound : ∀ {node}, sweep.times node ≠ 0 →
    PathTo direct producers weight node (sweep.times node)
  started : ∀ node ∈ rest, node ∈ direct → weight node ≤ sweep.times node
  passed : ∀ {consumer total node}, consumer ∉ rest →
    PathTo direct producers weight consumer total → node ∈ rest →
      node ∈ producers consumer → total + weight node ≤ sweep.times node
  bound : ∀ {node total}, node ∉ rest →
    PathTo direct producers weight node total → total ≤ sweep.longest
  attained : sweep.longest = 0 ∨
    ∃ node, PathTo direct producers weight node sweep.longest

omit [DecidableEq Node] in
/-- The paths to the node that comes next have all been passed on to it. -/
theorem Partial.le_times {node : Node} {rest : List Node}
    {sweep : Sweep Node} {total : Nat}
    (state : Partial direct producers weight (node :: rest) sweep)
    (ordered : ConsumersFirst producers (node :: rest))
    (path : PathTo direct producers weight node total) :
    total ≤ sweep.times node := by
  cases path with
  | direct member => exact state.started node List.mem_cons_self member
  | @producer _ consumer total earlier produces =>
      refine state.passed ?_ earlier List.mem_cons_self produces
      intro inside
      rcases List.mem_cons.mp inside with rfl | later
      · exact ordered.irreflexive consumer List.mem_cons_self produces
      · exact (List.pairwise_cons.mp ordered.backward).1 consumer later produces

theorem Partial.visit {node : Node} {rest : List Node} {sweep : Sweep Node}
    (state : Partial direct producers weight (node :: rest) sweep)
    (ordered : ConsumersFirst producers (node :: rest))
    (positive : ∀ node total, PathTo direct producers weight node total →
      0 < total)
    (small : ∀ node total, PathTo direct producers weight node total →
      total < modulus) :
    Partial direct producers weight rest
      (sweep.visit modulus weight producers node) := by
  have outside : node ∉ rest := (List.nodup_cons.mp ordered.distinct).1
  by_cases empty : sweep.times node = 0
  · have same : sweep.visit modulus weight producers node = sweep :=
      if_pos empty
    have pathless : ∀ total, ¬ PathTo direct producers weight node total := by
      intro total path
      have least := state.le_times ordered path
      have := positive node total path
      omega
    rw [same]
    refine ⟨state.sound, ?_, ?_, ?_, state.attained⟩
    · exact fun other member => state.started other
        (List.mem_cons_of_mem node member)
    · intro consumer total other behind path member produces
      refine state.passed ?_ path (List.mem_cons_of_mem node member) produces
      intro inside
      rcases List.mem_cons.mp inside with rfl | later
      · exact pathless total path
      · exact behind later
    · intro other total behind path
      refine state.bound ?_ path
      intro inside
      rcases List.mem_cons.mp inside with rfl | later
      · exact pathless total path
      · exact behind later
  · have path := state.sound empty
    have given : ∀ other, other ∈ producers node →
        (producers node).foldl (relax modulus weight node) sweep.times other =
          max (weight other + sweep.times node) (sweep.times other) := by
      intro other produces
      refine foldl_relax_of_mem
        (ordered.irreflexive node List.mem_cons_self) produces _ ?_
      have := small other _ (.producer path produces)
      omega
    have kept : ∀ other, other ∉ producers node →
        (producers node).foldl (relax modulus weight node) sweep.times other =
          sweep.times other :=
      fun other outside => foldl_relax_of_not_mem outside _
    have visited : sweep.visit modulus weight producers node =
        { times := update
            ((producers node).foldl (relax modulus weight node) sweep.times)
            node 0
          longest := max sweep.longest (sweep.times node) } := by
      rw [Sweep.visit, if_neg empty]
      simp only [kept node (ordered.irreflexive node List.mem_cons_self)]
    rw [visited]
    refine ⟨?_, ?_, ?_, ?_, ?_⟩
    · intro other nonzero
      have different : other ≠ node := by
        rintro rfl
        exact nonzero (update_self _ _ _)
      simp only [update_of_ne different] at nonzero ⊢
      by_cases produces : other ∈ producers node
      · rw [given other produces] at nonzero ⊢
        rcases le_total (weight other + sweep.times node) (sweep.times other)
          with less | less
        · rw [max_eq_right less] at nonzero ⊢
          exact state.sound nonzero
        · rw [max_eq_left less, Nat.add_comm]
          exact .producer path produces
      · rw [kept other produces] at nonzero ⊢
        exact state.sound nonzero
    · intro other member first
      have different : other ≠ node := fun same => outside (same ▸ member)
      have least := state.started other (List.mem_cons_of_mem node member) first
      simp only [update_of_ne different]
      by_cases produces : other ∈ producers node
      · rw [given other produces]
        exact least.trans (le_max_right _ _)
      · rw [kept other produces]
        exact least
    · intro consumer total other behind earlier member produces
      have different : other ≠ node := fun same => outside (same ▸ member)
      simp only [update_of_ne different]
      by_cases same : consumer = node
      · subst same
        rw [given other produces, Nat.add_comm]
        exact (Nat.add_le_add_left (state.le_times ordered earlier) _).trans
          (le_max_left _ _)
      · have least := state.passed (fun inside =>
          (List.mem_cons.mp inside).elim same behind) earlier
          (List.mem_cons_of_mem node member) produces
        by_cases again : other ∈ producers node
        · rw [given other again]
          exact least.trans (le_max_right _ _)
        · rw [kept other again]
          exact least
    · intro other total behind earlier
      by_cases same : other = node
      · subst same
        exact (state.le_times ordered earlier).trans (le_max_right _ _)
      · exact (state.bound (fun inside =>
          (List.mem_cons.mp inside).elim same behind) earlier).trans
          (le_max_left _ _)
    · rcases le_total sweep.longest (sweep.times node) with less | less
      · rw [max_eq_right less]
        exact .inr ⟨node, path⟩
      · rw [max_eq_left less]
        exact state.attained

theorem Partial.foldl {nodes : List Node} {sweep : Sweep Node}
    (state : Partial direct producers weight nodes sweep)
    (ordered : ConsumersFirst producers nodes)
    (positive : ∀ node total, PathTo direct producers weight node total →
      0 < total)
    (small : ∀ node total, PathTo direct producers weight node total →
      total < modulus) :
    Partial direct producers weight []
      (nodes.foldl (Sweep.visit modulus weight producers) sweep) := by
  induction nodes generalizing sweep with
  | nil => exact state
  | cons node rest ih =>
      exact ih (state.visit ordered positive small)
        ordered.tail

/-- What is there before the first visit: the direct nodes have their own
weight. -/
def start (direct : List Node) (weight : Node → Nat) : Sweep Node where
  times node := if node ∈ direct then weight node else 0
  longest := 0

/-- The direct nodes are marked one after the other. -/
theorem foldl_mark (nodes : List Node) (times : Node → Nat) (node : Node) :
    nodes.foldl (fun times node => update times node (weight node))
        times node =
      if node ∈ nodes then weight node else times node := by
  induction nodes generalizing times with
  | nil => rfl
  | cons head rest ih =>
      rw [List.foldl_cons, ih]
      by_cases later : node ∈ rest
      · rw [if_pos later, if_pos (List.mem_cons_of_mem head later)]
      · rw [if_neg later]
        by_cases same : node = head
        · subst same
          rw [update_self, if_pos List.mem_cons_self]
        · rw [update_of_ne same, if_neg]
          exact fun member => (List.mem_cons.mp member).elim same later

theorem partial_start {nodes : List Node}
    (inside : ∀ {node total}, PathTo direct producers weight node total →
      node ∈ nodes) :
    Partial direct producers weight nodes (start direct weight) where
  sound := by
    intro node nonzero
    by_cases member : node ∈ direct
    · have time : (start direct weight).times node = weight node :=
        if_pos member
      rw [time]
      exact .direct member
    · exact absurd (if_neg member) nonzero
  started := fun node _ member => (if_pos member).ge
  passed := fun behind path _ _ => absurd (inside path) behind
  bound := fun behind path => absurd (inside path) behind
  attained := .inl rfl

/-- The sweep finds the longest path if no path is too long. -/
theorem isLongest_foldl_visit {nodes : List Node}
    (ordered : ConsumersFirst producers nodes)
    (inside : ∀ node ∈ direct, node ∈ nodes)
    (positive : ∀ node total, PathTo direct producers weight node total →
      0 < total)
    (small : ∀ node total, PathTo direct producers weight node total →
      total < modulus) :
    IsLongest direct producers weight
      (nodes.foldl (Sweep.visit modulus weight producers)
        (start direct weight)).longest := by
  have final := (partial_start (mem_of_pathTo ordered inside)).foldl ordered
    positive small
  exact ⟨fun path => final.bound List.not_mem_nil path, final.attained⟩

end Sweep

end ChipletSniper.Library
