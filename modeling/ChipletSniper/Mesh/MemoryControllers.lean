import Mathlib.Data.List.GetD
import Mathlib.Data.List.Nodup
import Mathlib.Data.Nat.ModEq

/-!
# Positions of the memory controllers

The controllers are spread along the perimeter of the mesh, clockwise from
`(0, 0)`. The perimeter of a single column contains its inner cores twice.
-/

namespace ChipletSniper.Mesh

/-- The size of the mesh, as `computeMeshDimensions` returns it, and the
configuration. -/
structure MeshSize where
  width : Nat
  height : Nat
  concentration : Nat
  dimensions : Nat
  width_pos : 0 < width
  height_pos : 0 < height
  concentration_pos : 0 < concentration

/-- The assertions of `computeMemoryControllerPositions`. -/
inductive PerimeterError where
  | size
  | tooManyControllers
  deriving DecidableEq, Repr

namespace MeshSize

variable (mesh : MeshSize)

/-- The perimeter is more than the first row. -/
def HasRows : Prop :=
  1 < mesh.dimensions ∧ 1 < mesh.height

instance : Decidable mesh.HasRows :=
  inferInstanceAs (Decidable (_ ∧ _))

/-- `core_id_list_along_perimeter`. -/
def perimeter : List Nat :=
  List.range mesh.width ++
    if mesh.HasRows then
      (List.range (mesh.height - 2)).map
          (fun i => (i + 1) * mesh.width + mesh.width - 1) ++
        (List.range mesh.width).reverse.map
          (fun i => (mesh.height - 1) * mesh.width + i) ++
        (List.range (mesh.height - 2)).reverse.map
          (fun i => (i + 1) * mesh.width)
    else []

def computeMemoryControllerPositions (controllers : Nat) :
    Except PerimeterError (List Nat) :=
  if mesh.HasRows ∧
      mesh.perimeter.length ≠ 2 * (mesh.width + mesh.height - 2) then
    .error .size
  else if mesh.perimeter.length < controllers then
    .error .tooManyControllers
  else
    let spacing := mesh.perimeter.length / controllers
    .ok ((List.range controllers).map fun i =>
      let index := (i * spacing + mesh.width / 2) % mesh.perimeter.length
      mesh.concentration * mesh.perimeter.getD index 0)

/-! ## The perimeter -/

/-- The perimeter in coordinates. -/
def corners : List (Nat × Nat) :=
  (List.range mesh.width).map (fun i => (i, 0)) ++
    if mesh.HasRows then
      (List.range (mesh.height - 2)).map (fun i => (mesh.width - 1, i + 1)) ++
        (List.range mesh.width).reverse.map (fun i => (i, mesh.height - 1)) ++
        (List.range (mesh.height - 2)).reverse.map (fun i => (0, i + 1))
    else []

variable {mesh}

theorem perimeter_eq :
    mesh.perimeter =
      mesh.corners.map fun corner => corner.2 * mesh.width + corner.1 := by
  have positive := mesh.width_pos
  unfold perimeter corners
  rw [List.map_append, List.map_map]
  congr 1
  · simp [Function.comp_def]
  · split
    · rw [List.map_append, List.map_append, List.map_map, List.map_map,
        List.map_map]
      simp only [Function.comp_def, Nat.add_zero, Nat.add_sub_assoc positive]
    · rfl

theorem length_perimeter :
    mesh.perimeter.length =
      if mesh.HasRows then 2 * (mesh.width + mesh.height - 2)
      else mesh.width := by
  have positive := mesh.width_pos
  unfold perimeter
  split
  next rows =>
    have more := rows.2
    simp only [List.length_append, List.length_map, List.length_range,
      List.length_reverse]
    omega
  next _ => simp

theorem length_pos : 0 < mesh.perimeter.length := by
  have positive := mesh.width_pos
  rw [length_perimeter]
  split
  next rows =>
    have more := rows.2
    omega
  next _ => exact positive

theorem inside_of_mem {corner : Nat × Nat} (member : corner ∈ mesh.corners) :
    corner.1 < mesh.width ∧ corner.2 < mesh.height ∧
      (corner.1 = 0 ∨ corner.1 = mesh.width - 1 ∨ corner.2 = 0 ∨
        corner.2 = mesh.height - 1) := by
  have wide := mesh.width_pos
  have high := mesh.height_pos
  unfold corners at member
  split at member
  next rows =>
    simp only [List.mem_append, List.mem_map, List.mem_range,
      List.mem_reverse] at member
    rcases member with
      ⟨i, below, rfl⟩ | (⟨i, below, rfl⟩ | ⟨i, below, rfl⟩) | ⟨i, below, rfl⟩ <;>
      dsimp only <;> omega
  next _ =>
    simp only [List.append_nil, List.mem_map, List.mem_range] at member
    obtain ⟨i, below, rfl⟩ := member
    dsimp only
    omega

/-- A mesh of one column, where the way back is the way there. -/
def Column (mesh : MeshSize) : Prop :=
  mesh.width = 1 ∧ mesh.HasRows

instance : Decidable mesh.Column :=
  inferInstanceAs (Decidable (_ ∧ _))

theorem nodup_corners (wide : ¬ mesh.Column) : mesh.corners.Nodup := by
  have level : ∀ row : Nat, Function.Injective fun i : Nat => (i, row) :=
    fun _ _ _ same => (Prod.mk.inj same).1
  have upright : ∀ column : Nat,
      Function.Injective fun i : Nat => (column, i + 1) :=
    fun _ _ _ same => Nat.succ.inj (Prod.mk.inj same).2
  unfold corners
  split
  next rows =>
    have more := rows.2
    have many : mesh.width ≠ 1 := fun one => wide ⟨one, rows⟩
    have positive := mesh.width_pos
    rw [List.nodup_append, List.nodup_append, List.nodup_append]
    refine ⟨List.nodup_range.map (level 0),
      ⟨⟨List.nodup_range.map (upright _),
        (List.nodup_reverse.mpr List.nodup_range).map (level _), ?_⟩,
        (List.nodup_reverse.mpr List.nodup_range).map (upright 0), ?_⟩, ?_⟩
    · simp only [List.mem_map, List.mem_range, List.mem_reverse]
      rintro _ ⟨i, below, rfl⟩ _ ⟨j, below', rfl⟩ same
      obtain ⟨-, row⟩ := Prod.mk.inj same
      omega
    · simp only [List.mem_append, List.mem_map, List.mem_range,
        List.mem_reverse]
      rintro _ (⟨i, below, rfl⟩ | ⟨i, below, rfl⟩) _ ⟨j, below', rfl⟩ same
      · obtain ⟨column, -⟩ := Prod.mk.inj same
        omega
      · obtain ⟨-, row⟩ := Prod.mk.inj same
        omega
    · simp only [List.mem_append, List.mem_map, List.mem_range,
        List.mem_reverse]
      rintro _ ⟨i, below, rfl⟩ _
        ((⟨j, below', rfl⟩ | ⟨j, below', rfl⟩) | ⟨j, below', rfl⟩) same
      · obtain ⟨-, row⟩ := Prod.mk.inj same
        omega
      · obtain ⟨-, row⟩ := Prod.mk.inj same
        omega
      · obtain ⟨-, row⟩ := Prod.mk.inj same
        omega
  next _ =>
    rw [List.append_nil]
    exact List.nodup_range.map (level 0)

/-- The number of a router determines its coordinates. -/
theorem nodup_perimeter (wide : ¬ mesh.Column) : mesh.perimeter.Nodup := by
  rw [perimeter_eq]
  refine (nodup_corners wide).map_on fun first member second other same => ?_
  have within := (inside_of_mem member).1
  have within' := (inside_of_mem other).1
  have positive := mesh.width_pos
  have column : first.1 = second.1 := by
    have residue := congrArg (· % mesh.width) same
    simpa only [Nat.mul_add_mod_self_right, Nat.mod_eq_of_lt within,
      Nat.mod_eq_of_lt within'] using residue
  have row : first.2 = second.2 := by
    rw [column] at same
    exact Nat.eq_of_mul_eq_mul_right positive (Nat.add_right_cancel same)
  exact Prod.ext column row

/-! ## A single column -/

/-- The perimeter of a column goes down and up again. -/
theorem getD_column (column : mesh.Column) {place : Nat}
    (below : place < mesh.perimeter.length) :
    mesh.perimeter.getD place 0 =
      min place (mesh.perimeter.length - place) := by
  obtain ⟨one, rows⟩ := column
  have more := rows.2
  have total : mesh.perimeter.length = 2 * (mesh.height - 1) := by
    rw [length_perimeter, if_pos rows, one]
    omega
  have down : mesh.perimeter =
      List.range mesh.height ++
        (List.range (mesh.height - 2)).reverse.map (· + 1) := by
    unfold perimeter
    rw [if_pos rows, one]
    obtain ⟨inner, high⟩ : ∃ inner, mesh.height = inner + 2 :=
      Nat.exists_eq_add_of_le' more
    have whole : List.range (inner + 2) =
        0 :: ((List.range inner).map (· + 1) ++ [inner + 1]) := by
      rw [List.range_succ_eq_map, List.range_succ, List.map_append]
      rfl
    rw [high, whole]
    simp [List.append_assoc]
  rw [total] at below ⊢
  rw [down, List.getD_eq_getElem?_getD]
  by_cases first : place < mesh.height
  · rw [List.getElem?_append_left (by simpa using first),
      List.getElem?_range first, Option.getD_some]
    omega
  · rw [List.getElem?_append_right (by simpa using first), List.getElem?_map,
      List.length_range, List.getElem?_reverse (by rw [List.length_range]; omega),
      List.length_range, List.getElem?_range (by omega)]
    simp only [Option.map_some, Option.getD_some]
    omega

/-! ## The positions -/

/-- The place of a controller along the perimeter. -/
def place (mesh : MeshSize) (controllers i : Nat) : Nat :=
  (i * (mesh.perimeter.length / controllers) + mesh.width / 2) %
    mesh.perimeter.length

variable {controllers : Nat}

theorem spaced_lt (present : 0 < controllers)
    (enough : controllers ≤ mesh.perimeter.length) {i : Nat}
    (below : i < controllers) :
    i * (mesh.perimeter.length / controllers) < mesh.perimeter.length := by
  have spacing : 0 < mesh.perimeter.length / controllers :=
    Nat.div_pos enough present
  calc i * (mesh.perimeter.length / controllers)
      < controllers * (mesh.perimeter.length / controllers) :=
        Nat.mul_lt_mul_of_pos_right below spacing
    _ ≤ mesh.perimeter.length := Nat.mul_div_le _ _

theorem place_injective (present : 0 < controllers)
    (enough : controllers ≤ mesh.perimeter.length) {i j : Nat}
    (below : i < controllers) (below' : j < controllers)
    (same : mesh.place controllers i = mesh.place controllers j) : i = j := by
  have spacing : 0 < mesh.perimeter.length / controllers :=
    Nat.div_pos enough present
  have residues :
      i * (mesh.perimeter.length / controllers) ≡
        j * (mesh.perimeter.length / controllers)
          [MOD mesh.perimeter.length] :=
    Nat.ModEq.add_right_cancel' _ same
  have equal := residues.eq_of_lt_of_lt (spaced_lt present enough below)
    (spaced_lt present enough below')
  exact Nat.eq_of_mul_eq_mul_right spacing equal

/-- The perimeter of a column is sampled at two places with the same core. -/
def Folded (mesh : MeshSize) (controllers : Nat) : Prop :=
  mesh.Column ∧
    mesh.perimeter.length / controllers ∣ mesh.perimeter.length ∧
    mesh.perimeter.length / (mesh.perimeter.length / controllers) + 3 ≤
      2 * controllers

/-- Two places of a column have the same core if they are the two ways to
it. -/
theorem column_eq_iff {length i j spacing : Nat} (less : i < j)
    (inside : j * spacing < length) (present : 0 < spacing) :
    min (i * spacing) (length - i * spacing) =
        min (j * spacing) (length - j * spacing) ↔
      (i + j) * spacing = length := by
  have more : i * spacing < j * spacing :=
    Nat.mul_lt_mul_of_pos_right less present
  rw [Nat.add_mul]
  omega

theorem folded_iff (column : mesh.Column) (present : 0 < controllers)
    (enough : controllers ≤ mesh.perimeter.length) :
    mesh.Folded controllers ↔
      ∃ i j, i < j ∧ j < controllers ∧
        (i + j) * (mesh.perimeter.length / controllers) =
          mesh.perimeter.length := by
  have spacing : 0 < mesh.perimeter.length / controllers :=
    Nat.div_pos enough present
  unfold Folded
  generalize sampled : mesh.perimeter.length / controllers = step at spacing ⊢
  constructor
  · rintro ⟨-, ⟨parts, whole⟩, few⟩
    have quotient : mesh.perimeter.length / step = parts := by
      rw [whole, Nat.mul_div_cancel_left _ spacing]
    rw [quotient] at few
    have many : controllers ≤ parts := by
      rw [← quotient, Nat.le_div_iff_mul_le spacing, ← sampled]
      exact Nat.mul_div_le _ _
    refine ⟨parts - (controllers - 1), controllers - 1, by omega, by omega, ?_⟩
    rw [Nat.sub_add_cancel (by omega), Nat.mul_comm]
    exact whole.symm
  · rintro ⟨i, j, less, below, whole⟩
    refine ⟨column, Dvd.intro_left _ whole, ?_⟩
    rw [← whole, Nat.mul_div_cancel _ spacing]
    omega

/-- The position of a controller. -/
def position (mesh : MeshSize) (controllers i : Nat) : Nat :=
  mesh.concentration *
    mesh.perimeter.getD (mesh.place controllers i) 0

theorem place_lt (mesh : MeshSize) (controllers i : Nat) :
    mesh.place controllers i < mesh.perimeter.length :=
  Nat.mod_lt _ length_pos

theorem position_eq_iff {i j : Nat} :
    mesh.position controllers i = mesh.position controllers j ↔
      mesh.perimeter.getD (mesh.place controllers i) 0 =
        mesh.perimeter.getD (mesh.place controllers j) 0 :=
  Nat.mul_right_inj mesh.concentration_pos.ne'

theorem position_injective_iff (present : 0 < controllers)
    (enough : controllers ≤ mesh.perimeter.length) :
    (∀ i < controllers, ∀ j < controllers,
      mesh.position controllers i = mesh.position controllers j → i = j) ↔
      ¬ mesh.Folded controllers := by
  by_cases column : mesh.Column
  · have spacing : 0 < mesh.perimeter.length / controllers :=
      Nat.div_pos enough present
    have at_place : ∀ i < controllers, mesh.place controllers i =
        i * (mesh.perimeter.length / controllers) := by
      intro i below
      unfold place
      rw [column.1]
      exact Nat.mod_eq_of_lt (spaced_lt present enough below)
    have shared : ∀ i j, i < j → j < controllers →
        (mesh.position controllers i = mesh.position controllers j ↔
          (i + j) * (mesh.perimeter.length / controllers) =
            mesh.perimeter.length) := by
      intro i j less below
      rw [position_eq_iff, getD_column column (mesh.place_lt _ _),
        getD_column column (mesh.place_lt _ _), at_place i (less.trans below),
        at_place j below]
      exact column_eq_iff less (spaced_lt present enough below) spacing
    rw [folded_iff column present enough]
    constructor
    · rintro injective ⟨i, j, less, below, whole⟩
      exact less.ne (injective i (less.trans below) j below
        ((shared i j less below).mpr whole))
    · intro unfolded i below j below' same
      rcases Nat.lt_trichotomy i j with less | equal | less
      · exact absurd ⟨i, j, less, below', (shared i j less below').mp same⟩
          unfolded
      · exact equal
      · exact absurd ⟨j, i, less, below, (shared j i less below).mp same.symm⟩
          unfolded
  · refine ⟨fun _ folded => column folded.1, fun _ i below j below' same => ?_⟩
    rw [position_eq_iff, List.getD_eq_getElem _ _ (mesh.place_lt _ _),
      List.getD_eq_getElem _ _ (mesh.place_lt _ _),
      (nodup_perimeter column).getElem_inj_iff] at same
    exact place_injective present enough below below' same

theorem compute_eq
    (enough : controllers ≤ mesh.perimeter.length) :
    mesh.computeMemoryControllerPositions controllers =
      .ok ((List.range controllers).map (mesh.position controllers)) := by
  unfold computeMemoryControllerPositions
  rw [if_neg, if_neg (Nat.not_lt.mpr enough)]
  · rfl
  · rintro ⟨rows, wrong⟩
    exact wrong (length_perimeter.trans (if_pos rows))

/-- A core is the master of a router on the perimeter. -/
def OnPerimeter (mesh : MeshSize) (core : Nat) : Prop :=
  ∃ x y, core = mesh.concentration * (y * mesh.width + x) ∧
    x < mesh.width ∧ y < mesh.height ∧
    (x = 0 ∨ x = mesh.width - 1 ∨ y = 0 ∨ y = mesh.height - 1)

theorem onPerimeter_position (mesh : MeshSize) (controllers i : Nat) :
    mesh.OnPerimeter (mesh.position controllers i) := by
  have within := mesh.place_lt controllers i
  have member :
      mesh.perimeter.getD (mesh.place controllers i) 0 ∈ mesh.perimeter := by
    rw [List.getD_eq_getElem _ _ within]
    exact List.getElem_mem within
  generalize same : mesh.perimeter.getD (mesh.place controllers i) 0 = router
    at member
  rw [perimeter_eq, List.mem_map] at member
  obtain ⟨corner, there, rfl⟩ := member
  obtain ⟨wide, high, border⟩ := inside_of_mem there
  exact ⟨corner.1, corner.2, congrArg (mesh.concentration * ·) same, wide, high,
    border⟩

/-- For every number of controllers that the perimeter has place for, as many
positions are returned, all on the perimeter. They are distinct unless the
perimeter of a single column is sampled on its way back. -/
theorem positions_distinct_iff (mesh : MeshSize) {controllers : Nat}
    (present : 0 < controllers) (enough : controllers ≤ mesh.perimeter.length) :
    ((∃ positions,
        mesh.computeMemoryControllerPositions controllers = .ok positions ∧
        positions.length = controllers ∧
        (∀ core ∈ positions, mesh.OnPerimeter core) ∧
        positions.Nodup) ↔
      ¬ mesh.Folded controllers) := by
  rw [← position_injective_iff present enough, compute_eq enough]
  constructor
  · rintro ⟨positions, computed, -, -, distinct⟩ i below j below' same
    cases computed
    exact List.inj_on_of_nodup_map distinct (List.mem_range.mpr below)
      (List.mem_range.mpr below') same
  · intro injective
    refine ⟨_, rfl, ?_, ?_, ?_⟩
    · rw [List.length_map, List.length_range]
    · intro core member
      obtain ⟨i, -, rfl⟩ := List.mem_map.mp member
      exact mesh.onPerimeter_position controllers i
    · refine List.nodup_range.map_on fun i below j below' same => ?_
      exact injective i (List.mem_range.mp below) j (List.mem_range.mp below')
        same

/-- A mesh of one column and three rows. -/
def tower : MeshSize where
  width := 1
  height := 3
  concentration := 1
  dimensions := 2
  width_pos := by decide
  height_pos := by decide
  concentration_pos := by decide

theorem positions_distinct_iff_tower :
    ∃ positions, tower.computeMemoryControllerPositions 3 = .ok positions ∧
      positions.length = 3 ∧ (∀ core ∈ positions, tower.OnPerimeter core) ∧
      positions.Nodup :=
  (positions_distinct_iff tower (by decide) (by decide)).mpr fun folded =>
    absurd folded.2 (by decide)

/-- Four controllers fit on the perimeter, and two of them share core 1. -/
theorem tower_shares_core :
    tower.computeMemoryControllerPositions 4 = .ok [0, 1, 2, 1] ∧
      ¬ ∃ positions, tower.computeMemoryControllerPositions 4 = .ok positions ∧
        positions.Nodup := by
  have computed :
      tower.computeMemoryControllerPositions 4 = .ok [0, 1, 2, 1] := by
    decide
  refine ⟨computed, fun ⟨positions, same, distinct⟩ => ?_⟩
  rw [computed] at same
  cases same
  exact absurd distinct (by decide)

end MeshSize

end ChipletSniper.Mesh
