import ChipletSniper.Coherence.Steps

/-!
# Single writer, and no protocol error

The invariant holds in every reachable state.  A cache that may write is the
only one with a copy, and no assertion of the protocol fails, unless an
invalidation overtakes an upgrade.
-/

namespace ChipletSniper.Coherence

open Library

variable {n : Nat} {Line : Type} {config : Config n} {initial : Line}
variable {system : System n Line}

/-! ## The invariant in runs -/

theorem inv_start (initial : Line) :
    Inv config (System.start initial : System n Line) := by
  refine ⟨⟨fun core => ?_, ⟨⟨fun _ _ => rfl, fun _ => rfl⟩, ?_⟩, ⟨nofun, ?_⟩,
    rfl⟩, fun _ => nofun, nofun⟩
  · exact .absent rfl rfl rfl nofun (.idle rfl rfl)
  · rintro (impossible | impossible) <;> cases impossible
  · exact List.Pairwise.nil

/-- The invariant holds while no invalidation overtakes an upgrade. -/
theorem inv_reached (ok : config.Ok)
    {Condition : System n Line → System.Action n Line → Prop}
    (steady : ∀ {system action}, Inv config system →
      Condition system action → Steady config system action)
    (reached : System.ReachedWhile config Condition initial system) :
    Inv config system := by
  refine invariant_of_reflTransGen (Inv config) ?_ (inv_start initial) reached
  rintro state next inv ⟨action, condition, step⟩
  obtain ⟨other, same, moves⟩ := step_moves inv ok (steady inv condition) step
  cases same
  exact moves.inv inv ok

theorem Config.FullMap.not_limited (full : config.FullMap) :
    ¬ config.maxHwSharers < n := by
  rw [full]
  exact lt_irrefl n

theorem Config.FullMap.ok (full : config.FullMap) (positive : 1 ≤ n) :
    config.Ok :=
  ⟨le_of_le_of_eq positive full.symm, fun _ => full.not_limited⟩

theorem inv_reachable (full : config.FullMap) (positive : 1 ≤ n)
    (reached : System.Reachable config initial system) :
    Inv config system :=
  inv_reached (full.ok positive)
    (fun inv _ => inv.steady full.not_limited _) reached

/-! ## Runs given by actions -/

namespace System

/-- A run of steps that do not fail. -/
def run (config : Config n) (actions : List (Action n Line))
    (system : System n Line) : Option (System n Line) :=
  actions.foldlM
    (fun system action => (system.step config action).bind Except.toOption)
    system

theorem reachable_of_run {actions : List (Action n Line)}
    (ran : (start initial).run config actions = some system) :
    Reachable config initial system := by
  refine reflTransGen_of_foldlM (fun state action next stepped => ?_) ran
  obtain ⟨result, step, same⟩ := Option.bind_eq_some_iff.mp stepped
  cases result with
  | error failure => cases same
  | ok other =>
      cases same
      exact ⟨action, trivial, step⟩

end System

/-! ## Single writer -/

section Link

variable {limited : Prop} {view : View} {cache : Llc Line}
variable {down : List (ToCache Line)} {up : List (ToDirectory Line)}

/-- A cache with a copy is a sharer. -/
theorem Link.sharer_of_valid (link : Link limited view cache down up)
    (valid : cache.cstate ≠ .invalid) :
    view.sharer = true := by
  cases link with
  | absent _ _ cstate => exact absurd cstate valid
  | pending sharer => exact sharer
  | granted sharer => exact sharer
  | held sharer => exact sharer
  | left sharer => exact sharer

/-- The line of a cache that may write has an owner. -/
theorem Link.owned_of_writer (link : Link limited view cache down up)
    (writer : cache.cstate = .exclusive ∨ cache.cstate = .modified) :
    view.dstate = .exclusive ∨ view.dstate = .modified := by
  have notInvalid : cache.cstate ≠ .invalid := by
    rcases writer with same | same <;> simp [same]
  cases link with
  | absent _ _ cstate => exact absurd cstate notInvalid
  | pending _ _ _ cstate => exact absurd cstate notInvalid
  | left _ _ _ cstate => exact absurd cstate notInvalid
  | @granted stale live grant _ _ _ _ _ granted =>
      cases grant with
      | exRep | shRep => exact absurd granted.1 notInvalid
      | upgradeRep => simp [granted.1] at writer
      | invReq | flushReq | wbReq => exact granted.elim
  | @held _ _ answered upgrade _ _ consistent copy =>
      have notShared : view.dstate ≠ .shared := by
        intro shared
        rw [Copy, if_pos (Or.inr shared)] at copy
        rcases writer with same | same <;> simp [same] at copy
      cases state : view.dstate with
      | uncached => exact absurd state consistent.cached
      | shared => exact absurd state notShared
      | exclusive => exact Or.inl rfl
      | modified => exact Or.inr rfl

end Link

/-- A single writer or many readers.  The directory knows all copies: the line
is `UNCACHED` if and only if there is no sharer, and in `EXCLUSIVE` and
`MODIFIED` the owner is the only sharer. -/
theorem single_writer (full : config.FullMap) (positive : 1 ≤ n)
    (reached : System.Reachable config initial system) :
    (∀ core, (system.caches core).cstate = .exclusive ∨
        (system.caches core).cstate = .modified →
      ∀ other, other ≠ core → (system.caches other).cstate = .invalid) ∧
    (∀ core, (system.caches core).cstate ≠ .invalid →
      ∃ entry, system.entry = some entry ∧ entry.sharers core = true) ∧
    ∀ entry, system.entry = some entry →
      (entry.dstate = .uncached ↔ ∀ core, entry.sharers core = false) ∧
      (entry.dstate = .exclusive ∨ entry.dstate = .modified →
        ∃ owner, entry.owner = some owner ∧
          ∀ core, entry.sharers core = true ↔ core = owner) := by
  have inv := inv_reachable full positive reached
  refine ⟨fun core writer other different => ?_, fun core valid => ?_,
    fun entry found => ?_⟩
  · have owned := (inv.base.links core).owned_of_writer writer
    obtain ⟨owner, -, only⟩ := inv.base.entry.owned owned
    by_contra valid
    have notInvalid : (system.caches core).cstate ≠ .invalid := by
      rcases writer with same | same <;> simp [same]
    have first := (inv.base.links core).sharer_of_valid notInvalid
    have second := (inv.base.links other).sharer_of_valid valid
    exact different (((only other).mp second).trans
      ((only core).mp first).symm)
  · have sharer := (inv.base.links core).sharer_of_valid valid
    exact ⟨system.allocate config, entry_of_sharer sharer, sharer⟩
  · have same : system.allocate config = entry := by
      rw [System.allocate, found]
      rfl
    have ok := inv.base.entry
    rw [same] at ok
    exact ⟨ok.uncached, ok.owned⟩

/-- Two caches; the first one reads, the second one writes. -/
theorem single_writer_two :
    ∃ system : System 2 Nat,
      System.Reachable ⟨.mesi, 2, none⟩ 0 system ∧
      (system.caches 1).cstate = .modified ∧
      (system.caches 0).cstate = .invalid := by
  have ran : ∃ system : System 2 Nat,
      (System.start 0).run ⟨.mesi, 2, none⟩
        [.access 0 .read, .toDirectory 0 0, .toDram, .fromDram 0, .toCache 0,
          .access 1 (.write 7), .toDirectory 1 0, .toCache 0,
          .toDirectory 0 0, .toCache 1] = some system ∧
      (system.caches 1).cstate = .modified :=
    ⟨_, rfl, rfl⟩
  obtain ⟨system, ran, modified⟩ := ran
  have reached := System.reachable_of_run ran
  have full : Config.FullMap (⟨.mesi, 2, none⟩ : Config 2) := rfl
  exact ⟨system, reached, modified,
    (single_writer full (by decide) reached).1 1 (Or.inr modified) 0
      (by decide)⟩

/-! ## No protocol error -/

/-- No assertion fails in a run in which no invalidation overtakes an upgrade,
whatever the size of the sharer list.  With a sharer list for all caches there
are no other runs. -/
theorem no_protocol_error (room : 1 ≤ config.maxHwSharers)
    (protocol : config.protocol ≠ .mesif) (initial : Line) :
    (∀ system, System.ReachedWhile config (Steady config) initial system →
      ∀ action, Steady config system action →
      ∀ failure, system.step config action ≠ some (.error failure)) ∧
    (config.FullMap → ∀ system, System.Reachable config initial system →
      ∀ action failure, system.step config action ≠ some (.error failure)) := by
  have ok : config.Ok := ⟨room, fun mesif => absurd mesif protocol⟩
  have safe : ∀ {system : System n Line} {action}, Inv config system →
      Steady config system action →
      ∀ failure, system.step config action ≠ some (.error failure) := by
    intro system action inv steady failure failed
    obtain ⟨next, same, -⟩ := step_moves inv ok steady failed
    cases same
  refine ⟨fun system reached action steady => ?_,
    fun full system reached action => ?_⟩
  · exact safe (inv_reached ok (fun _ steady => steady) reached) steady
  · have inv : Inv config system := inv_reached ok
      (fun inv _ => inv.steady full.not_limited _) reached
    exact safe inv (inv.steady full.not_limited action)

theorem steady_of_head {core : Fin n} {random : Nat}
    (upgrade : ∀ up, system.toDirectory core ≠ .upgradeReq :: up)
    (reply : ∀ up, system.toDirectory core ≠ .invRep :: up) :
    Steady config system (.toDirectory core random) := by
  rintro _ _ requester ⟨⟩ (⟨up, found, -⟩ | ⟨up, req, rest, found, -⟩)
  · exact absurd found (upgrade up)
  · exact absurd found (reply up)

/-- Two caches read the line and the first one writes it: the copy of the second
one is invalidated, and its reply upgrades the first one. -/
theorem no_protocol_error_read :
    ∃ system : System 3 Nat,
      System.ReachedWhile ⟨.msi, 2, none⟩ (Steady ⟨.msi, 2, none⟩) 0 system ∧
      system.toDirectory 1 = [.invRep] ∧
      Upgrades ⟨.msi, 2, none⟩ system 1 0 ∧
      ∀ failure, system.step ⟨.msi, 2, none⟩ (.toDirectory 1 0) ≠
        some (.error failure) := by
  have start : System.ReachedWhile ⟨.msi, 2, none⟩ (Steady ⟨.msi, 2, none⟩) 0
      (System.start 0 : System 3 Nat) := .refl
  have first := ((((start.tail ⟨.access 0 .read, nofun, rfl⟩)
    |>.tail ⟨.toDirectory 0 0, steady_of_head nofun nofun, rfl⟩)
    |>.tail ⟨.toDram, nofun, rfl⟩)
    |>.tail ⟨.fromDram 0, nofun, rfl⟩)
    |>.tail ⟨.toCache 0, nofun, rfl⟩
  have second := ((((first.tail ⟨.access 1 .read, nofun, rfl⟩)
    |>.tail ⟨.toDirectory 1 0, steady_of_head nofun nofun, rfl⟩)
    |>.tail ⟨.toDram, nofun, rfl⟩)
    |>.tail ⟨.fromDram 0, nofun, rfl⟩)
    |>.tail ⟨.toCache 1, nofun, rfl⟩
  have writes := second.tail ⟨.access 0 (.write 5), nofun, rfl⟩
  have asked := writes.tail ⟨.toDirectory 0 0, by
    rintro _ _ requester ⟨⟩ (⟨up, -, -, -, alone, -⟩ | ⟨up, _, _, found, -⟩)
    · exact absurd alone (by decide)
    · exact absurd found nofun, rfl⟩
  have invalidated := asked.tail ⟨.toCache 1, nofun, rfl⟩
  refine ⟨_, invalidated, rfl,
    .inr ⟨[], _, [], rfl, rfl, rfl, rfl, by decide⟩,
    (no_protocol_error (by decide) (by decide) 0).1 _ invalidated _ ?_⟩
  rintro _ _ requester ⟨⟩ (⟨up, found, -⟩ | ⟨_, _, _, -, queued, -, rfl, -⟩)
  · exact absurd found nofun
  · cases queued
    exact ⟨by decide, by decide⟩

/-- A limited sharer list: cache 2 wants to read, and the directory tells
cache 0 to invalidate its copy; but cache 1 evicts its copy, which makes room.
When cache 2 has evicted its copy, cache 0 is the only sharer, and it is
upgraded although the old invalidation is on its way. -/
theorem invalidation_overtakes_upgrade :
    ∃ system : System 3 Nat,
      System.Reachable ⟨.msi, 2, none⟩ 0 system ∧
      system.step ⟨.msi, 2, none⟩ (.toCache 0) = some (.error .notUpgrading) ∧
      system.step ⟨.msi, 2, none⟩ (.toDirectory 0 0) =
        some (.error .ooops) := by
  have ran : ∃ system : System 3 Nat,
      (System.start 0).run ⟨.msi, 2, none⟩
        [.access 0 .read, .toDirectory 0 0, .toDram, .fromDram 0, .toCache 0,
          .access 1 .read, .toDirectory 1 0, .toDram, .fromDram 0, .toCache 1,
          .access 2 .read, .toDirectory 2 0, .evict 1, .toDirectory 1 0,
          .toDram, .fromDram 0, .toCache 2, .evict 2, .toDirectory 2 0,
          .access 0 (.write 7), .toDirectory 0 0, .toCache 0] =
        some system ∧
      system.step ⟨.msi, 2, none⟩ (.toCache 0) = some (.error .notUpgrading) ∧
      system.step ⟨.msi, 2, none⟩ (.toDirectory 0 0) =
        some (.error .ooops) :=
    ⟨_, rfl, rfl, rfl⟩
  obtain ⟨system, ran, notUpgrading, ooops⟩ := ran
  exact ⟨system, System.reachable_of_run ran, notUpgrading, ooops⟩

end ChipletSniper.Coherence
