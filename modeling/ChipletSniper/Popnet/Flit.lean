import ChipletSniper.Library.Framing
import ChipletSniper.Popnet.Topology

/-!
# Flits and packets

A packet is cut into flits: a header, body flits and a tail, or one flit that
is both header and tail.  The payload of a flit only feeds the power model and
is left out.
-/

namespace ChipletSniper.Popnet

open Library

/-- `flit_type`. -/
inductive FlitType where
  | header
  | body
  | tail
  | single
  deriving DecidableEq, Repr

def isHeader (type : FlitType) : Bool :=
  type == .header || type == .single

def isTail (type : FlitType) : Bool :=
  type == .tail || type == .single

/-- `flit_template`.  The last two fields are history: the router that
injected the flit and the place of the flit in its packet. -/
structure Flit (Time : Type) where
  flitId : Nat
  type : FlitType
  sorAddr : Addr
  desAddr : Addr
  startTime : Time
  origin : Addr
  seq : Nat
  deriving DecidableEq

variable {Time : Type}

/-- The type of flit `l` of a packet of `e` flits. -/
def flitType (e l : Nat) : FlitType :=
  if l = 0 then (if e = 1 then .single else .header)
  else if l = e - 1 then .tail
  else .body

/-- Flit `l` of the packet that `inject_packet` adds: `a` is the flit id, `b`
the source, `c` the destination, `d` the start time and `e` the size. -/
def packetFlit (origin : Addr) (a : Nat) (b c : Addr) (d : Time) (e l : Nat) :
    Flit Time where
  flitId := a
  type := flitType e l
  sorAddr := b
  desAddr := c
  startTime := d
  origin := origin
  seq := l

/-- The flits that `inject_packet` adds. -/
def packetFlits (origin : Addr) (a : Nat) (b c : Addr) (d : Time) (e : Nat) :
    List (Flit Time) :=
  (List.range e).map (packetFlit origin a b c d e)

/-! ## Framing -/

/-- `next` is the flit after `last` in the same packet. -/
def Flit.continues (last next : Flit Time) : Prop :=
  next.flitId = last.flitId ∧ next.sorAddr = last.sorAddr ∧
    next.desAddr = last.desAddr ∧ next.startTime = last.startTime ∧
    next.origin = last.origin ∧ next.seq = last.seq + 1

variable [DecidableEq Time]

instance (last next : Flit Time) : Decidable (last.continues next) := by
  unfold Flit.continues
  infer_instance

/-- What may come next on a channel: a header when no packet is open, else the
next flit of the open packet. -/
def accepts : Option (Flit Time) → Flit Time → Bool
  | none, flit => isHeader flit.type && flit.seq == 0
  | some last, flit => !isHeader flit.type && decide (last.continues flit)

def closes (flit : Flit Time) : Bool :=
  isTail flit.type

/-- The open packet after a list of flits, if the list is framed. -/
def framing (flits : List (Flit Time)) : Option (Option (Flit Time)) :=
  progress accepts closes none flits

/-- One more flit on a channel. -/
theorem framing_snoc {flits : List (Flit Time)} {current : Option (Flit Time)}
    (before : framing flits = some current) {flit : Flit Time}
    (inPlace : accepts current flit = true) :
    framing (flits ++ [flit]) =
      some (if closes flit then none else some flit) := by
  unfold framing
  rw [progress_snoc before, advance, if_pos inPlace]

/-- The next flit of a framed channel is in place. -/
theorem accepts_of_framing {before rest : List (Flit Time)} {flit : Flit Time}
    {current last : Option (Flit Time)}
    (whole : framing (before ++ flit :: rest) = some last)
    (here : framing before = some current) :
    accepts current flit = true := by
  obtain ⟨next, step, _⟩ := advance_of_progress whole here
  exact (accepts_of_advance step).1

theorem flitType_header (e : Nat) : isHeader (flitType e 0) = true := by
  unfold flitType
  split <;> first | contradiction | (split <;> rfl)

theorem flitType_not_header {e l : Nat} (later : l ≠ 0) :
    isHeader (flitType e l) = false := by
  unfold flitType
  rw [if_neg later]
  split <;> rfl

theorem isTail_flitType {e l : Nat} (inside : l < e) :
    isTail (flitType e l) = decide (l = e - 1) := by
  unfold flitType
  split_ifs with first one last
  · subst first one
    rfl
  · subst first
    have apart : ¬ (0 = e - 1) := by omega
    simp [apart, isTail]
  · simp [last, isTail]
  · simp [last, isTail]

section Packet

variable (origin : Addr) (a : Nat) (b c : Addr) (d : Time) (e : Nat)

/-- The first `count` flits of a packet. -/
private theorem framing_take_packet :
    ∀ count, count ≤ e →
      framing ((List.range count).map (packetFlit origin a b c d e)) =
        some
          (if count = 0 ∨ count = e then none
          else some (packetFlit origin a b c d e (count - 1))) := by
  intro count
  induction count with
  | zero =>
      intro _
      rfl
  | succ count ih =>
      intro bound
      have before := ih (by omega)
      have inPlace :
          accepts
            (if count = 0 ∨ count = e then none
            else some (packetFlit origin a b c d e (count - 1)))
            (packetFlit origin a b c d e count) = true := by
        by_cases first : count = 0
        · subst first
          simp [accepts, packetFlit, flitType_header]
        · have inner : ¬ (count = 0 ∨ count = e) := by omega
          rw [if_neg inner]
          have next :
              (packetFlit origin a b c d e (count - 1)).continues
                (packetFlit origin a b c d e count) :=
            ⟨rfl, rfl, rfl, rfl, rfl,
              show count = count - 1 + 1 by omega⟩
          simp only [accepts, packetFlit, flitType_not_header first,
            Bool.not_false, Bool.true_and]
          exact decide_eq_true next
      rw [List.range_succ, List.map_append, List.map_singleton,
        framing_snoc before inPlace]
      have ending :
          closes (packetFlit origin a b c d e count) =
            decide (count = e - 1) :=
        isTail_flitType (by omega)
      rw [ending]
      by_cases last : count = e - 1
      · rw [if_pos (by omega : count + 1 = 0 ∨ count + 1 = e)]
        simp [last]
      · rw [if_neg (by omega : ¬ (count + 1 = 0 ∨ count + 1 = e))]
        simp [last]

/-- An injected packet is framed and leaves no packet open. -/
theorem framing_packetFlits :
    framing (packetFlits origin a b c d e) = some none := by
  have whole := framing_take_packet origin a b c d e e (Nat.le_refl e)
  simpa [packetFlits] using whole

end Packet

end ChipletSniper.Popnet
