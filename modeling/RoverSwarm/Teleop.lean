import Mathlib.Algebra.Order.Field.Rat
import Mathlib.Algebra.Order.Group.Abs
import Mathlib.Algebra.Order.Ring.Rat
import RoverSwarm.Lib.Transition
import RoverSwarm.Msgs

/-!
# Teleop — `rover_teleop.py`, the keyboard in front of the rovers

One iteration of the main loop reads a key, handles at most one message of `/emergency_stop`, and
then publishes for every rover: zero while stopped, and else what the ramps of the rover come to.
A stopped iteration takes every rover to rest.  From there a tick moves nothing until an arrow
starts an axis, and moves it by one ramp step at most; so what was pressed before or during the
stop is forgotten.
-/

namespace RoverSwarm.Teleop

open Transition
open scoped NNRat

/-! ### Parameters -/

/-- The motion parameters, none of them negative; the loop divides by two of them. -/
structure Cfg where
  speedInit : ℚ≥0 := 6
  turnInit : ℚ≥0 := 3
  speedMin : ℚ≥0 := 0
  speedMax : ℚ≥0 := 6
  turnMin : ℚ≥0 := 0
  turnMax : ℚ≥0 := 3
  speedStep : ℚ≥0 := 6 / 5
  releaseWindow : ℚ := 3 / 25
  linearAccel : ℚ≥0 := 1
  angularAccel : ℚ≥0 := 1
  publishPeriod : ℚ≥0 := 1 / 20
  speedStep_pos : 0 < speedStep := by decide +kernel
  publishPeriod_pos : 0 < publishPeriod := by decide +kernel

/-- The parameters of a node started without a parameter file. -/
def Cfg.defaults : Cfg := {}

/-- `dv`, the ramp step of the linear velocity. -/
def Cfg.dv (cfg : Cfg) : ℚ≥0 := cfg.linearAccel * cfg.publishPeriod

/-- `dw`, the ramp step of the turn rate. -/
def Cfg.dw (cfg : Cfg) : ℚ≥0 := cfg.angularAccel * cfg.publishPeriod

/-- `max(-bound, min(bound, x))`. -/
def clamp (bound : ℚ≥0) (x : ℚ) : ℚ := max (-(bound : ℚ)) (min (bound : ℚ) x)

theorem clamp_zero (bound : ℚ≥0) : clamp bound 0 = 0 := by
  have hbound : (0 : ℚ) ≤ bound := bound.2
  unfold clamp
  rw [min_eq_right hbound, max_eq_right (neg_nonpos.mpr hbound)]

theorem abs_clamp_le (bound : ℚ≥0) (x : ℚ) : |clamp bound x| ≤ bound := by
  have hbound : (0 : ℚ) ≤ bound := bound.2
  have hneg : -(bound : ℚ) ≤ bound := (neg_nonpos.mpr hbound).trans hbound
  exact abs_le.mpr ⟨le_max_left _ _, max_le hneg (min_le_left _ _)⟩

/-- Clamping takes nothing farther from zero. -/
theorem abs_clamp_le_abs (bound : ℚ≥0) (x : ℚ) : |clamp bound x| ≤ |x| := by
  have hbound : (0 : ℚ) ≤ bound := bound.2
  have hx := abs_nonneg x
  refine abs_le.mpr ⟨?_, ?_⟩
  · refine le_max_of_le_right (le_min ?_ (neg_abs_le x))
    exact (neg_nonpos.mpr hx).trans hbound
  · refine max_le ?_ ((min_le_right _ _).trans (le_abs_self x))
    exact (neg_nonpos.mpr hbound).trans hx

/-! ### One axis -/

/-- The members `lin_active`, `lin_dir`, `last_lin_arrow`, `target_lin`, `cur_lin` and `speed` of a
rover, or those of its turn rate. -/
structure Axis where
  active : Bool := false
  dir : ℚ := 0
  lastArrow : ℚ := 0
  target : ℚ := 0
  cur : ℚ := 0
  limit : ℚ≥0
deriving DecidableEq

namespace Axis

/-- An arrow key in direction `dir`. -/
def press (dir now : ℚ) (a : Axis) : Axis := { a with active := true, dir := dir, lastArrow := now }

/-- The hard stop of SPACE and of the e-stop. -/
def halt (a : Axis) : Axis :=
  { a with active := false, dir := 0, target := 0, cur := 0, lastArrow := 0 }

/-- The reset of `r` where no session can be restarted; the direction stays. -/
def reset (a : Axis) : Axis := { a with active := false, target := 0, cur := 0, lastArrow := 0 }

/-- `_coast_axis`. -/
def coasts (cfg : Cfg) (now : ℚ) (a : Axis) : Bool :=
  a.active && cfg.releaseWindow < now - a.lastArrow

/-- The target after the coasting has been decided. -/
def ramp (step : ℚ≥0) (a : Axis) : ℚ :=
  if a.active then clamp a.limit (a.target + step * a.dir)
  else if 0 < a.target then max 0 (a.target - step)
  else if a.target < 0 then min 0 (a.target + step)
  else a.target

/-- The velocity on its way to the target. -/
def follow (step : ℚ≥0) (a : Axis) : ℚ :=
  clamp a.limit (a.cur + clamp step (a.target - a.cur))

/-- The part of `tick` about one axis. -/
def tick (cfg : Cfg) (step : ℚ≥0) (now : ℚ) (a : Axis) : Axis :=
  let a := { a with active := a.active && !a.coasts cfg now }
  let a := { a with target := a.ramp step }
  { a with cur := a.follow step }

/-- Something is still to be done about the axis. -/
def pending (a : Axis) : Bool := a.active || a.target ≠ 0 || a.cur ≠ 0

theorem pending_eq_false {a : Axis} :
    a.pending = false ↔ a.active = false ∧ a.target = 0 ∧ a.cur = 0 := by
  simp [pending, and_assoc]

@[simp] theorem halt_pending (a : Axis) : a.halt.pending = false := rfl

@[simp] theorem reset_pending (a : Axis) : a.reset.pending = false := rfl

/-- An axis at rest stays at rest. -/
theorem tick_pending {a : Axis} (h : a.pending = false) (cfg : Cfg) (step : ℚ≥0) (now : ℚ) :
    (a.tick cfg step now).pending = false := by
  obtain ⟨hactive, htarget, hcur⟩ := pending_eq_false.mp h
  have hramp : ramp step { a with active := a.active && !a.coasts cfg now } = 0 := by
    simp [ramp, hactive, htarget]
  refine pending_eq_false.mpr ⟨?_, hramp, ?_⟩
  · show (a.active && !a.coasts cfg now) = false
    rw [hactive, Bool.false_and]
  · show clamp a.limit (a.cur + clamp step (ramp step _ - a.cur)) = 0
    rw [hramp, hcur, sub_zero, clamp_zero, add_zero, clamp_zero]

/-- From velocity zero a tick makes one ramp step at most. -/
theorem abs_tick_cur_le {a : Axis} (h : a.cur = 0) (cfg : Cfg) (step : ℚ≥0) (now : ℚ) :
    |(a.tick cfg step now).cur| ≤ step := by
  show |clamp a.limit (a.cur + clamp step (ramp step _ - a.cur))| ≤ step
  rw [h, zero_add]
  exact (abs_clamp_le_abs _ _).trans (abs_clamp_le _ _)

end Axis

/-! ### One rover -/

inductive Arrow
  | up
  | down
  | left
  | right
deriving DecidableEq, Repr

/-- `RoverState`. -/
structure RoverState where
  idle : Bool := false
  lin : Axis
  ang : Axis
deriving DecidableEq

namespace RoverState

def init (cfg : Cfg) : RoverState where
  lin := { limit := cfg.speedInit }
  ang := { limit := cfg.turnInit }

def press (now : ℚ) (r : RoverState) : Arrow → RoverState
  | .up => { r with lin := r.lin.press 1 now }
  | .down => { r with lin := r.lin.press (-1) now }
  | .left => { r with ang := r.ang.press 1 now }
  | .right => { r with ang := r.ang.press (-1) now }

def halt (r : RoverState) : RoverState := { r with lin := r.lin.halt, ang := r.ang.halt }

def reset (r : RoverState) : RoverState := { r with lin := r.lin.reset, ang := r.ang.reset }

/-- The twist with the current velocities. -/
def twist (r : RoverState) : Twist where
  linear := { x := r.lin.cur }
  angular := { z := r.ang.cur }

/-- `tick`, and what it publishes. -/
def tick (cfg : Cfg) (now : ℚ) (r : RoverState) : RoverState × Option Twist :=
  let r := if r.lin.pending || r.ang.pending then { r with idle := false } else r
  if r.idle then (r, none)
  else
    let r := { r with
      lin := r.lin.tick cfg cfg.dv now
      ang := r.ang.tick cfg cfg.dw now }
    ({ r with idle := !r.lin.pending && !r.ang.pending }, some r.twist)

/-- The rover does not move. -/
def Still (r : RoverState) : Prop := r.lin.cur = 0 ∧ r.ang.cur = 0

/-- The rover does not move and will not. -/
def AtRest (r : RoverState) : Prop := r.lin.pending = false ∧ r.ang.pending = false

theorem AtRest.still {r : RoverState} (h : r.AtRest) : r.Still :=
  ⟨(Axis.pending_eq_false.mp h.1).2.2, (Axis.pending_eq_false.mp h.2).2.2⟩

theorem halt_atRest (r : RoverState) : r.halt.AtRest := ⟨rfl, rfl⟩

theorem reset_atRest (r : RoverState) : r.reset.AtRest := ⟨rfl, rfl⟩

theorem Still.press {r : RoverState} (h : r.Still) (now : ℚ) (a : Arrow) : (r.press now a).Still := by
  cases a <;> exact h

/-- A tick keeps an axis or ticks it; what it publishes are the velocities it leaves. -/
theorem tick_cases (cfg : Cfg) (now : ℚ) (r : RoverState) :
    ((r.tick cfg now).1.lin = r.lin ∧ (r.tick cfg now).1.ang = r.ang ∧
      (r.tick cfg now).2 = none) ∨
    ((r.tick cfg now).1.lin = r.lin.tick cfg cfg.dv now ∧
      (r.tick cfg now).1.ang = r.ang.tick cfg cfg.dw now ∧
      (r.tick cfg now).2 = some (r.tick cfg now).1.twist) := by
  unfold tick
  dsimp only
  split_ifs
  · exact Or.inl ⟨rfl, rfl, rfl⟩
  · exact Or.inr ⟨rfl, rfl, rfl⟩
  · exact Or.inl ⟨rfl, rfl, rfl⟩
  · exact Or.inr ⟨rfl, rfl, rfl⟩

theorem twist_eq_zero_iff {r : RoverState} : r.twist = {} ↔ r.Still := by
  simp [twist, Still]

/-- A rover at rest stays at rest, and is told to. -/
theorem AtRest.tick {r : RoverState} (h : r.AtRest) (cfg : Cfg) (now : ℚ) :
    (r.tick cfg now).1.AtRest ∧ ∀ t ∈ (r.tick cfg now).2, t = {} := by
  have hrest : (r.tick cfg now).1.AtRest := by
    unfold AtRest
    rcases tick_cases cfg now r with ⟨hlin, hang, -⟩ | ⟨hlin, hang, -⟩
    · rw [hlin, hang]
      exact h
    · rw [hlin, hang]
      exact ⟨Axis.tick_pending h.1 _ _ _, Axis.tick_pending h.2 _ _ _⟩
  refine ⟨hrest, fun t ht => ?_⟩
  rcases tick_cases cfg now r with ⟨-, -, hout⟩ | ⟨-, -, hout⟩
  · rw [hout] at ht
    exact absurd ht (by simp)
  · rw [hout] at ht
    obtain rfl := Option.some.inj ht
    exact twist_eq_zero_iff.mpr hrest.still

/-- A rover that does not move is told one ramp step at most, and if it is told no motion it still
does not move. -/
theorem Still.tick {r : RoverState} (h : r.Still) (cfg : Cfg) (now : ℚ) :
    (∀ t ∈ (r.tick cfg now).2, |t.linear.x| ≤ cfg.dv ∧ |t.angular.z| ≤ cfg.dw) ∧
      ((∀ t ∈ (r.tick cfg now).2, t = {}) → (r.tick cfg now).1.Still) := by
  rcases tick_cases cfg now r with ⟨hlin, hang, hout⟩ | ⟨hlin, hang, hout⟩
  · rw [hout]
    refine ⟨fun t ht => absurd ht (by simp), fun _ => ?_⟩
    unfold Still
    rw [hlin, hang]
    exact h
  · rw [hout]
    refine ⟨fun t ht => ?_, fun hzero => twist_eq_zero_iff.mp (hzero _ rfl)⟩
    obtain rfl := Option.some.inj ht
    show |(r.tick cfg now).1.lin.cur| ≤ cfg.dv ∧ |(r.tick cfg now).1.ang.cur| ≤ cfg.dw
    rw [hlin, hang]
    exact ⟨Axis.abs_tick_cur_le h.1 _ _ _, Axis.abs_tick_cur_le h.2 _ _ _⟩

end RoverState

/-! ### The main loop -/

/-- What `get_key` returns, as the loop tells it apart. -/
inductive Key
  /-- The digit `idx + 1`. -/
  | digit (idx : Fin 9)
  | b
  | help
  | arrow (a : Arrow)
  | space
  | q
  | a
  | w
  | s
  | r
  | ctrlC
  | other
deriving DecidableEq, Repr

/-- What one iteration finds outside: the key, the clock, whether `restart_session` succeeds, and
the message of `/emergency_stop` that `spin_once` handles. -/
structure Input where
  key : Key := .other
  now : ℚ := 0
  restarts : Bool := false
  estop : Option Bool := none
deriving DecidableEq

/-- The variables of the loop for `n` rovers; `running` is false once the loop is left. -/
structure Loop (n : ℕ) where
  rovers : Fin n → RoverState
  activeIdx : Fin n
  broadcast : Bool := false
  stopped : Bool := false
  running : Bool := true

/-- What one iteration did: `estop_state['stopped']` after `spin_once` if it came so far, the rovers
an arrow key was for, and what was published for every rover. -/
structure Iteration (n : ℕ) where
  stopped : Bool
  arrow : Fin n → Bool
  twists : Fin n → Option Twist

namespace Loop

variable {n : ℕ} (cfg : Cfg) (s : Loop n)

/-- `targets`: all rovers, or the active one. -/
def isTarget (r : Fin n) : Bool := s.broadcast || r = s.activeIdx

def updateTargets (f : RoverState → RoverState) : Loop n :=
  { s with rovers := fun r => if s.isTarget r then f (s.rovers r) else s.rovers r }

def updateActive (f : RoverState → RoverState) : Loop n :=
  { s with rovers := Function.update s.rovers s.activeIdx (f (s.rovers s.activeIdx)) }

def setSpeed (f : ℚ≥0 → ℚ≥0) : Loop n :=
  s.updateActive fun r =>
    { r with lin := { r.lin with limit := min cfg.speedMax (max cfg.speedMin (f r.lin.limit)) } }

def setTurn (f : ℚ≥0 → ℚ≥0) : Loop n :=
  s.updateActive fun r =>
    { r with ang := { r.ang with limit := min cfg.turnMax (max cfg.turnMin (f r.ang.limit)) } }

/-- The chain of comparisons with `key`. -/
def handleKey (i : Input) : Loop n :=
  match i.key with
  | .digit idx => if h : idx < n then { s with activeIdx := ⟨idx, h⟩ } else s
  | .b => { s with broadcast := !s.broadcast }
  | .help => s
  | .arrow a => s.updateTargets fun r => r.press i.now a
  | .space => s.updateTargets RoverState.halt
  | .q => s.setSpeed cfg fun x => x * cfg.speedStep
  | .a => s.setSpeed cfg fun x => x / cfg.speedStep
  | .w => s.setTurn cfg fun x => x * cfg.speedStep
  | .s => s.setTurn cfg fun x => x / cfg.speedStep
  | .r => if i.restarts then { s with running := false } else s.updateActive RoverState.reset
  | .ctrlC => { s with running := false }
  | .other => s

/-- The rovers the key is an arrow for. -/
def arrowFor (key : Key) (r : Fin n) : Bool :=
  match key with
  | .arrow _ => s.isTarget r
  | _ => false

/-- One iteration; the last one publishes the final zeros of the `finally` block. -/
def iterate (i : Input) : Loop n × Iteration n :=
  let arrow := s.arrowFor i.key
  let s := s.handleKey cfg i
  if !s.running then (s, ⟨false, arrow, fun _ => some {}⟩)
  else
    let s := { s with stopped := i.estop.getD s.stopped }
    if s.stopped then
      ({ s with rovers := fun r => (s.rovers r).halt }, ⟨true, arrow, fun _ => some {}⟩)
    else
      ({ s with rovers := fun r => ((s.rovers r).tick cfg i.now).1 },
        ⟨false, arrow, fun r => ((s.rovers r).tick cfg i.now).2⟩)

variable {cfg s}

/-- Only the active rover can change. -/
theorem updateActive_rovers (f : RoverState → RoverState) (r : Fin n) :
    (s.updateActive f).rovers r = s.rovers r ∨
      r = s.activeIdx ∧ (s.updateActive f).rovers r = f (s.rovers r) := by
  by_cases h : r = s.activeIdx
  · subst h
    exact Or.inr ⟨rfl, Function.update_self _ _ _⟩
  · exact Or.inl (Function.update_of_ne h _ _)

/-- What a key can do to a rover: an arrow for it, SPACE and `r` act on its ramps, every other key
on its ceilings at most. -/
theorem handleKey_rover (i : Input) (r : Fin n) :
    (∃ a, i.key = .arrow a ∧ s.isTarget r = true ∧
      (s.handleKey cfg i).rovers r = (s.rovers r).press i.now a) ∨
    (i.key = .space ∧ (s.handleKey cfg i).rovers r = (s.rovers r).halt) ∨
    (i.key = .r ∧ (s.handleKey cfg i).rovers r = (s.rovers r).reset) ∨
    ∃ speed turn, (s.handleKey cfg i).rovers r = { s.rovers r with
      lin := { (s.rovers r).lin with limit := speed }
      ang := { (s.rovers r).ang with limit := turn } } := by
  have hsame : ∃ speed turn, s.rovers r = { s.rovers r with
      lin := { (s.rovers r).lin with limit := speed }
      ang := { (s.rovers r).ang with limit := turn } } := ⟨_, _, rfl⟩
  unfold handleKey
  split
  · split_ifs <;> exact Or.inr (Or.inr (Or.inr hsame))
  · exact Or.inr (Or.inr (Or.inr hsame))
  · exact Or.inr (Or.inr (Or.inr hsame))
  case h_4 a hkey =>
    unfold updateTargets
    dsimp only
    split_ifs with htarget
    · exact Or.inl ⟨a, hkey, htarget, rfl⟩
    · exact Or.inr (Or.inr (Or.inr hsame))
  case h_5 hkey =>
    unfold updateTargets
    dsimp only
    split_ifs
    · exact Or.inr (Or.inl ⟨hkey, rfl⟩)
    · exact Or.inr (Or.inr (Or.inr hsame))
  case h_10 hkey =>
    split_ifs
    · exact Or.inr (Or.inr (Or.inr hsame))
    · rcases s.updateActive_rovers RoverState.reset r with h | ⟨-, h⟩
      · exact Or.inr (Or.inr (Or.inr (h ▸ hsame)))
      · exact Or.inr (Or.inr (Or.inl ⟨hkey, h⟩))
  case h_11 => exact Or.inr (Or.inr (Or.inr hsame))
  case h_12 => exact Or.inr (Or.inr (Or.inr hsame))
  all_goals
    refine Or.inr (Or.inr (Or.inr ?_))
    rcases s.updateActive_rovers _ r with h | ⟨-, h⟩
    · exact h ▸ hsame
    · exact ⟨_, _, h⟩

theorem handleKey_still {r : Fin n} (h : (s.rovers r).Still) (i : Input) :
    ((s.handleKey cfg i).rovers r).Still := by
  rcases handleKey_rover i r with ⟨a, -, -, heq⟩ | ⟨-, heq⟩ | ⟨-, heq⟩ | ⟨_, _, heq⟩
  · exact heq ▸ h.press i.now a
  · exact heq ▸ (RoverState.halt_atRest _).still
  · exact heq ▸ (RoverState.reset_atRest _).still
  · exact heq ▸ h

theorem handleKey_atRest {r : Fin n} (h : (s.rovers r).AtRest) {i : Input}
    (harrow : s.arrowFor i.key r = false) : ((s.handleKey cfg i).rovers r).AtRest := by
  rcases handleKey_rover (s := s) i r with
    ⟨a, hkey, htarget, -⟩ | ⟨-, heq⟩ | ⟨-, heq⟩ | ⟨_, _, heq⟩
  · rw [hkey] at harrow
    exact absurd htarget (by simp [show s.isTarget r = false from harrow])
  · exact heq ▸ RoverState.halt_atRest _
  · exact heq ▸ RoverState.reset_atRest _
  · exact heq ▸ h

/-! #### One iteration -/

/-- An iteration is the last one, or stopped, or ticks the rovers. -/
theorem iterate_cases (s : Loop n) (cfg : Cfg) (i : Input) :
    (s.iterate cfg i = (s.handleKey cfg i, ⟨false, s.arrowFor i.key, fun _ => some {}⟩)) ∨
    (∃ s', s.iterate cfg i = (s', ⟨true, s.arrowFor i.key, fun _ => some {}⟩) ∧
      ∀ r, s'.rovers r = ((s.handleKey cfg i).rovers r).halt) ∨
    ∃ s', s.iterate cfg i = (s', ⟨false, s.arrowFor i.key,
        fun r => (((s.handleKey cfg i).rovers r).tick cfg i.now).2⟩) ∧
      ∀ r, s'.rovers r = (((s.handleKey cfg i).rovers r).tick cfg i.now).1 := by
  unfold iterate
  dsimp only
  split_ifs
  · exact Or.inl rfl
  · exact Or.inr (Or.inl ⟨_, rfl, fun _ => rfl⟩)
  · exact Or.inr (Or.inr ⟨_, rfl, fun _ => rfl⟩)

/-- **A stopped iteration** publishes zero for every rover and takes every rover to rest. -/
theorem iterate_stopped {i : Input} (h : (s.iterate cfg i).2.stopped = true) (r : Fin n) :
    (s.iterate cfg i).2.twists r = some {} ∧ ((s.iterate cfg i).1.rovers r).AtRest := by
  rcases iterate_cases s cfg i with heq | ⟨s', heq, hrovers⟩ | ⟨s', heq, -⟩
  · rw [heq] at h
    exact absurd h (by simp)
  · rw [heq]
    exact ⟨rfl, hrovers r ▸ RoverState.halt_atRest _⟩
  · rw [heq] at h
    exact absurd h (by simp)

/-- A rover at rest stays at rest without an arrow, and in a stopped iteration with one. -/
theorem iterate_atRest {i : Input} {r : Fin n} (h : (s.rovers r).AtRest)
    (harrow : (s.iterate cfg i).2.stopped = true ∨ (s.iterate cfg i).2.arrow r = false) :
    ((s.iterate cfg i).1.rovers r).AtRest ∧ ∀ t ∈ (s.iterate cfg i).2.twists r, t = {} := by
  rcases iterate_cases s cfg i with heq | ⟨s', heq, hrovers⟩ | ⟨s', heq, hrovers⟩
  · rw [heq] at harrow ⊢
    refine ⟨handleKey_atRest h (harrow.resolve_left (by simp)), fun t ht => ?_⟩
    exact (Option.some.inj ht).symm
  · rw [heq]
    exact ⟨hrovers r ▸ RoverState.halt_atRest _, fun t ht => (Option.some.inj ht).symm⟩
  · rw [heq] at harrow ⊢
    have hkey : ((s.handleKey cfg i).rovers r).AtRest :=
      handleKey_atRest h (harrow.resolve_left (by simp))
    obtain ⟨hrest, hzero⟩ := hkey.tick cfg i.now
    exact ⟨hrovers r ▸ hrest, hzero⟩

/-- A rover that does not move is told one ramp step at most. -/
theorem iterate_still {i : Input} {r : Fin n} (h : (s.rovers r).Still) :
    (∀ t ∈ (s.iterate cfg i).2.twists r, |t.linear.x| ≤ cfg.dv ∧ |t.angular.z| ≤ cfg.dw) ∧
      ((∀ t ∈ (s.iterate cfg i).2.twists r, t = {}) →
        ((s.iterate cfg i).1.rovers r).Still) := by
  have hzero : ∀ t ∈ some ({} : Twist), |t.linear.x| ≤ cfg.dv ∧ |t.angular.z| ≤ cfg.dw := by
    intro t ht
    obtain rfl := Option.some.inj ht
    simp
  have hkey : ((s.handleKey cfg i).rovers r).Still := handleKey_still h i
  rcases iterate_cases s cfg i with heq | ⟨s', heq, hrovers⟩ | ⟨s', heq, hrovers⟩
  · rw [heq]
    exact ⟨hzero, fun _ => hkey⟩
  · rw [heq]
    exact ⟨hzero, fun _ => hrovers r ▸ (RoverState.halt_atRest _).still⟩
  · rw [heq]
    obtain ⟨hstep, hstill⟩ := hkey.tick cfg i.now
    exact ⟨hstep, fun hsilent => hrovers r ▸ hstill hsilent⟩

end Loop

/-- The main loop for `n + 1` rovers, one iteration after the other until it is left. -/
def teleop (cfg : Cfg) (n : ℕ) : Machine (Loop (n + 1)) Input (Iteration (n + 1)) where
  init := { rovers := fun _ => .init cfg, activeIdx := 0 }
  step s i := if s.running then some (s.iterate cfg i) else none

/-! ### Runs -/

section Runs

variable {cfg : Cfg} {n : ℕ}

/-- The rover is told no motion. -/
def Silent (r : Fin (n + 1)) (tr : List (Input × Iteration (n + 1))) : Prop :=
  ∀ x ∈ tr, ∀ t ∈ x.2.twists r, t = {}

/-- No arrow for the rover is handled in an iteration that is not stopped. -/
def Untouched (r : Fin (n + 1)) (tr : List (Input × Iteration (n + 1))) : Prop :=
  ∀ x ∈ tr, x.2.stopped = true ∨ x.2.arrow r = false

/-- A rover told no motion since a stopped iteration does not move, and is at rest if it has been
left alone since. -/
def RestsSinceStop (tr : List (Input × Iteration (n + 1))) (s : Loop (n + 1)) : Prop :=
  ∀ r pre x mid, tr = pre ++ x :: mid → x.2.stopped = true → Silent r mid →
    (s.rovers r).Still ∧ (Untouched r mid → (s.rovers r).AtRest)

theorem teleop_step {s s' : Loop (n + 1)} {i : Input} {o : Iteration (n + 1)}
    (h : (teleop cfg n).step s i = some (s', o)) : s.iterate cfg i = (s', o) := by
  simp only [teleop, Option.ite_none_right_eq_some, Option.some.injEq] at h
  exact h.2

theorem eq_iterate_of_step {s s' : Loop (n + 1)} {i : Input} {o : Iteration (n + 1)}
    (h : (teleop cfg n).step s i = some (s', o)) :
    s' = (s.iterate cfg i).1 ∧ o = (s.iterate cfg i).2 := by
  rw [teleop_step h]
  exact ⟨rfl, rfl⟩

/-- **Step lemma**. -/
theorem RestsSinceStop.step {tr : List (Input × Iteration (n + 1))} {s s' : Loop (n + 1)}
    {i : Input} {o : Iteration (n + 1)} (h : RestsSinceStop tr s)
    (hs : (teleop cfg n).step s i = some (s', o)) : RestsSinceStop (tr ++ [(i, o)]) s' := by
  obtain ⟨rfl, rfl⟩ := eq_iterate_of_step hs
  intro r pre x mid htr hstopped hsilent
  -- the stopped iteration is the last one, or comes before it
  rcases List.eq_nil_or_concat' mid with rfl | ⟨mid, y, rfl⟩
  · obtain ⟨-, hx⟩ := List.append_inj' htr rfl
    obtain rfl := List.singleton_inj.mp hx
    have hrest := (Loop.iterate_stopped hstopped r).2
    exact ⟨hrest.still, fun _ => hrest⟩
  · rw [← List.cons_append, ← List.append_assoc] at htr
    obtain ⟨hpre, hy⟩ := List.append_inj' htr rfl
    obtain rfl := List.singleton_inj.mp hy
    obtain ⟨hstill, hrest⟩ := h r pre x mid hpre hstopped
      fun z hz => hsilent z (List.mem_append_left _ hz)
    have hlast : (i, (s.iterate cfg i).2) ∈ mid ++ [(i, (s.iterate cfg i).2)] :=
      List.mem_append_right _ List.mem_cons_self
    refine ⟨(Loop.iterate_still hstill).2 (hsilent _ hlast), fun huntouched => ?_⟩
    have hatRest := hrest fun z hz => huntouched z (List.mem_append_left _ hz)
    exact (Loop.iterate_atRest hatRest (huntouched _ hlast)).1

/-- **Run lemma**. -/
theorem restsSinceStop_of_reaches {tr : List (Input × Iteration (n + 1))} {s : Loop (n + 1)}
    (h : (teleop cfg n).Reaches tr s) : RestsSinceStop tr s := by
  refine h.invariant (I := RestsSinceStop) ?_ fun _ _ _ _ _ _ ih _ hs => ih.step hs
  intro r pre x mid htr
  exact absurd htr (by simp)

theorem twists_of_stopped {tr : List (Input × Iteration (n + 1))} {s : Loop (n + 1)}
    (h : (teleop cfg n).Reaches tr s) : ∀ x ∈ tr, x.2.stopped = true → ∀ r,
      x.2.twists r = some {} := by
  refine h.invariant (I := fun tr _ => ∀ x ∈ tr, x.2.stopped = true → ∀ r, x.2.twists r = some {})
    (fun _ hx => absurd hx List.not_mem_nil) fun tr s i s' o _ ih _ hs x hx hstopped r => ?_
  rcases List.mem_append.mp hx with hx | hx
  · exact ih x hx hstopped r
  · obtain rfl := List.mem_singleton.mp hx
    have heq : (s.iterate cfg i).2 = o := congrArg Prod.snd (teleop_step hs)
    subst heq
    exact (Loop.iterate_stopped hstopped r).1

/-- **Teleop obeys the emergency stop**: a stopped iteration publishes zero for every rover, and
the first motion of a rover after one comes after an arrow for it in an iteration that was not
stopped, and is one ramp step at most. -/
theorem obeys_stop {tr : List (Input × Iteration (n + 1))} {s : Loop (n + 1)}
    (h : (teleop cfg n).Reaches tr s) :
    (∀ x ∈ tr, x.2.stopped = true → ∀ r, x.2.twists r = some {}) ∧
    ∀ r pre x mid y (t : Twist), pre ++ x :: mid ++ [y] <+: tr → x.2.stopped = true → Silent r mid →
      y.2.twists r = some t → t ≠ {} →
      (∃ z ∈ mid ++ [y], z.2.stopped = false ∧ z.2.arrow r = true) ∧
        |t.linear.x| ≤ cfg.dv ∧ |t.angular.z| ≤ cfg.dw := by
  refine ⟨twists_of_stopped h, fun r pre x mid y t hp hstopped hsilent ht hne => ?_⟩
  obtain ⟨s₂, h₂⟩ := h.of_prefix hp
  obtain ⟨s₁, h₁, -, hs⟩ := h₂.last_step
  have heq : (s₁.iterate cfg y.1).2 = y.2 := congrArg Prod.snd (teleop_step hs)
  obtain ⟨hstill, hrest⟩ := restsSinceStop_of_reaches h₁ r pre x mid rfl hstopped hsilent
  rw [← heq] at ht
  refine ⟨?_, (Loop.iterate_still hstill).1 t ht⟩
  by_contra hnone
  have huntouched : Untouched r (mid ++ [y]) := by
    intro z hz
    by_contra hz'
    obtain ⟨h1, h2⟩ := not_or.mp hz'
    exact hnone ⟨z, hz, Bool.eq_false_iff.mpr h1, by simpa using h2⟩
  have hatRest := hrest fun z hz => huntouched z (List.mem_append_left _ hz)
  have hlast := huntouched y (by simp)
  rw [← heq] at hlast
  exact hne ((Loop.iterate_atRest hatRest hlast).2 t ht)

end Runs

/-- An arrow is pressed while the stop comes, nothing after the release, and an arrow again. -/
def stopReleaseArrow : List Input :=
  [{ key := .arrow .up, estop := some true }, { now := 1, estop := some false },
    { key := .arrow .up, now := 2 }]

/-- The iterations of the run: stopped, silent, and moving rover 0. -/
def movesAgain : List (Input × Iteration 2) → Bool
  | [x, m, y] => x.2.stopped && (m.2.twists 0).all (· = {}) && (y.2.twists 0).any (· ≠ {})
  | _ => false

theorem obeys_stop_again :
    ∃ tr s, ∃ x m y : Input × Iteration 2, ∃ t : Twist, (teleop {} 1).Reaches tr s ∧
      tr = [x, m, y] ∧ x.2.stopped = true ∧ y.2.twists 0 = some t ∧ t ≠ {} ∧
      |t.linear.x| ≤ ({} : Cfg).dv := by
  obtain ⟨tr, s, hr, hmoves⟩ :=
    Machine.exists_reaches_of_exec (M := teleop {} 1) stopReleaseArrow
      (p := fun r => movesAgain r.1 = true) (by decide +kernel)
  match tr, hr, hmoves with
  | [x, m, y], hr, hmoves =>
    simp only [movesAgain, Bool.and_eq_true] at hmoves
    obtain ⟨⟨hstopped, hsilent⟩, hmove⟩ := hmoves
    obtain ⟨t, ht, hne⟩ := (Option.any_eq_true _ _).mp hmove
    have hquiet : Silent 0 [m] := by
      intro z hz t' ht'
      obtain rfl := List.mem_singleton.mp hz
      rw [ht', Option.all_some, decide_eq_true_iff] at hsilent
      exact hsilent
    have hne : t ≠ {} := of_decide_eq_true hne
    obtain ⟨-, hlin, -⟩ := (obeys_stop hr).2 0 [] x [m] y t (List.prefix_refl _) hstopped hquiet ht hne
    exact ⟨_, s, x, m, y, t, hr, rfl, hstopped, ht, hne, hlin⟩

end RoverSwarm.Teleop
