import RoverSwarm.Ramps

/-!
# Formation — the broadcast of `rover_teleop.py`, "same twist to ALL rovers (formation drive)"

Nothing brings the rovers into step when broadcast is switched on, and the ceiling keys and `r`
change the active rover alone.  What broadcast does give: rovers in step stay in step under every
key that is for all of them, as long as their ceilings do not bind one of them and not the other.
-/

namespace RoverSwarm.Teleop

open Transition
open scoped NNRat

/-! ### Two axes in step -/

namespace Axis

/-- The two axes move alike; the direction and the time of the last arrow count while an arrow holds
them. -/
structure InStep (a b : Axis) : Prop where
  active : a.active = b.active
  target : a.target = b.target
  cur : a.cur = b.cur
  held : a.active = true → a.dir = b.dir ∧ a.lastArrow = b.lastArrow

/-- The axis as the decision whether to coast leaves it. -/
def coast (cfg : Cfg) (now : ℚ) (a : Axis) : Axis :=
  { a with active := a.active && !a.coasts cfg now }

/-- No clamp to the ceiling changes the target or the velocity, once it is decided who coasts. -/
structure Fits (step : ℚ≥0) (a : Axis) : Prop where
  target : a.active = true → |a.target + step * a.dir| ≤ a.limit
  cur : |a.cur + clamp step (a.ramp step - a.cur)| ≤ a.limit

/-- The ceilings bind both axes alike: they are equal, or bind neither in this tick. -/
def CeilingsAgree (cfg : Cfg) (step : ℚ≥0) (now : ℚ) (a b : Axis) : Prop :=
  a.limit = b.limit ∨ ((a.coast cfg now).Fits step ∧ (b.coast cfg now).Fits step)

theorem InStep.refl (a : Axis) : InStep a a := ⟨rfl, rfl, rfl, fun _ => ⟨rfl, rfl⟩⟩

theorem InStep.press {a b : Axis} (h : InStep a b) (dir now : ℚ) :
    InStep (a.press dir now) (b.press dir now) :=
  ⟨rfl, h.target, h.cur, fun _ => ⟨rfl, rfl⟩⟩

theorem InStep.symm {a b : Axis} (h : InStep a b) : InStep b a := by
  refine ⟨h.active.symm, h.target.symm, h.cur.symm, fun hactive => ?_⟩
  obtain ⟨hdir, hlast⟩ := h.held (h.active.trans hactive)
  exact ⟨hdir.symm, hlast.symm⟩

theorem InStep.trans {a b c : Axis} (h : InStep a b) (h' : InStep b c) : InStep a c := by
  refine ⟨h.active.trans h'.active, h.target.trans h'.target, h.cur.trans h'.cur, fun hactive => ?_⟩
  obtain ⟨hdir, hlast⟩ := h.held hactive
  obtain ⟨hdir', hlast'⟩ := h'.held (h.active ▸ hactive)
  exact ⟨hdir.trans hdir', hlast.trans hlast'⟩

theorem InStep.pending {a b : Axis} (h : InStep a b) : a.pending = b.pending := by
  unfold Axis.pending
  rw [h.active, h.target, h.cur]

/-- Axes in step coast alike. -/
theorem InStep.coast {a b : Axis} (h : InStep a b) (cfg : Cfg) (now : ℚ) :
    InStep (a.coast cfg now) (b.coast cfg now) := by
  refine ⟨?_, h.target, h.cur, fun hactive => h.held (Bool.and_eq_true_iff.mp hactive).1⟩
  show (a.active && !a.coasts cfg now) = (b.active && !b.coasts cfg now)
  unfold Axis.coasts
  rw [← h.active]
  cases hactive : a.active with
  | false => rfl
  | true => rw [(h.held hactive).2]

/-- A clamp that agrees on both, because the bounds are equal or bind neither. -/
theorem clamp_congr {l l' : ℚ≥0} {x : ℚ} (h : l = l' ∨ (|x| ≤ l ∧ |x| ≤ l')) :
    clamp l x = clamp l' x := by
  rcases h with rfl | ⟨hl, hl'⟩
  · rfl
  · rw [clamp_of_abs_le hl, clamp_of_abs_le hl']

theorem InStep.ramp {a b : Axis} {step : ℚ≥0} (h : InStep a b)
    (hc : a.limit = b.limit ∨ (a.Fits step ∧ b.Fits step)) : a.ramp step = b.ramp step := by
  unfold Axis.ramp
  rw [← h.active, ← h.target]
  cases hactive : a.active with
  | false => rfl
  | true =>
    rw [if_pos rfl, if_pos rfl, ← (h.held hactive).1]
    refine clamp_congr (hc.imp_right fun ⟨ha, hb⟩ => ⟨ha.target hactive, ?_⟩)
    rw [h.target, (h.held hactive).1]
    exact hb.target (h.active ▸ hactive)

/-- **Step lemma**: a tick keeps two axes in step. -/
theorem InStep.tick {a b : Axis} {cfg : Cfg} {step : ℚ≥0} {now : ℚ} (h : InStep a b)
    (hc : CeilingsAgree cfg step now a b) : InStep (a.tick cfg step now) (b.tick cfg step now) := by
  have hcoast := h.coast cfg now
  have hramp : (a.coast cfg now).ramp step = (b.coast cfg now).ramp step := hcoast.ramp hc
  refine ⟨hcoast.active, hramp, ?_, hcoast.held⟩
  show clamp a.limit (a.cur + clamp step ((a.coast cfg now).ramp step - a.cur)) =
    clamp b.limit (b.cur + clamp step ((b.coast cfg now).ramp step - b.cur))
  rw [← hramp, ← h.cur]
  refine clamp_congr (hc.imp_right fun ⟨ha, hb⟩ => ⟨ha.cur, ?_⟩)
  rw [hramp, h.cur]
  exact hb.cur

end Axis

/-! ### Two rovers in step -/

namespace RoverState

/-- The two rovers move alike, and are silent alike. -/
structure InStep (r r' : RoverState) : Prop where
  idle : r.idle = r'.idle
  lin : r.lin.InStep r'.lin
  ang : r.ang.InStep r'.ang

/-- The ceilings bind both rovers alike. -/
def CeilingsAgree (cfg : Cfg) (now : ℚ) (r r' : RoverState) : Prop :=
  r.lin.CeilingsAgree cfg cfg.dv now r'.lin ∧ r.ang.CeilingsAgree cfg cfg.dw now r'.ang

theorem InStep.refl (r : RoverState) : InStep r r := ⟨rfl, .refl _, .refl _⟩

theorem InStep.symm {r r' : RoverState} (h : InStep r r') : InStep r' r :=
  ⟨h.idle.symm, h.lin.symm, h.ang.symm⟩

theorem InStep.trans {r₁ r₂ r₃ : RoverState} (h : InStep r₁ r₂) (h' : InStep r₂ r₃) :
    InStep r₁ r₃ := ⟨h.idle.trans h'.idle, h.lin.trans h'.lin, h.ang.trans h'.ang⟩

theorem InStep.press {r r' : RoverState} (h : InStep r r') (now : ℚ) (a : Arrow) :
    InStep (r.press now a) (r'.press now a) := by
  cases a with
  | up => exact ⟨h.idle, h.lin.press _ _, h.ang⟩
  | down => exact ⟨h.idle, h.lin.press _ _, h.ang⟩
  | left => exact ⟨h.idle, h.lin, h.ang.press _ _⟩
  | right => exact ⟨h.idle, h.lin, h.ang.press _ _⟩

/-- What a tick makes of a rover that is not silent. -/
def ticked (cfg : Cfg) (now : ℚ) (r : RoverState) : RoverState :=
  let lin := r.lin.tick cfg cfg.dv now
  let ang := r.ang.tick cfg cfg.dw now
  { idle := !lin.pending && !ang.pending, lin, ang }

theorem tick_eq_ticked {r : RoverState} (h : ¬ (r.AtRest ∧ r.idle = true)) (cfg : Cfg) (now : ℚ) :
    r.tick cfg now = (r.ticked cfg now, some (r.ticked cfg now).twist) := by
  unfold RoverState.tick
  dsimp only
  split_ifs with hpending hidle hidle
  · exact absurd hidle (by simp)
  · rfl
  · exact absurd ⟨by simpa [AtRest] using hpending, hidle⟩ h
  · rfl

/-- **Step lemma**: a tick keeps two rovers in step and tells them the same. -/
theorem InStep.tick {r r' : RoverState} {cfg : Cfg} {now : ℚ} (h : InStep r r')
    (hc : CeilingsAgree cfg now r r') :
    InStep (r.tick cfg now).1 (r'.tick cfg now).1 ∧ (r.tick cfg now).2 = (r'.tick cfg now).2 := by
  have hsilent : (r.AtRest ∧ r.idle = true) ↔ (r'.AtRest ∧ r'.idle = true) := by
    unfold AtRest
    rw [h.lin.pending, h.ang.pending, h.idle]
  by_cases hrest : r.AtRest ∧ r.idle = true
  · have hrest' := hsilent.mp hrest
    rw [hrest.1.tick_idle hrest.2, hrest'.1.tick_idle hrest'.2]
    exact ⟨h, rfl⟩
  · rw [tick_eq_ticked hrest, tick_eq_ticked (fun hrest' => hrest (hsilent.mpr hrest'))]
    have hlin := h.lin.tick hc.1
    have hang := h.ang.tick hc.2
    refine ⟨⟨?_, hlin, hang⟩, ?_⟩
    · show (!(r.lin.tick cfg cfg.dv now).pending && !(r.ang.tick cfg cfg.dw now).pending) =
        (!(r'.lin.tick cfg cfg.dv now).pending && !(r'.ang.tick cfg cfg.dw now).pending)
      rw [hlin.pending, hang.pending]
    · exact congrArg₂ (fun x z => some ({ linear := { x }, angular := { z } } : Twist))
        hlin.cur hang.cur

end RoverState

/-! ### The fleet -/

variable {cfg : Cfg} {n : ℕ}

namespace Loop

variable {s : Loop n}

end Loop

/-! ### Runs -/

end RoverSwarm.Teleop
