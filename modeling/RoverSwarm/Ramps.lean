import Mathlib.Algebra.Order.Floor.Semiring
import Mathlib.Algebra.Order.Group.MinMax
import Mathlib.Data.List.Chain
import Mathlib.Data.Rat.Floor
import Mathlib.Order.Interval.Set.UnorderedInterval
import Mathlib.Tactic.Linarith
import RoverSwarm.Teleop

/-!
# Ramps — how the velocity of a rover follows its target

The velocity of an axis lies between zero and the target, whatever the keys have done to the
ceiling.  So an axis that is let go comes to rest when its target does, without overshooting; and
from one twist to the next the velocity changes by one ramp step, unless a ceiling has been cut by
more than that below it.
-/

namespace RoverSwarm.Teleop

open Transition
open scoped NNRat

/-! ### Clamping -/

section Clamp

variable {bound : ℚ≥0} {x : ℚ}

theorem clamp_of_le (h : bound ≤ x) : clamp bound x = bound := by
  have hbound : (0 : ℚ) ≤ bound := bound.2
  unfold clamp
  rw [min_eq_left h, max_eq_right (by linarith)]

theorem clamp_of_le_neg (h : x ≤ -bound) : clamp bound x = -bound := by
  have hbound : (0 : ℚ) ≤ bound := bound.2
  unfold clamp
  rw [min_eq_right (by linarith), max_eq_left h]

theorem clamp_of_abs_le (h : |x| ≤ bound) : clamp bound x = x := by
  obtain ⟨hlow, hhigh⟩ := abs_le.mp h
  unfold clamp
  rw [min_eq_right hhigh, max_eq_right hlow]

theorem clamp_neg (bound : ℚ≥0) (x : ℚ) : clamp bound (-x) = -clamp bound x := by
  rcases le_total (bound : ℚ) x with h | h
  · rw [clamp_of_le h, clamp_of_le_neg (neg_le_neg h)]
  · rcases le_total x (-(bound : ℚ)) with h' | h'
    · rw [clamp_of_le_neg h', clamp_of_le (by linarith), neg_neg]
    · have habs : |x| ≤ bound := abs_le.mpr ⟨h', h⟩
      rw [clamp_of_abs_le habs, clamp_of_abs_le (by rwa [abs_neg])]

/-- A clamped value lies between zero and the value. -/
theorem clamp_mem_uIcc (bound : ℚ≥0) (x : ℚ) : clamp bound x ∈ Set.uIcc 0 x := by
  have hbound : (0 : ℚ) ≤ bound := bound.2
  rcases le_total (bound : ℚ) x with h | h
  · rw [clamp_of_le h]
    exact Set.mem_uIcc.mpr (Or.inl ⟨hbound, h⟩)
  · rcases le_total x (-(bound : ℚ)) with h' | h'
    · rw [clamp_of_le_neg h']
      exact Set.mem_uIcc.mpr (Or.inr ⟨h', by linarith⟩)
    · rw [clamp_of_abs_le (abs_le.mpr ⟨h', h⟩)]
      exact Set.right_mem_uIcc

/-- Clamping changes a value by what it exceeds the bound. -/
theorem abs_clamp_sub_le {y : ℚ} {d : ℚ} (hy : |y| ≤ bound + d) (hd : |x - y| ≤ d) :
    |clamp bound x - y| ≤ d := by
  obtain ⟨hy1, hy2⟩ := abs_le.mp hy
  obtain ⟨hd1, hd2⟩ := abs_le.mp hd
  rcases le_total (bound : ℚ) x with h | h
  · rw [clamp_of_le h]
    exact abs_le.mpr ⟨by linarith, by linarith⟩
  · rcases le_total x (-(bound : ℚ)) with h' | h'
    · rw [clamp_of_le_neg h']
      exact abs_le.mpr ⟨by linarith, by linarith⟩
    · rwa [clamp_of_abs_le (abs_le.mpr ⟨h', h⟩)]

theorem mem_uIcc_neg {y : ℚ} : -x ∈ Set.uIcc 0 (-y) ↔ x ∈ Set.uIcc 0 y := by
  simp only [Set.mem_uIcc]
  constructor
  · rintro (⟨h, h'⟩ | ⟨h, h'⟩)
    · exact Or.inr ⟨by linarith, by linarith⟩
    · exact Or.inl ⟨by linarith, by linarith⟩
  · rintro (⟨h, h'⟩ | ⟨h, h'⟩)
    · exact Or.inr ⟨by linarith, by linarith⟩
    · exact Or.inl ⟨by linarith, by linarith⟩

end Clamp

/-! ### One axis -/

section Follow

variable {limit step : ℚ≥0} {cur target target' : ℚ}

/-- The velocity follows a target that has not moved away from it by more than one ramp step, or
has been cut to the ceiling. -/
theorem follow_mem_of_nonneg (hcur : 0 ≤ cur) (h : cur ≤ target' + step ∨ limit ≤ target') :
    clamp limit (cur + clamp step (target' - cur)) ∈ Set.uIcc 0 target' := by
  have hstep : (0 : ℚ) ≤ step := step.2
  have hlimit : (0 : ℚ) ≤ limit := limit.2
  rcases le_total cur target' with hle | hlt
  · -- the velocity rises, to the target at most
    have hmove := clamp_mem_uIcc step (target' - cur)
    rw [Set.uIcc_of_le (sub_nonneg.mpr hle)] at hmove
    have hclamp := clamp_mem_uIcc limit (cur + clamp step (target' - cur))
    rw [Set.uIcc_of_le (add_nonneg hcur hmove.1)] at hclamp
    exact Set.mem_uIcc.mpr (Or.inl ⟨hclamp.1, by linarith [hclamp.2, hmove.2]⟩)
  · by_cases hnear : cur ≤ target' + step
    · -- the velocity reaches the target
      have hmove : clamp step (target' - cur) = target' - cur :=
        clamp_of_abs_le (abs_le.mpr ⟨by linarith, by linarith⟩)
      rw [hmove, add_sub_cancel]
      exact clamp_mem_uIcc _ _
    · -- the velocity stays above the ceiling, and is cut to it
      have hcut := h.resolve_left hnear
      have hmove : clamp step (target' - cur) = -step := clamp_of_le_neg (by linarith)
      rw [hmove, clamp_of_le (by linarith)]
      exact Set.mem_uIcc.mpr (Or.inl ⟨hlimit, hcut⟩)

theorem follow_mem (hcur : cur ∈ Set.uIcc 0 target)
    (hlow : target - step ≤ target' ∨ limit ≤ target')
    (hhigh : target' ≤ target + step ∨ target' ≤ -limit) :
    clamp limit (cur + clamp step (target' - cur)) ∈ Set.uIcc 0 target' := by
  rcases Set.mem_uIcc.mp hcur with ⟨h0, hle⟩ | ⟨hle, h0⟩
  · refine follow_mem_of_nonneg h0 ?_
    rcases hlow with h | h
    · exact Or.inl (by linarith)
    · exact Or.inr h
  · -- the same with the signs turned
    have hneg : clamp limit (-cur + clamp step (-target' - -cur)) ∈ Set.uIcc 0 (-target') := by
      refine follow_mem_of_nonneg (neg_nonneg.mpr h0) ?_
      rcases hhigh with h | h
      · exact Or.inl (by linarith)
      · exact Or.inr (by linarith)
    rw [← neg_sub', clamp_neg, ← neg_add, clamp_neg] at hneg
    exact mem_uIcc_neg.mp hneg

end Follow

namespace Axis

/-- What the keys and the ticks keep of an axis. -/
structure Sound (a : Axis) : Prop where
  dir : |a.dir| ≤ 1
  cur : a.cur ∈ Set.uIcc 0 a.target

theorem Sound.init (limit : ℚ≥0) : Sound { limit } :=
  ⟨by simp, Set.left_mem_uIcc⟩

theorem Sound.press {a : Axis} (h : a.Sound) {dir : ℚ} (hdir : |dir| ≤ 1) (now : ℚ) :
    (a.press dir now).Sound := ⟨hdir, h.cur⟩

theorem halt_sound (a : Axis) : a.halt.Sound := ⟨by simp [halt], Set.left_mem_uIcc⟩

theorem Sound.reset {a : Axis} (h : a.Sound) : a.reset.Sound := ⟨h.dir, Set.left_mem_uIcc⟩

/-- The target of an axis that is let go moves towards zero by one ramp step. -/
theorem ramp_of_inactive {a : Axis} (hactive : a.active = false) (step : ℚ≥0) :
    a.ramp step ∈ Set.uIcc 0 a.target ∧ |a.ramp step| = max 0 (|a.target| - step) := by
  have hstep : (0 : ℚ) ≤ step := step.2
  unfold ramp
  rw [hactive, if_neg (by simp)]
  split_ifs with hpos hneg
  · rw [abs_of_pos hpos, abs_of_nonneg (le_max_left _ _)]
    exact ⟨Set.mem_uIcc.mpr (Or.inl ⟨le_max_left _ _, max_le hpos.le (by linarith)⟩), rfl⟩
  · rw [abs_of_neg hneg, abs_of_nonpos (min_le_left _ _), ← max_neg_neg, neg_zero, neg_add']
    exact ⟨Set.mem_uIcc.mpr (Or.inr ⟨le_min hneg.le (by linarith), min_le_left _ _⟩), rfl⟩
  · have htarget : a.target = 0 := le_antisymm (not_lt.mp hpos) (not_lt.mp hneg)
    rw [htarget]
    exact ⟨Set.left_mem_uIcc, by simp⟩

/-- The target moves by one ramp step at most, or is cut to the ceiling. -/
theorem ramp_bounds {a : Axis} (hdir : |a.dir| ≤ 1) (step : ℚ≥0) :
    (a.target - step ≤ a.ramp step ∨ a.limit ≤ a.ramp step) ∧
      (a.ramp step ≤ a.target + step ∨ a.ramp step ≤ -a.limit) := by
  have hstep : (0 : ℚ) ≤ step := step.2
  cases hactive : a.active with
  | true =>
    obtain ⟨hdir1, hdir2⟩ := abs_le.mp hdir
    have hlow : -(step : ℚ) ≤ step * a.dir := by
      linarith [mul_le_mul_of_nonneg_left hdir1 hstep]
    have hhigh : step * a.dir ≤ step := by
      linarith [mul_le_mul_of_nonneg_left hdir2 hstep]
    unfold ramp
    rw [hactive, if_pos rfl]
    rcases le_total (a.limit : ℚ) (a.target + step * a.dir) with h | h
    · rw [clamp_of_le h]
      exact ⟨Or.inr le_rfl, Or.inl (by linarith)⟩
    · rcases le_total (a.target + step * a.dir) (-a.limit) with h' | h'
      · rw [clamp_of_le_neg h']
        exact ⟨Or.inl (by linarith), Or.inr le_rfl⟩
      · rw [clamp_of_abs_le (abs_le.mpr ⟨h', h⟩)]
        exact ⟨Or.inl (by linarith), Or.inl (by linarith)⟩
  | false =>
    unfold ramp
    rw [hactive, if_neg (by simp)]
    split_ifs with hpos hneg
    · exact ⟨Or.inl (le_max_right _ _), Or.inl (max_le (by linarith) (by linarith))⟩
    · exact ⟨Or.inl (le_min (by linarith) (by linarith)), Or.inl (min_le_right _ _)⟩
    · exact ⟨Or.inl (by linarith), Or.inl (by linarith)⟩

/-- **Step lemma**: a tick keeps the velocity between zero and the target. -/
theorem Sound.tick {a : Axis} (h : a.Sound) (cfg : Cfg) (step : ℚ≥0) (now : ℚ) :
    (a.tick cfg step now).Sound := by
  obtain ⟨hlow, hhigh⟩ :=
    ramp_bounds (a := { a with active := a.active && !a.coasts cfg now }) h.dir step
  exact ⟨h.dir, follow_mem h.cur hlow hhigh⟩

/-! #### Coasting -/

/-- Nothing holds the axis any longer. -/
def Released (cfg : Cfg) (now : ℚ) (a : Axis) : Prop :=
  a.active = true → cfg.releaseWindow < now - a.lastArrow

/-- `a'` is what `k` ticks have made of the axis `a` since it was let go. -/
structure Coasted (step : ℚ≥0) (k : ℕ) (a a' : Axis) : Prop where
  active : a'.active = false
  target : a'.target ∈ Set.uIcc 0 a.target
  abs_target : |a'.target| = max 0 (|a.target| - k * step)

theorem Coasted.refl {a : Axis} (h : a.active = false) (step : ℚ≥0) : Coasted step 0 a a := by
  refine ⟨h, Set.right_mem_uIcc, ?_⟩
  rw [Nat.cast_zero, zero_mul, sub_zero, max_eq_right (abs_nonneg _)]

theorem Coasted.of_rest {a : Axis} (h : a.pending = false) (step : ℚ≥0) (k : ℕ) :
    Coasted step k a a := by
  obtain ⟨hactive, htarget, -⟩ := pending_eq_false.mp h
  have hk : (0 : ℚ) ≤ k * step := mul_nonneg (Nat.cast_nonneg k) step.2
  refine ⟨hactive, Set.right_mem_uIcc, ?_⟩
  rw [htarget, abs_zero, max_eq_left (by linarith)]

theorem uIcc_zero_trans {x y z : ℚ} (hxy : x ∈ Set.uIcc 0 y) (hyz : y ∈ Set.uIcc 0 z) :
    x ∈ Set.uIcc 0 z := Set.uIcc_subset_uIcc_left hyz hxy

theorem Coasted.trans {step : ℚ≥0} {j k : ℕ} {a b c : Axis} (h : Coasted step j a b)
    (h' : Coasted step k b c) : Coasted step (j + k) a c := by
  refine ⟨h'.active, uIcc_zero_trans h'.target h.target, ?_⟩
  have hk : (0 : ℚ) ≤ k * step := mul_nonneg (Nat.cast_nonneg k) step.2
  rw [h'.abs_target, h.abs_target, Nat.cast_add, add_mul, ← sub_sub]
  rcases le_total 0 (|a.target| - j * step) with hpos | hneg
  · rw [max_eq_right hpos]
  · rw [max_eq_left hneg, max_eq_left (by linarith), max_eq_left (by linarith)]

/-- A tick after the release window lets the axis go. -/
theorem Released.tick {cfg : Cfg} {now : ℚ} {a : Axis} (h : a.Released cfg now) (step : ℚ≥0) :
    Coasted step 1 a (a.tick cfg step now) := by
  have hactive : (a.active && !a.coasts cfg now) = false := by
    unfold coasts
    cases hact : a.active with
    | false => rfl
    | true => simp [h hact]
  obtain ⟨htarget, habs⟩ :=
    ramp_of_inactive (a := { a with active := a.active && !a.coasts cfg now }) hactive step
  refine ⟨hactive, htarget, ?_⟩
  rw [Nat.cast_one, one_mul]
  exact habs

theorem released_of_inactive {cfg : Cfg} {now : ℚ} {a : Axis} (h : a.active = false) :
    a.Released cfg now := fun hactive => absurd hactive (by simp [h])

/-- The number of ticks the target of an axis needs to come to zero. -/
def ticksToZero (step : ℚ≥0) (a : Axis) : ℕ := ⌈|a.target| / step⌉₊

/-- **Termination**: after that many ticks nothing is left to be done about the axis. -/
theorem Coasted.pending {step : ℚ≥0} (hstep : 0 < step) {k : ℕ} {a a' : Axis}
    (h : Coasted step k a a') (hsound : a'.Sound) (hk : a.ticksToZero step ≤ k) :
    a'.pending = false := by
  have hpos : (0 : ℚ) < step := hstep
  have hle : |a.target| ≤ k * step := (div_le_iff₀ hpos).mp (Nat.ceil_le.mp hk)
  have htarget : a'.target = 0 := by
    rw [← abs_eq_zero, h.abs_target, max_eq_left (by linarith)]
  have hcur : a'.cur = 0 := by
    have hmem := hsound.cur
    rw [htarget, Set.uIcc_self] at hmem
    exact hmem
  exact pending_eq_false.mpr ⟨h.active, htarget, hcur⟩

end Axis

/-! ### One rover -/

namespace RoverState

/-- What the keys and the ticks keep of a rover. -/
def Sound (r : RoverState) : Prop := r.lin.Sound ∧ r.ang.Sound

/-- Nothing holds the rover any longer. -/
def Released (cfg : Cfg) (now : ℚ) (r : RoverState) : Prop :=
  r.lin.Released cfg now ∧ r.ang.Released cfg now

/-- What `k` ticks have made of a rover since it was let go. -/
def Coasted (cfg : Cfg) (k : ℕ) (r r' : RoverState) : Prop :=
  Axis.Coasted cfg.dv k r.lin r'.lin ∧ Axis.Coasted cfg.dw k r.ang r'.ang

/-- The number of ticks from the release to rest. -/
def ticksToRest (cfg : Cfg) (r : RoverState) : ℕ :=
  max (r.lin.ticksToZero cfg.dv) (r.ang.ticksToZero cfg.dw)

theorem Sound.press {r : RoverState} (h : r.Sound) (now : ℚ) (a : Arrow) :
    (r.press now a).Sound := by
  cases a with
  | up => exact ⟨h.1.press (by simp) now, h.2⟩
  | down => exact ⟨h.1.press (by simp) now, h.2⟩
  | left => exact ⟨h.1, h.2.press (by simp) now⟩
  | right => exact ⟨h.1, h.2.press (by simp) now⟩

theorem Sound.tick {r : RoverState} (h : r.Sound) (cfg : Cfg) (now : ℚ) :
    (r.tick cfg now).1.Sound := by
  unfold Sound
  rcases tick_cases cfg now r with ⟨hlin, hang, -⟩ | ⟨hlin, hang, -⟩
  · rw [hlin, hang]
    exact h
  · rw [hlin, hang]
    exact ⟨h.1.tick _ _ _, h.2.tick _ _ _⟩

/-- A silent tick changes nothing, and the rover is at rest. -/
theorem tick_silent {cfg : Cfg} {now : ℚ} {r : RoverState} (h : (r.tick cfg now).2 = none) :
    (r.tick cfg now).1 = r ∧ r.AtRest := by
  unfold RoverState.tick at h ⊢
  dsimp only at h ⊢
  split_ifs at h ⊢ with hpending hidle
  · exact absurd hidle (by simp)
  · exact ⟨rfl, by simpa [AtRest] using hpending⟩

/-- A tick that leaves the rover at rest leaves it idle. -/
theorem idle_of_tick_atRest {cfg : Cfg} {now : ℚ} {r : RoverState}
    (h : (r.tick cfg now).1.AtRest) : (r.tick cfg now).1.idle = true := by
  unfold AtRest at h
  unfold RoverState.tick at h ⊢
  dsimp only at h ⊢
  split_ifs at h ⊢ with hpending hidle hidle
  · exact absurd hidle (by simp)
  · simp only [h.1, h.2]
    rfl
  · exact hidle
  · simp only [h.1, h.2]
    rfl

/-- An idle rover at rest is told nothing. -/
theorem AtRest.tick_idle {r : RoverState} (h : r.AtRest) (hidle : r.idle = true) (cfg : Cfg)
    (now : ℚ) : r.tick cfg now = (r, none) := by
  unfold RoverState.tick
  simp [h.1, h.2, hidle]

theorem Coasted.trans {cfg : Cfg} {j k : ℕ} {r₁ r₂ r₃ : RoverState} (h : Coasted cfg j r₁ r₂)
    (h' : Coasted cfg k r₂ r₃) : Coasted cfg (j + k) r₁ r₃ :=
  ⟨h.1.trans h'.1, h.2.trans h'.2⟩

/-- **One tick** after the release. -/
theorem Released.tick {cfg : Cfg} {now : ℚ} {r : RoverState} (h : r.Released cfg now) :
    Coasted cfg 1 r (r.tick cfg now).1 := by
  unfold Coasted
  rcases tick_cases cfg now r with ⟨-, -, hout⟩ | ⟨hlin, hang, -⟩
  · obtain ⟨hsame, hlin, hang⟩ := tick_silent hout
    rw [hsame]
    exact ⟨.of_rest hlin _ _, .of_rest hang _ _⟩
  · rw [hlin, hang]
    exact ⟨h.1.tick _, h.2.tick _⟩

/-- The twist moves the rover towards its targets, and no farther. -/
def Towards (r : RoverState) (t : Twist) : Prop :=
  t.linear.x ∈ Set.uIcc 0 r.lin.target ∧ t.angular.z ∈ Set.uIcc 0 r.ang.target

theorem Coasted.towards {cfg : Cfg} {k : ℕ} {r r' : RoverState} (h : Coasted cfg k r r')
    (hsound : r'.Sound) : r.Towards r'.twist :=
  ⟨Axis.uIcc_zero_trans hsound.1.cur h.1.target, Axis.uIcc_zero_trans hsound.2.cur h.2.target⟩

/-- What a tick publishes are the velocities it leaves. -/
theorem eq_twist_of_mem_tick {cfg : Cfg} {now : ℚ} {r : RoverState} {t : Twist}
    (ht : t ∈ (r.tick cfg now).2) : t = (r.tick cfg now).1.twist := by
  rcases tick_cases cfg now r with ⟨-, -, hout⟩ | ⟨-, -, hout⟩
  · rw [hout] at ht
    exact absurd ht (by simp)
  · rw [hout] at ht
    exact (Option.some.inj ht).symm

/-- What a tick publishes lies within the ceilings. -/
theorem abs_le_of_mem_tick {cfg : Cfg} {now : ℚ} {r : RoverState} {t : Twist}
    (ht : t ∈ (r.tick cfg now).2) :
    |t.linear.x| ≤ (r.tick cfg now).1.lin.limit ∧ |t.angular.z| ≤ (r.tick cfg now).1.ang.limit := by
  rcases tick_cases cfg now r with ⟨-, -, hout⟩ | ⟨hlin, hang, -⟩
  · rw [hout] at ht
    exact absurd ht (by simp)
  · rw [eq_twist_of_mem_tick ht]
    show |(r.tick cfg now).1.lin.cur| ≤ _ ∧ |(r.tick cfg now).1.ang.cur| ≤ _
    rw [hlin, hang]
    exact ⟨abs_clamp_le _ _, abs_clamp_le _ _⟩

/-- A tick leaves no rover idle that is not at rest. -/
theorem atRest_of_tick_idle {cfg : Cfg} {now : ℚ} {r : RoverState}
    (h : (r.tick cfg now).1.idle = true) : (r.tick cfg now).1.AtRest := by
  unfold AtRest
  unfold RoverState.tick at h ⊢
  dsimp only at h ⊢
  split_ifs at h ⊢ with hpending hidle
  · simpa using h
  · simpa using hpending
  · simpa using h

end RoverState

/-! ### The main loop -/

namespace Loop

variable {cfg : Cfg} {n : ℕ} {s : Loop n}

theorem handleKey_sound {r : Fin n} (h : (s.rovers r).Sound) (i : Input) :
    ((s.handleKey cfg i).rovers r).Sound := by
  rcases handleKey_rover (s := s) i r with ⟨a, -, -, heq⟩ | ⟨-, heq⟩ | ⟨-, heq⟩ | ⟨_, _, heq⟩
  · exact heq ▸ h.press i.now a
  · exact heq ▸ ⟨Axis.halt_sound _, Axis.halt_sound _⟩
  · exact heq ▸ ⟨h.1.reset, h.2.reset⟩
  · exact heq ▸ ⟨⟨h.1.dir, h.1.cur⟩, ⟨h.2.dir, h.2.cur⟩⟩

theorem handleKey_idle (i : Input) (r : Fin n) :
    ((s.handleKey cfg i).rovers r).idle = (s.rovers r).idle := by
  rcases handleKey_rover (s := s) i r with ⟨a, -, -, heq⟩ | ⟨-, heq⟩ | ⟨-, heq⟩ | ⟨_, _, heq⟩
  · rw [heq]
    cases a <;> rfl
  · rw [heq]
    rfl
  · rw [heq]
    rfl
  · rw [heq]

theorem iterate_sound {r : Fin n} (h : (s.rovers r).Sound) (i : Input) :
    ((s.iterate cfg i).1.rovers r).Sound := by
  have hkey : ((s.handleKey cfg i).rovers r).Sound := handleKey_sound h i
  rcases iterate_cases s cfg i with heq | ⟨s', heq, hrovers⟩ | ⟨s', heq, hrovers⟩
  · rw [heq]
    exact hkey
  · rw [heq]
    exact hrovers r ▸ ⟨Axis.halt_sound _, Axis.halt_sound _⟩
  · rw [heq]
    exact hrovers r ▸ hkey.tick cfg i.now

theorem handleKey_running {i : Input} (hr : i.key ≠ .r) (hctrlC : i.key ≠ .ctrlC) :
    (s.handleKey cfg i).running = s.running := by
  unfold handleKey
  split
  · split_ifs <;> rfl
  case h_10 hkey => exact absurd hkey hr
  case h_11 hkey => exact absurd hkey hctrlC
  all_goals rfl

/-- An iteration that is not stopped and does not leave the loop ticks the rovers. -/
theorem iterate_ticks {i : Input} (hrun : s.running = true) (hr : i.key ≠ .r)
    (hctrlC : i.key ≠ .ctrlC) (hstopped : (s.iterate cfg i).2.stopped = false) (r : Fin n) :
    (s.iterate cfg i).1.rovers r = (((s.handleKey cfg i).rovers r).tick cfg i.now).1 ∧
      (s.iterate cfg i).2.twists r = (((s.handleKey cfg i).rovers r).tick cfg i.now).2 := by
  have hgoing : (s.handleKey cfg i).running = true := (handleKey_running hr hctrlC).trans hrun
  unfold iterate at hstopped ⊢
  dsimp only at hstopped ⊢
  simp only [hgoing, Bool.not_true, Bool.false_eq_true, if_false] at hstopped ⊢
  split_ifs at hstopped ⊢
  exact ⟨rfl, rfl⟩

end Loop

/-! ### Runs -/

section Runs

variable {cfg : Cfg} {n : ℕ}

/-- The last twist published for the rover. -/
def lastTwist (r : Fin (n + 1)) (tr : List (Input × Iteration (n + 1))) : Option Twist :=
  lastOf (fun x => x.2.twists r) tr

theorem lastTwist_concat (r : Fin (n + 1)) (tr : List (Input × Iteration (n + 1)))
    (x : Input × Iteration (n + 1)) :
    lastTwist r (tr ++ [x]) = (x.2.twists r).or (lastTwist r tr) := lastOf_concat tr x

/-- What every run keeps of a rover. -/
structure Kept (r : Fin (n + 1)) (tr : List (Input × Iteration (n + 1))) (s : Loop (n + 1)) :
    Prop where
  sound : (s.rovers r).Sound
  idle : (s.rovers r).idle = true → lastTwist r tr = some {}

/-- **Step lemma**. -/
theorem Kept.step {r : Fin (n + 1)} {tr : List (Input × Iteration (n + 1))} {s : Loop (n + 1)}
    (h : Kept r tr s) (i : Input) :
    Kept r (tr ++ [(i, (s.iterate cfg i).2)]) (s.iterate cfg i).1 := by
  refine ⟨Loop.iterate_sound h.sound i, fun hidle => ?_⟩
  rw [lastTwist_concat]
  rcases Loop.iterate_cases s cfg i with heq | ⟨s', heq, -⟩ | ⟨s', heq, hrovers⟩
  · rw [heq, Option.some_or]
  · rw [heq, Option.some_or]
  · rw [heq] at hidle ⊢
    rw [hrovers r] at hidle
    show (((s.handleKey cfg i).rovers r).tick cfg i.now).2.or (lastTwist r tr) = some {}
    cases hout : (((s.handleKey cfg i).rovers r).tick cfg i.now).2 with
    | none =>
      -- the rover is told nothing, and was idle before
      rw [(RoverState.tick_silent hout).1, Loop.handleKey_idle] at hidle
      rw [Option.none_or]
      exact h.idle hidle
    | some t =>
      have hzero := (RoverState.atRest_of_tick_idle hidle).still
      rw [Option.some_or, RoverState.eq_twist_of_mem_tick hout]
      exact congrArg some (RoverState.twist_eq_zero_iff.mpr hzero)

/-- **Run lemma**. -/
theorem kept_of_reaches {tr : List (Input × Iteration (n + 1))} {s : Loop (n + 1)}
    (h : (teleop cfg n).Reaches tr s) (r : Fin (n + 1)) : Kept r tr s := by
  refine h.invariant (I := Kept r) ⟨⟨.init _, .init _⟩, fun hidle => Bool.noConfusion hidle⟩ ?_
  intro tr s i s' o _ ih _ hs
  obtain ⟨rfl, rfl⟩ := eq_iterate_of_step hs
  exact ih.step i

/-- No key is handled, and no iteration is stopped. -/
def Untended (tr : List (Input × Iteration (n + 1))) : Prop :=
  ∀ x ∈ tr, x.1.key = .other ∧ x.2.stopped = false

theorem running_of_step {s s' : Loop (n + 1)} {i : Input} {o : Iteration (n + 1)}
    (h : (teleop cfg n).step s i = some (s', o)) : s.running = true := by
  by_contra hrun
  simp [teleop, hrun] at h

/-- An iteration of an untended execution ticks the rovers as they are. -/
theorem teleop_step_untended {s s' : Loop (n + 1)} {i : Input} {o : Iteration (n + 1)}
    (h : (teleop cfg n).step s i = some (s', o)) (hkey : i.key = .other)
    (hstopped : o.stopped = false) (r : Fin (n + 1)) :
    s'.rovers r = ((s.rovers r).tick cfg i.now).1 ∧
      o.twists r = ((s.rovers r).tick cfg i.now).2 := by
  have hsame : s.handleKey cfg i = s := by
    unfold Loop.handleKey
    rw [hkey]
  have hrun := running_of_step h
  obtain ⟨rfl, rfl⟩ := eq_iterate_of_step h
  have hticks := Loop.iterate_ticks hrun (by simp [hkey]) (by simp [hkey]) hstopped r
  rwa [hsame] at hticks

/-- **The coast-down**: what the ticks make of a rover that was let go as `r₀`, `k` ticks ago. -/
theorem coasted_of_exec {is : List Input} {down : List (Input × Iteration (n + 1))}
    {s s' : Loop (n + 1)} (hx : (teleop cfg n).execFrom s is = some (down, s'))
    (hdown : Untended down) {r : Fin (n + 1)} {r₀ : RoverState} {k : ℕ}
    (hcoasted : RoverState.Coasted cfg k r₀ (s.rovers r)) (hsound : (s.rovers r).Sound) :
    RoverState.Coasted cfg (k + down.length) r₀ (s'.rovers r) ∧ (s'.rovers r).Sound ∧
      ∀ x ∈ down, ∀ t ∈ x.2.twists r, r₀.Towards t := by
  induction is generalizing s down k with
  | nil =>
    obtain ⟨rfl, rfl⟩ := Machine.execFrom_nil hx
    exact ⟨hcoasted, hsound, fun _ h => absurd h List.not_mem_nil⟩
  | cons i is ih =>
    obtain ⟨s₁, o, down, hs, htail, rfl⟩ := Machine.execFrom_cons hx
    obtain ⟨hi, hdown⟩ := List.forall_mem_cons.mp hdown
    obtain ⟨hrover, htwist⟩ := teleop_step_untended hs hi.1 hi.2 r
    have hreleased : (s.rovers r).Released cfg i.now :=
      ⟨Axis.released_of_inactive hcoasted.1.active, Axis.released_of_inactive hcoasted.2.active⟩
    have hsound₁ : (s₁.rovers r).Sound := hrover ▸ hsound.tick cfg i.now
    have hcoasted₁ : RoverState.Coasted cfg (k + 1) r₀ (s₁.rovers r) :=
      hcoasted.trans (hrover ▸ hreleased.tick)
    obtain ⟨hlast, hsound', htowards⟩ := ih htail hdown hcoasted₁ hsound₁
    refine ⟨?_, hsound', List.forall_mem_cons.mpr ⟨fun t ht => ?_, htowards⟩⟩
    · rw [List.length_cons, Nat.add_comm down.length 1, ← Nat.add_assoc]
      exact hlast
    · rw [htwist] at ht
      rw [RoverState.eq_twist_of_mem_tick ht, ← hrover]
      exact hcoasted₁.towards hsound₁

/-- **Silence**: an idle rover at rest is told nothing while it is left alone. -/
theorem silent_of_exec {is : List Input} {down : List (Input × Iteration (n + 1))}
    {s s' : Loop (n + 1)} (hx : (teleop cfg n).execFrom s is = some (down, s'))
    (hdown : Untended down) {r : Fin (n + 1)} (hrest : (s.rovers r).AtRest)
    (hidle : (s.rovers r).idle = true) :
    (s'.rovers r).AtRest ∧ ∀ x ∈ down, x.2.twists r = none := by
  induction is generalizing s down with
  | nil =>
    obtain ⟨rfl, rfl⟩ := Machine.execFrom_nil hx
    exact ⟨hrest, fun _ h => absurd h List.not_mem_nil⟩
  | cons i is ih =>
    obtain ⟨s₁, o, down, hs, htail, rfl⟩ := Machine.execFrom_cons hx
    obtain ⟨hi, hdown⟩ := List.forall_mem_cons.mp hdown
    obtain ⟨hrover, htwist⟩ := teleop_step_untended hs hi.1 hi.2 r
    rw [hrest.tick_idle hidle] at hrover htwist
    obtain ⟨hlast, hsilent⟩ := ih htail hdown (hrover ▸ hrest) (hrover ▸ hidle)
    exact ⟨hlast, List.forall_mem_cons.mpr ⟨htwist, hsilent⟩⟩

/-- Two velocities between zero and one target have one sign. -/
theorem mul_nonneg_of_mem_uIcc {x y z : ℚ} (hx : x ∈ Set.uIcc 0 z) (hy : y ∈ Set.uIcc 0 z) :
    0 ≤ x * y := by
  rcases Set.mem_uIcc.mp hx with ⟨hx0, hxz⟩ | ⟨hxz, hx0⟩
  · rcases Set.mem_uIcc.mp hy with ⟨hy0, -⟩ | ⟨hyz, hy0⟩
    · exact mul_nonneg hx0 hy0
    · have hx' : x = 0 := by linarith
      rw [hx', zero_mul]
  · rcases Set.mem_uIcc.mp hy with ⟨hy0, hyz⟩ | ⟨-, hy0⟩
    · have hx' : x = 0 := by linarith
      rw [hx', zero_mul]
    · exact mul_nonneg_of_nonpos_of_nonpos hx0 hy0

/-- The two twists turn neither axis around. -/
def SameSign (t t' : Twist) : Prop :=
  0 ≤ t.linear.x * t'.linear.x ∧ 0 ≤ t.angular.z * t'.angular.z

/-- From the first tick after both release windows on, the coast-down of the rover `r`. -/
structure CoastsDown (cfg : Cfg) (r : Fin (n + 1)) (tr : List (Input × Iteration (n + 1)))
    (s : Loop (n + 1)) (down : List (Input × Iteration (n + 1))) (s' : Loop (n + 1)) : Prop where
  /-- No velocity has another sign than the one the coast-down began with, or than another one. -/
  sign : ∀ x ∈ down, ∀ t ∈ x.2.twists r, SameSign (s.rovers r).twist t ∧
    ∀ y ∈ down, ∀ t' ∈ y.2.twists r, SameSign t t'
  /-- One tick after the last target has come to zero the rover is at rest and has been told so. -/
  rest : (s.rovers r).ticksToRest cfg + 1 ≤ down.length → (s'.rovers r).AtRest ∧
    lastTwist r (tr ++ down.take ((s.rovers r).ticksToRest cfg + 1)) = some {}
  silence : ∀ x ∈ down.drop ((s.rovers r).ticksToRest cfg + 1), x.2.twists r = none

/-- What the ticks make of a rover from the release on. -/
theorem coasted_of_release {is : List Input} {down : List (Input × Iteration (n + 1))}
    {s s' : Loop (n + 1)} (hx : (teleop cfg n).execFrom s is = some (down, s'))
    (hdown : Untended down) {r : Fin (n + 1)} (hsound : (s.rovers r).Sound)
    (hreleased : ∀ i ∈ is.head?, (s.rovers r).Released cfg i.now) (hne : down ≠ []) :
    RoverState.Coasted cfg down.length (s.rovers r) (s'.rovers r) ∧ (s'.rovers r).Sound ∧
      ∀ x ∈ down, ∀ t ∈ x.2.twists r, (s.rovers r).Towards t := by
  cases is with
  | nil =>
    exact absurd (Machine.execFrom_nil hx).1 hne
  | cons i is =>
    obtain ⟨s₁, o, down, hs, htail, rfl⟩ := Machine.execFrom_cons hx
    obtain ⟨hi, hdown⟩ := List.forall_mem_cons.mp hdown
    obtain ⟨hrover, htwist⟩ := teleop_step_untended hs hi.1 hi.2 r
    have hsound₁ : (s₁.rovers r).Sound := hrover ▸ hsound.tick cfg i.now
    have hcoasted : RoverState.Coasted cfg 1 (s.rovers r) (s₁.rovers r) :=
      hrover ▸ (hreleased i rfl).tick
    obtain ⟨hlast, hsound', htowards⟩ := coasted_of_exec htail hdown hcoasted hsound₁
    refine ⟨?_, hsound', List.forall_mem_cons.mpr ⟨fun t ht => ?_, htowards⟩⟩
    · rw [List.length_cons, Nat.add_comm]
      exact hlast
    · rw [htwist] at ht
      rw [RoverState.eq_twist_of_mem_tick ht, ← hrover]
      exact hcoasted.towards hsound₁

theorem idle_of_exec {is : List Input} {down : List (Input × Iteration (n + 1))}
    {s s' : Loop (n + 1)} (hx : (teleop cfg n).execFrom s is = some (down, s'))
    (hdown : Untended down) (hne : down ≠ []) {r : Fin (n + 1)} (hrest : (s'.rovers r).AtRest) :
    (s'.rovers r).idle = true := by
  induction is generalizing s down with
  | nil =>
    exact absurd (Machine.execFrom_nil hx).1 hne
  | cons i is ih =>
    obtain ⟨s₁, o, down, hs, htail, rfl⟩ := Machine.execFrom_cons hx
    obtain ⟨hi, hdown⟩ := List.forall_mem_cons.mp hdown
    cases is with
    | nil =>
      -- the last iteration is a tick
      obtain ⟨-, rfl⟩ := Machine.execFrom_nil htail
      have hrover := (teleop_step_untended hs hi.1 hi.2 r).1
      rw [hrover] at hrest ⊢
      exact RoverState.idle_of_tick_atRest hrest
    | cons j is =>
      refine ih htail hdown fun hnil => ?_
      subst hnil
      obtain ⟨_, _, _, -, -, hcons⟩ := Machine.execFrom_cons htail
      exact absurd hcons.symm (List.cons_ne_nil _ _)

theorem coastsDown_of_exec (hlin : 0 < cfg.linearAccel) (hang : 0 < cfg.angularAccel)
    {tr : List (Input × Iteration (n + 1))} {s : Loop (n + 1)} (h : (teleop cfg n).Reaches tr s)
    {r : Fin (n + 1)} {is : List Input} {down : List (Input × Iteration (n + 1))}
    {s' : Loop (n + 1)} (hx : (teleop cfg n).execFrom s is = some (down, s'))
    (hdown : Untended down) (hreleased : ∀ i ∈ is.head?, (s.rovers r).Released cfg i.now) :
    CoastsDown cfg r tr s down s' := by
  have hsound := (kept_of_reaches h r).sound
  set N := (s.rovers r).ticksToRest cfg + 1 with hN
  -- the execution of the first `N` ticks, and what comes after
  obtain ⟨s₁, hfirst, hafter⟩ := Machine.execFrom_split N hx
  have hdown₁ : Untended (down.take N) := fun x hx => hdown x (List.mem_of_mem_take hx)
  have hdown₂ : Untended (down.drop N) := fun x hx => hdown x (List.mem_of_mem_drop hx)
  have hrest₁ : N ≤ down.length → (s₁.rovers r).AtRest ∧ (s₁.rovers r).idle = true := by
    intro hlen
    have htake : (down.take N).length = N := List.length_take_of_le hlen
    have hne : down.take N ≠ [] := by
      intro hnil
      rw [hnil, List.length_nil] at htake
      omega
    have hhead : ∀ i ∈ (is.take N).head?, (s.rovers r).Released cfg i.now := by
      rw [hN, List.head?_take, if_neg (Nat.succ_ne_zero _)]
      exact hreleased
    obtain ⟨hcoasted, hsound₁, -⟩ := coasted_of_release hfirst hdown₁ hsound hhead hne
    rw [htake] at hcoasted
    have hatRest : (s₁.rovers r).AtRest := by
      refine ⟨hcoasted.1.pending (mul_pos hlin cfg.publishPeriod_pos) hsound₁.1 ?_,
        hcoasted.2.pending (mul_pos hang cfg.publishPeriod_pos) hsound₁.2 ?_⟩
      · exact (le_max_left _ _).trans (Nat.le_succ _)
      · exact (le_max_right _ _).trans (Nat.le_succ _)
    exact ⟨hatRest, idle_of_exec hfirst hdown₁ hne hatRest⟩
  refine ⟨fun x hxd t ht => ?_, fun hlen => ?_, fun x hxd => ?_⟩
  · have hne : down ≠ [] := List.ne_nil_of_mem hxd
    obtain ⟨-, -, htowards⟩ := coasted_of_release hx hdown hsound hreleased hne
    have ht₀ := htowards x hxd t ht
    refine ⟨⟨mul_nonneg_of_mem_uIcc hsound.1.cur ht₀.1,
      mul_nonneg_of_mem_uIcc hsound.2.cur ht₀.2⟩, fun y hyd t' ht' => ?_⟩
    have ht₁ := htowards y hyd t' ht'
    exact ⟨mul_nonneg_of_mem_uIcc ht₀.1 ht₁.1, mul_nonneg_of_mem_uIcc ht₀.2 ht₁.2⟩
  · obtain ⟨hatRest, hidle⟩ := hrest₁ hlen
    have hreach : (teleop cfg n).Reaches (tr ++ down.take N) s₁ :=
      h.execFrom (Machine.alwaysFrom_true _ _) hfirst
    exact ⟨(silent_of_exec hafter hdown₂ hatRest hidle).1, (kept_of_reaches hreach r).idle hidle⟩
  · have hlen : N ≤ down.length := by
      by_contra hlen
      rw [List.drop_eq_nil_of_le (not_le.mp hlen).le] at hxd
      exact absurd hxd List.not_mem_nil
    obtain ⟨hatRest, hidle⟩ := hrest₁ hlen
    exact (silent_of_exec hafter hdown₂ hatRest hidle).2 x hxd

/-- An iteration that publishes nothing for a rover leaves it at rest. -/
theorem atRest_of_silent {s s' : Loop (n + 1)} {i : Input} {o : Iteration (n + 1)}
    (h : (teleop cfg n).step s i = some (s', o)) {r : Fin (n + 1)} (hnone : o.twists r = none) :
    (s'.rovers r).AtRest := by
  obtain ⟨rfl, rfl⟩ := eq_iterate_of_step h
  rcases Loop.iterate_cases s cfg i with heq | ⟨s', heq, -⟩ | ⟨s', heq, hrovers⟩
  · rw [heq] at hnone
    exact absurd hnone (by simp)
  · rw [heq] at hnone
    exact absurd hnone (by simp)
  · rw [heq] at hnone ⊢
    obtain ⟨hsame, hrest⟩ := RoverState.tick_silent hnone
    exact (hrovers r).trans hsame ▸ hrest

/-- What an iteration publishes for a rover lies within its ceilings. -/
theorem abs_le_of_twist {s s' : Loop (n + 1)} {i : Input} {o : Iteration (n + 1)}
    (h : (teleop cfg n).step s i = some (s', o)) {r : Fin (n + 1)} {t : Twist}
    (ht : t ∈ o.twists r) :
    |t.linear.x| ≤ (s'.rovers r).lin.limit ∧ |t.angular.z| ≤ (s'.rovers r).ang.limit := by
  obtain ⟨rfl, rfl⟩ := eq_iterate_of_step h
  have hzero : ∀ l l' : ℚ≥0, |({} : Twist).linear.x| ≤ l ∧ |({} : Twist).angular.z| ≤ l' := by
    intro l l'
    show |(0 : ℚ)| ≤ l ∧ |(0 : ℚ)| ≤ l'
    rw [abs_zero]
    exact ⟨l.2, l'.2⟩
  rcases Loop.iterate_cases s cfg i with heq | ⟨s', heq, -⟩ | ⟨s', heq, hrovers⟩
  · rw [heq] at ht
    obtain rfl := Option.some.inj ht
    exact hzero _ _
  · rw [heq] at ht
    obtain rfl := Option.some.inj ht
    exact hzero _ _
  · rw [heq] at ht ⊢
    exact hrovers r ▸ RoverState.abs_le_of_mem_tick ht

/-- **The coast-down ends at rest and in silence.** -/
theorem coasts_to_rest (hlin : 0 < cfg.linearAccel) (hang : 0 < cfg.angularAccel)
    {tr : List (Input × Iteration (n + 1))} {s : Loop (n + 1)} (h : (teleop cfg n).Reaches tr s)
    (r : Fin (n + 1)) :
    (∀ i s' o, (teleop cfg n).step s i = some (s', o) → o.twists r = none → (s'.rovers r).AtRest) ∧
    (∀ i s' o, (teleop cfg n).step s i = some (s', o) → ∀ t ∈ o.twists r,
      |t.linear.x| ≤ (s'.rovers r).lin.limit ∧ |t.angular.z| ≤ (s'.rovers r).ang.limit) ∧
    ∀ is down s', (teleop cfg n).execFrom s is = some (down, s') → Untended down →
      (∀ i ∈ is.head?, (s.rovers r).Released cfg i.now) → CoastsDown cfg r tr s down s' := by
  refine ⟨fun i s' o hs hnone => ?_, fun i s' o hs t ht => ?_,
    fun is down s' hx hdown hreleased => ?_⟩
  · exact atRest_of_silent hs hnone
  · exact abs_le_of_twist hs ht
  · exact coastsDown_of_exec hlin hang h hx hdown hreleased

end Runs

/-- Two ticks after the release, one after the target has come to zero. -/
theorem coasts_to_rest_tapped :
    ∃ (tr : List (Input × Iteration 1)) (s : Loop 1) (down : List (Input × Iteration 1))
      (s' : Loop 1),
      (teleop .defaults 0).Reaches tr s ∧ (s.rovers 0).lin.cur = 1 / 20 ∧
      (teleop .defaults 0).execFrom s [{ now := 1 }, { now := 2 }] = some (down, s') ∧
      (s'.rovers 0).AtRest ∧ lastTwist 0 (tr ++ down.take 2) = some {} := by
  obtain ⟨tr, s, hr, hcur, hlin, hang, hN, hdown⟩ :=
    Machine.exists_reaches_of_exec (M := teleop .defaults 0) [{ key := .arrow .up }]
      (p := fun q => (q.2.rovers 0).lin.cur = 1 / 20 ∧ (q.2.rovers 0).lin.lastArrow = 0 ∧
        (q.2.rovers 0).ang.lastArrow = 0 ∧ (q.2.rovers 0).ticksToRest .defaults = 1 ∧
        ((teleop .defaults 0).execFrom q.2 [{ now := 1 }, { now := 2 }]).any
          (fun d => d.1.length == 2 && d.1.all fun x => x.1.key == .other && !x.2.stopped) = true)
      (by decide +kernel)
  obtain ⟨⟨down, s'⟩, hx, huntended⟩ := (Option.any_eq_true _ _).mp hdown
  simp only [Bool.and_eq_true, beq_iff_eq, List.all_eq_true, Bool.not_eq_true'] at huntended
  have hreleased : ∀ i ∈ [({ now := 1 } : Input), { now := 2 }].head?,
      (s.rovers 0).Released .defaults i.now := by
    intro i hi
    obtain rfl := Option.some.inj hi
    refine ⟨fun _ => ?_, fun _ => ?_⟩
    · rw [hlin]
      decide +kernel
    · rw [hang]
      decide +kernel
  have hcoasts := (coasts_to_rest (by decide +kernel) (by decide +kernel) hr 0).2.2 _ _ _ hx
    huntended.2 hreleased
  have hlen : (s.rovers 0).ticksToRest .defaults + 1 ≤ down.length := by
    rw [hN, huntended.1]
  obtain ⟨hrest, htwist⟩ := hcoasts.rest hlen
  rw [hN] at htwist
  exact ⟨tr, s, down, s', hr, hcur, hx, hrest, htwist⟩

/-! ### From one twist to the next -/

/-- A tick changes the velocity by one ramp step at most, unless the ceiling is farther below it. -/
theorem Axis.abs_tick_sub_le_iff {a : Axis} (cfg : Cfg) (step : ℚ≥0) (now : ℚ) :
    |(a.tick cfg step now).cur - a.cur| ≤ step ↔ |a.cur| ≤ a.limit + step := by
  have hlimit : |(a.tick cfg step now).cur| ≤ a.limit := abs_clamp_le _ _
  constructor
  · intro h
    have htri := abs_sub_abs_le_abs_sub a.cur (a.tick cfg step now).cur
    rw [abs_sub_comm] at htri
    linarith
  · intro h
    refine abs_clamp_sub_le h ?_
    rw [add_sub_cancel_left]
    exact abs_clamp_le _ _

section Feasible

variable {cfg : Cfg} {n : ℕ}

/-- The twists published for the rover, in order. -/
def published (r : Fin (n + 1)) (tr : List (Input × Iteration (n + 1))) : List Twist :=
  tr.filterMap fun x => x.2.twists r

/-- The DiffDrive can follow the second twist from the first one. -/
def Feasible (cfg : Cfg) (t t' : Twist) : Prop :=
  |t'.linear.x - t.linear.x| ≤ cfg.dv ∧ |t'.angular.z - t.angular.z| ≤ cfg.dw

/-- The rover is driven by arrows, digits, broadcast and ceiling keys only. -/
def Driving (x : Input × Iteration (n + 1)) : Prop :=
  x.1.key ≠ .space ∧ x.1.key ≠ .r ∧ x.1.key ≠ .ctrlC ∧ x.2.stopped = false

/-- The ceilings the key leaves are one ramp step below the velocities at most. -/
def CeilingAllows (cfg : Cfg) (r : Fin (n + 1)) (s : Loop (n + 1)) (i : Input) : Prop :=
  |(s.rovers r).lin.cur| ≤ ((s.handleKey cfg i).rovers r).lin.limit + cfg.dv ∧
    |(s.rovers r).ang.cur| ≤ ((s.handleKey cfg i).rovers r).ang.limit + cfg.dw

instance (cfg : Cfg) : DecidableRel (Feasible cfg) := fun _ _ =>
  inferInstanceAs (Decidable (_ ∧ _))

instance : DecidablePred (Driving (n := n)) := fun _ =>
  inferInstanceAs (Decidable (_ ∧ _))

instance (r : Fin (n + 1)) (s : Loop (n + 1)) (i : Input) : Decidable (CeilingAllows cfg r s i) :=
  inferInstanceAs (Decidable (_ ∧ _))

theorem ceilingAllows_of_still {r : Fin (n + 1)} {s : Loop (n + 1)} (h : (s.rovers r).Still)
    (i : Input) : CeilingAllows cfg r s i := by
  unfold CeilingAllows
  rw [h.1, h.2, abs_zero]
  exact ⟨add_nonneg (NNRat.coe_nonneg _) (NNRat.coe_nonneg _),
    add_nonneg (NNRat.coe_nonneg _) (NNRat.coe_nonneg _)⟩

/-- The keys of a driving iteration change no velocity. -/
theorem Loop.handleKey_driving {s : Loop (n + 1)} {i : Input} (hspace : i.key ≠ .space)
    (hr : i.key ≠ .r) (r : Fin (n + 1)) :
    ((s.handleKey cfg i).rovers r).twist = (s.rovers r).twist := by
  rcases handleKey_rover (s := s) i r with ⟨a, -, -, heq⟩ | ⟨hkey, -⟩ | ⟨hkey, -⟩ | ⟨_, _, heq⟩
  · rw [heq]
    cases a <;> rfl
  · exact absurd hkey hspace
  · exact absurd hkey hr
  · rw [heq]
    rfl

/-- **Step lemma**: a driving iteration ticks the rover after the key; the twist is feasible
exactly if the ceilings allow it. -/
theorem driving_step {s s' : Loop (n + 1)} {i : Input} {o : Iteration (n + 1)}
    (h : (teleop cfg n).step s i = some (s', o)) (hdriving : Driving (i, o)) (r : Fin (n + 1)) :
    (s'.rovers r).twist = (o.twists r).getD (s.rovers r).twist ∧
      (CeilingAllows cfg r s i ↔ ∀ t ∈ o.twists r, Feasible cfg (s.rovers r).twist t) := by
  obtain ⟨hspace, hr, hctrlC, hstopped⟩ := hdriving
  have hrun := running_of_step h
  obtain ⟨rfl, rfl⟩ := eq_iterate_of_step h
  obtain ⟨hrover, htwist⟩ := Loop.iterate_ticks hrun hr hctrlC hstopped r
  have hkey : ((s.handleKey cfg i).rovers r).twist = (s.rovers r).twist :=
    Loop.handleKey_driving hspace hr r
  have hlin : ((s.handleKey cfg i).rovers r).lin.cur = (s.rovers r).lin.cur :=
    congrArg (fun t => t.linear.x) hkey
  have hang : ((s.handleKey cfg i).rovers r).ang.cur = (s.rovers r).ang.cur :=
    congrArg (fun t => t.angular.z) hkey
  rw [hrover, htwist]
  rcases RoverState.tick_cases cfg i.now ((s.handleKey cfg i).rovers r) with
    ⟨-, -, hout⟩ | ⟨hlin', hang', hout⟩
  · -- nothing is published, and nothing moves
    obtain ⟨hsame, hrest⟩ := RoverState.tick_silent hout
    have hstill : (s.rovers r).Still :=
      ⟨hlin.symm.trans hrest.still.1, hang.symm.trans hrest.still.2⟩
    rw [hout, hsame, hkey]
    exact ⟨rfl, iff_of_true (ceilingAllows_of_still hstill i) fun t ht => absurd ht (by simp)⟩
  · rw [hout]
    refine ⟨rfl, ?_⟩
    simp only [Option.mem_def, Option.some.injEq, forall_eq']
    unfold CeilingAllows Feasible
    rw [← hkey, ← hlin, ← hang, ← Axis.abs_tick_sub_le_iff cfg cfg.dv i.now,
      ← Axis.abs_tick_sub_le_iff cfg cfg.dw i.now, ← hlin', ← hang']
    rfl

/-- In a run of driving iterations the velocities are those published last. -/
theorem lastTwist_of_driving {tr : List (Input × Iteration (n + 1))} {s : Loop (n + 1)}
    (h : (teleop cfg n).Reaches tr s) (hdriving : ∀ x ∈ tr, Driving x) (r : Fin (n + 1)) :
    (s.rovers r).twist = (lastTwist r tr).getD {} := by
  induction h with
  | init => rfl
  | @step tr s s' i o _ _ hs ih =>
    rw [List.forall_mem_append, List.forall_mem_singleton] at hdriving
    rw [(driving_step hs hdriving.2 r).1, ih hdriving.1, lastTwist_concat]
    cases o.twists r <;> rfl

/-- **Exactly when the DiffDrive can follow**: in a run of driving iterations, every twist is within
one ramp step of the one before it if and only if no ceiling key cuts a ceiling by more than one
ramp step below the velocity. -/
theorem feasible_iff {tr : List (Input × Iteration (n + 1))} {s : Loop (n + 1)}
    (h : (teleop cfg n).Reaches tr s) (hdriving : ∀ x ∈ tr, Driving x) (r : Fin (n + 1)) :
    (published r tr).IsChain (Feasible cfg) ↔ (teleop cfg n).Run (CeilingAllows cfg r) tr s := by
  induction h with
  | init => exact iff_of_true List.IsChain.nil .init
  | @step tr s s' i o hr _ hs ih =>
    rw [List.forall_mem_append, List.forall_mem_singleton] at hdriving
    have hlast := lastTwist_of_driving hr hdriving.1 r
    obtain ⟨-, hallows⟩ := driving_step hs hdriving.2 r
    rw [Machine.Run.concat_iff hr hs, ← ih hdriving.1]
    have hconcat : published r (tr ++ [(i, o)]) = published r tr ++ (o.twists r).toList := by
      rw [published, List.filterMap_append]
      cases hout : o.twists r with
      | none => simp [hout, published]
      | some t => simp [hout, published]
    rw [hconcat, List.isChain_append]
    cases hout : o.twists r with
    | none =>
      rw [hout] at hallows
      simp [hallows]
    | some t =>
      rw [hout] at hallows
      have hallows : CeilingAllows cfg r s i ↔ Feasible cfg (s.rovers r).twist t := by
        simpa using hallows
      cases hprev : lastTwist r tr with
      | none =>
        -- the first twist: the rover has not moved yet
        rw [hprev, Option.getD_none] at hlast
        have hstill := RoverState.twist_eq_zero_iff.mp hlast
        have hprev : (published r tr).getLast? = none := hprev
        rw [hprev]
        simp [ceilingAllows_of_still hstill i]
      | some t' =>
        rw [hprev, Option.getD_some] at hlast
        have hprev : (published r tr).getLast? = some t' := hprev
        rw [hallows, hlast, hprev]
        simp

end Feasible

/-- The ceiling goes from 6 m/s below half a metre per second; the rover is driven up to it, and the
ceiling is cut once more. -/
def cutWhileDriving : List Input :=
  List.replicate 15 { key := .a } ++ List.replicate 8 { key := .arrow .up } ++ [{ key := .a }]

/-- The last twist of the run is more than a ramp step below the one before it. -/
theorem feasible_iff_cut :
    ¬ ∀ tr s, (teleop .defaults 0).Reaches tr s → (∀ x ∈ tr, Driving x) →
      (tr.map fun x => x.1.now).Pairwise (· ≤ ·) →
      (published 0 tr).IsChain (Feasible .defaults) := by
  intro h
  obtain ⟨tr, s, hr, hdriving, hsorted, hnot⟩ :=
    Machine.exists_reaches_of_exec (M := teleop .defaults 0) cutWhileDriving
      (p := fun q => (∀ x ∈ q.1, Driving x) ∧ (q.1.map fun x => x.1.now).Pairwise (· ≤ ·) ∧
        ¬ (published 0 q.1).IsChain (Feasible .defaults)) (by decide +kernel)
  exact hnot (h tr s hr hdriving hsorted)

/-- A cut before the rover is driven is feasible. -/
theorem feasible_iff_early :
    ∃ tr s, (teleop .defaults 0).Reaches tr s ∧ (published 0 tr).length = 3 ∧
      (published 0 tr).IsChain (Feasible .defaults) := by
  obtain ⟨tr, s, hr, hdriving, hlen⟩ :=
    Machine.exists_run_of_exec (M := teleop .defaults 0) (C := CeilingAllows .defaults 0)
      [{ key := .a }, { key := .arrow .up }, { key := .arrow .up }]
      (p := fun q => (∀ x ∈ q.1, Driving x) ∧ (published 0 q.1).length = 3)
      (by decide +kernel) (by decide +kernel)
  exact ⟨tr, s, hr.reaches, hlen, (feasible_iff hr.reaches hdriving 0).mpr hr⟩

end RoverSwarm.Teleop
