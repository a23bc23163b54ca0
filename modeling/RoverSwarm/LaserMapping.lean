import Mathlib.Data.List.Chain
import Mathlib.Tactic.Linarith
import RoverSwarm.Lib.Transition
import RoverSwarm.IkdTree.Runs

/-!
# LaserMapping — the part of the map that FAST-LIO keeps

`lasermap_fov_segment` keeps a box around the sensor.  When the sensor comes near one of its faces
the box is moved away from that face, and the points it leaves behind are deleted from the tree.

The corners of the box are floats and the positions of the sensor doubles, so every move rounds the
corners once more.  What is left behind is bounded by the very corners of the new box all the same.
-/

namespace RoverSwarm.LaserMapping

open IkdTree Transition

structure Config where
  /-- `cube_len` -/
  cubeLen : ℚ
  /-- `DET_RANGE` -/
  detRange : ℚ

/-- `MOV_THRESHOLD` -/
def movThreshold : ℚ := 3 / 2

/-- `0.9`, as a double. -/
def ninetyPercent : ℚ := 8106479329266893 / 2 ^ 53

variable (P : Type) [PointType P]

namespace Config

variable (cfg : Config)

/-- The distance to a face at which the box is moved. -/
def edge : ℚ := fl P (movThreshold * cfg.detRange)

/-- `mov_dist` -/
def movDist : ℚ :=
  fl P (max
    (dbl P
      (dbl P (dbl P (cfg.cubeLen - dbl P (dbl P (2 * movThreshold) * cfg.detRange)) * (1 / 2)) *
        ninetyPercent))
    (fl P (cfg.detRange * fl P (movThreshold - 1))))

end Config

/-- What happens to the box along one axis. -/
inductive Move
  | back
  | forth
  | stay
deriving DecidableEq

structure Segment where
  localMapPoints : BoxPointType
  /-- `cub_needrm` -/
  cubNeedrm : List BoxPointType

section Definitions

variable (cfg : Config) (old : BoxPointType) (pos : Fin 3 → ℚ)

/-- `dist_to_map_edge` -/
def distToMapEdge (x vertex : ℚ) : ℚ := fl P |dbl P (x - vertex)|

def move (i : Fin 3) : Move :=
  if distToMapEdge P (pos i) (old.vertexMin i) ≤ cfg.edge P then .back
  else if distToMapEdge P (pos i) (old.vertexMax i) ≤ cfg.edge P then .forth
  else .stay

/-- What becomes of the coordinate of a corner. -/
def Move.shift : Move → ℚ → ℚ
  | .back, vertex => fl P (vertex - cfg.movDist P)
  | .forth, vertex => fl P (vertex + cfg.movDist P)
  | .stay, vertex => vertex

/-- `tmp_boxpoints`: the part of the box that is left behind along an axis. -/
def leftBehind (i : Fin 3) : BoxPointType :=
  match move P cfg old pos i with
  | .back =>
    { old with
      vertexMin := Function.update old.vertexMin i (fl P (old.vertexMax i - cfg.movDist P)) }
  | .forth =>
    { old with
      vertexMax := Function.update old.vertexMax i (fl P (old.vertexMin i + cfg.movDist P)) }
  | .stay => old

def moveAxis (seg : Segment) (i : Fin 3) : Segment :=
  if move P cfg old pos i = .stay then seg
  else
    let shift := (move P cfg old pos i).shift P cfg
    { localMapPoints :=
        { vertexMin :=
            Function.update seg.localMapPoints.vertexMin i
              (shift (seg.localMapPoints.vertexMin i))
          vertexMax :=
            Function.update seg.localMapPoints.vertexMax i
              (shift (seg.localMapPoints.vertexMax i)) }
      cubNeedrm := seg.cubNeedrm ++ [leftBehind P cfg old pos i] }

/-- The box around the first position. -/
def initialBox : BoxPointType where
  vertexMin i := fl P (dbl P (pos i - dbl P (cfg.cubeLen / 2)))
  vertexMax i := fl P (dbl P (pos i + dbl P (cfg.cubeLen / 2)))

/-- `lasermap_fov_segment` up to the deletion of `cub_needrm`. -/
def lasermapFovSegment (localMap : Option BoxPointType) : Segment :=
  match localMap with
  | none => ⟨initialBox P cfg pos, []⟩
  | some old =>
    if (List.finRange 3).any fun i => move P cfg old pos i ≠ .stay then
      (List.finRange 3).foldl (moveAxis P cfg old pos) ⟨old, []⟩
    else ⟨old, []⟩

end Definitions

/-- The box, fed with the positions of the sensor. -/
def localMap (cfg : Config) :
    Process (Option BoxPointType) (Fin 3 → ℚ) (List BoxPointType) where
  init := none
  step s pos :=
    (some (lasermapFovSegment P cfg pos s).localMapPoints,
      (lasermapFovSegment P cfg pos s).cubNeedrm)

/-! ### One move -/

variable {P}

section Move

variable {cfg : Config} {old : BoxPointType} {pos : Fin 3 → ℚ}

variable (P) in
/-- The box after the move. -/
def moved (cfg : Config) (old : BoxPointType) (pos : Fin 3 → ℚ) : BoxPointType where
  vertexMin i := (move P cfg old pos i).shift P cfg (old.vertexMin i)
  vertexMax i := (move P cfg old pos i).shift P cfg (old.vertexMax i)

variable (P) in
/-- What one round of the loop over the axes does. -/
theorem moveAxis_spec (cfg : Config) (old : BoxPointType) (pos : Fin 3 → ℚ) (seg : Segment)
    (i : Fin 3) :
    (∀ j, (moveAxis P cfg old pos seg i).localMapPoints.vertexMin j =
        if j = i then (move P cfg old pos i).shift P cfg (seg.localMapPoints.vertexMin j)
        else seg.localMapPoints.vertexMin j) ∧
      (∀ j, (moveAxis P cfg old pos seg i).localMapPoints.vertexMax j =
        if j = i then (move P cfg old pos i).shift P cfg (seg.localMapPoints.vertexMax j)
        else seg.localMapPoints.vertexMax j) ∧
      ∀ box, box ∈ (moveAxis P cfg old pos seg i).cubNeedrm ↔
        box ∈ seg.cubNeedrm ∨
          (move P cfg old pos i ≠ .stay ∧ box = leftBehind P cfg old pos i) := by
  unfold moveAxis
  by_cases hstay : move P cfg old pos i = .stay
  · rw [if_pos hstay, hstay]
    exact ⟨fun j => (ite_self _).symm, fun j => (ite_self _).symm, fun box => by simp⟩
  · rw [if_neg hstay]
    refine ⟨fun j => ?_, fun j => ?_, fun box => by simp [hstay]⟩
    · by_cases hj : j = i
      · subst hj
        simp
      · simp [hj]
    · by_cases hj : j = i
      · subst hj
        simp
      · simp [hj]

variable (P) in
theorem foldl_moveAxis (cfg : Config) (old : BoxPointType) (pos : Fin 3 → ℚ) {axes : List (Fin 3)}
    (hnodup : axes.Nodup) (seg : Segment) :
    (∀ j, (axes.foldl (moveAxis P cfg old pos) seg).localMapPoints.vertexMin j =
        if j ∈ axes then (move P cfg old pos j).shift P cfg (seg.localMapPoints.vertexMin j)
        else seg.localMapPoints.vertexMin j) ∧
      (∀ j, (axes.foldl (moveAxis P cfg old pos) seg).localMapPoints.vertexMax j =
        if j ∈ axes then (move P cfg old pos j).shift P cfg (seg.localMapPoints.vertexMax j)
        else seg.localMapPoints.vertexMax j) ∧
      ∀ box, box ∈ (axes.foldl (moveAxis P cfg old pos) seg).cubNeedrm ↔
        box ∈ seg.cubNeedrm ∨
          ∃ i ∈ axes, move P cfg old pos i ≠ .stay ∧ box = leftBehind P cfg old pos i := by
  induction axes generalizing seg with
  | nil => simp
  | cons i axes ih =>
    obtain ⟨hnot, hnodup⟩ := List.nodup_cons.mp hnodup
    obtain ⟨hmin, hmax, hcub⟩ := ih hnodup (moveAxis P cfg old pos seg i)
    obtain ⟨hmin', hmax', hcub'⟩ := moveAxis_spec P cfg old pos seg i
    refine ⟨fun j => ?_, fun j => ?_, fun box => ?_⟩
    · rw [List.foldl_cons, hmin, hmin']
      by_cases hj : j = i
      · subst hj
        simp [hnot]
      · simp [hj]
    · rw [List.foldl_cons, hmax, hmax']
      by_cases hj : j = i
      · subst hj
        simp [hnot]
      · simp [hj]
    · rw [List.foldl_cons, hcub, hcub', List.exists_mem_cons_iff, or_assoc]

variable (P) in
/-- One call: the box is moved along every axis, and what is left behind is to be deleted. -/
theorem lasermapFovSegment_some (cfg : Config) (old : BoxPointType) (pos : Fin 3 → ℚ) :
    (lasermapFovSegment P cfg pos (some old)).localMapPoints = moved P cfg old pos ∧
      ∀ box, box ∈ (lasermapFovSegment P cfg pos (some old)).cubNeedrm ↔
        ∃ i, move P cfg old pos i ≠ .stay ∧ box = leftBehind P cfg old pos i := by
  unfold lasermapFovSegment
  dsimp only
  split_ifs with hmove
  · obtain ⟨hmin, hmax, hcub⟩ := foldl_moveAxis P cfg old pos (List.nodup_finRange 3) ⟨old, []⟩
    refine ⟨?_, fun box => ?_⟩
    · generalize (List.finRange 3).foldl (moveAxis P cfg old pos) ⟨old, []⟩ = seg at hmin hmax ⊢
      have hext : seg.localMapPoints =
          ⟨seg.localMapPoints.vertexMin, seg.localMapPoints.vertexMax⟩ := rfl
      rw [hext, funext hmin, funext hmax]
      simp only [List.mem_finRange, if_true]
      rfl
    · rw [hcub]
      simp
  · have hstay : ∀ i, move P cfg old pos i = .stay := by
      intro i
      by_contra hne
      exact hmove (List.any_eq_true.mpr ⟨i, List.mem_finRange i, decide_eq_true hne⟩)
    refine ⟨?_, fun box => by simp [hstay]⟩
    simp [moved, hstay, Move.shift]

/-! ### What is left behind -/

theorem contains_iff (box : BoxPointType) (p : P) :
    box.contains p = true ↔ ∀ i, box.vertexMin i ≤ xyz p i ∧ xyz p i < box.vertexMax i :=
  decide_eq_true_iff

/-- Two boxes that differ along one axis only. -/
theorem contains_of_axis {box box' : BoxPointType} {i : Fin 3} {p : P} {q : Prop}
    (hoff : ∀ j, j ≠ i → box'.vertexMin j = box.vertexMin j ∧ box'.vertexMax j = box.vertexMax j)
    (hat : (box'.vertexMin i ≤ xyz p i ∧ xyz p i < box'.vertexMax i) ↔
      (box.vertexMin i ≤ xyz p i ∧ xyz p i < box.vertexMax i) ∧ q) :
    box'.contains p = true ↔ box.contains p = true ∧ q := by
  rw [contains_iff, contains_iff]
  constructor
  · intro hp
    obtain ⟨hself, hq⟩ := hat.mp (hp i)
    refine ⟨fun j => ?_, hq⟩
    by_cases heq : j = i
    · rwa [heq]
    · rw [← (hoff j heq).1, ← (hoff j heq).2]
      exact hp j
  · rintro ⟨hp, hq⟩ j
    by_cases heq : j = i
    · rw [heq]
      exact hat.mpr ⟨hp i, hq⟩
    · rw [(hoff j heq).1, (hoff j heq).2]
      exact hp j

variable (P) in
/-- A move takes no corner past the opposite one, and every corner to the side it is moved to. -/
structure Overlaps (cfg : Config) (box : BoxPointType) : Prop where
  back_min : ∀ i, fl P (box.vertexMin i - cfg.movDist P) ≤ box.vertexMin i
  back_max : ∀ i, box.vertexMin i ≤ fl P (box.vertexMax i - cfg.movDist P)
  forth_min : ∀ i, fl P (box.vertexMin i + cfg.movDist P) ≤ box.vertexMax i
  forth_max : ∀ i, box.vertexMax i ≤ fl P (box.vertexMax i + cfg.movDist P)

/-- What is left behind along an axis is what the box held and no longer reaches there. -/
theorem contains_leftBehind (h : Overlaps P cfg old) {i : Fin 3}
    (hmove : move P cfg old pos i ≠ .stay) (p : P) :
    (leftBehind P cfg old pos i).contains p = true ↔ old.contains p = true ∧
      ¬((moved P cfg old pos).vertexMin i ≤ xyz p i ∧
        xyz p i < (moved P cfg old pos).vertexMax i) := by
  cases hm : move P cfg old pos i with
  | stay => exact absurd hm hmove
  | back =>
    have hmin := h.back_min i
    have hmax := h.back_max i
    simp only [leftBehind, moved, hm, Move.shift]
    refine contains_of_axis (fun j hj => ⟨Function.update_of_ne hj _ _, rfl⟩) ?_
    simp only [Function.update_self]
    constructor
    · rintro ⟨hlo, hhi⟩
      exact ⟨⟨hmax.trans hlo, hhi⟩, fun hnew => absurd hnew.2 (not_lt.mpr hlo)⟩
    · rintro ⟨⟨hlo, hhi⟩, hnew⟩
      exact ⟨not_lt.mp fun hlt => hnew ⟨hmin.trans hlo, hlt⟩, hhi⟩
  | forth =>
    have hmin := h.forth_min i
    have hmax := h.forth_max i
    simp only [leftBehind, moved, hm, Move.shift]
    refine contains_of_axis (fun j hj => ⟨rfl, Function.update_of_ne hj _ _⟩) ?_
    simp only [Function.update_self]
    constructor
    · rintro ⟨hlo, hhi⟩
      exact ⟨⟨hlo, hhi.trans_le hmin⟩, fun hnew => absurd hnew.1 (not_le.mpr hhi)⟩
    · rintro ⟨⟨hlo, hhi⟩, hnew⟩
      exact ⟨hlo, not_le.mp fun hle => hnew ⟨hle, hhi.trans_le hmax⟩⟩

/-- **What is deleted** is what was in the box and is no longer. -/
theorem cubNeedrm_iff (pos : Fin 3 → ℚ) (h : Overlaps P cfg old) (p : P) :
    (∃ box ∈ (lasermapFovSegment P cfg pos (some old)).cubNeedrm, box.contains p = true) ↔
      old.contains p = true ∧ (moved P cfg old pos).contains p = false := by
  obtain ⟨-, hcub⟩ := lasermapFovSegment_some P cfg old pos
  rw [← Bool.not_eq_true, contains_iff (moved P cfg old pos)]
  push Not
  constructor
  · rintro ⟨box, hbox, hp⟩
    obtain ⟨i, hmove, rfl⟩ := (hcub box).mp hbox
    obtain ⟨hold, hnew⟩ := (contains_leftBehind h hmove p).mp hp
    exact ⟨hold, i, fun hmin => not_lt.mp fun hmax => hnew ⟨hmin, hmax⟩⟩
  · rintro ⟨hold, i, hi⟩
    have hnew : ¬((moved P cfg old pos).vertexMin i ≤ xyz p i ∧
        xyz p i < (moved P cfg old pos).vertexMax i) :=
      fun hand => absurd (hi hand.1) (not_le.mpr hand.2)
    have hmove : move P cfg old pos i ≠ .stay := by
      intro hstay
      have hp := (contains_iff old p).mp hold i
      refine hnew ?_
      simp only [moved, hstay, Move.shift]
      exact hp
    exact ⟨_, (hcub _).mpr ⟨i, hmove, rfl⟩, (contains_leftBehind h hmove p).mpr ⟨hold, hnew⟩⟩

end Move

/-! ### How far rounding takes the box off -/

variable (P) in
/-- The box is wide enough for the range of the sensor, also after `moves` moves, if every rounding
changes a value by `ε` at most. -/
structure Config.Wide (cfg : Config) (ε : ℚ) (moves : ℕ) : Prop where
  pos : 0 < cfg.detRange
  eps : 0 ≤ ε
  movDist : cfg.detRange / 2 + ε ≤ cfg.movDist P
  edge : cfg.detRange / 2 + 2 * ε ≤ cfg.edge P
  wide : cfg.edge P + cfg.movDist P + cfg.detRange + (9 + 2 * moves) * ε ≤ cfg.cubeLen

theorem Config.Wide.mono {cfg : Config} {ε : ℚ} {moves moves' : ℕ} (h : cfg.Wide P ε moves')
    (hle : moves ≤ moves') : cfg.Wide P ε moves := by
  refine ⟨h.pos, h.eps, h.movDist, h.edge, le_trans ?_ h.wide⟩
  have hcast : (moves : ℚ) ≤ moves' := Nat.cast_le.mpr hle
  have hmul := mul_le_mul_of_nonneg_right hcast h.eps
  linarith

variable (P) in
/-- Rounding changes values like those of positions within `range`, and of corners around them, by
`ε` at most. -/
structure Precise (cfg : Config) (range ε : ℚ) : Prop where
  fl : (fl P).Within (range + 3 * cfg.cubeLen) ε
  dbl : (dbl P).Within (range + 3 * cfg.cubeLen) ε

/-- The box is a cube of the side `cube_len`, up to the rounding of `moves` moves. -/
def Cube (cfg : Config) (ε : ℚ) (moves : ℕ) (box : BoxPointType) : Prop :=
  ∀ i, |box.vertexMax i - box.vertexMin i - cfg.cubeLen| ≤ (6 + 2 * moves) * ε

/-- The sensor is inside the box, half its range away from the faces. -/
def Around (cfg : Config) (box : BoxPointType) (pos : Fin 3 → ℚ) : Prop :=
  ∀ i, box.vertexMin i + cfg.detRange / 2 ≤ pos i ∧ pos i ≤ box.vertexMax i - cfg.detRange / 2

/-- The sensor goes half its range at most between two scans. -/
def Slow (cfg : Config) (pos pos' : Fin 3 → ℚ) : Prop := ∀ i, |pos' i - pos i| ≤ cfg.detRange / 2

section Step

variable {cfg : Config} {old : BoxPointType} {pos pos' : Fin 3 → ℚ} {range ε x v : ℚ} {moves : ℕ}

/-- The distance to a face, as it is computed. -/
theorem distToMapEdge_error (hdbl : (dbl P).Within range ε) (hfl : (fl P).Within range ε)
    (hx : |x - v| + ε ≤ range) (heps : 0 ≤ ε) : |distToMapEdge P x v - (|x - v|)| ≤ 2 * ε := by
  have hinner := hdbl (x - v) (by linarith)
  have habs := (abs_abs_sub_abs_le_abs_sub (dbl P (x - v)) (x - v)).trans hinner
  have hle := abs_le.mp habs
  have houter := abs_le.mp (hfl |dbl P (x - v)| (by rw [abs_abs]; linarith))
  unfold distToMapEdge
  exact abs_le.mpr ⟨by linarith, by linarith⟩

/-- What is known of an axis when the sensor has come to a new position inside the box. -/
structure Inside (cfg : Config) (range ε : ℚ) (moves : ℕ) (lo hi x : ℚ) : Prop where
  le_side : cfg.cubeLen - (6 + 2 * moves) * ε ≤ hi - lo
  side_le : hi - lo ≤ cfg.cubeLen + (6 + 2 * moves) * ε
  lo_le : lo ≤ x
  le_hi : x ≤ hi
  range_le : -range ≤ x
  le_range : x ≤ range

theorem Around.inside (hcube : Cube cfg ε moves old) (h : Around cfg old pos)
    (hslow : Slow cfg pos pos') (hrange : ∀ i, |pos' i| ≤ range) (i : Fin 3) :
    Inside cfg range ε moves (old.vertexMin i) (old.vertexMax i) (pos' i) := by
  have hi := h i
  have hside := abs_le.mp (hcube i)
  have hstep := abs_le.mp (hslow i)
  have hpos := abs_le.mp (hrange i)
  exact ⟨by linarith, by linarith, by linarith, by linarith, hpos.1, hpos.2⟩

variable {lo hi : ℚ}

/-- The box with its rounding is not twice as wide as it should be. -/
theorem Inside.small (hwide : cfg.Wide P ε moves) (h : Inside cfg range ε moves lo hi x) :
    hi - lo + 3 * ε + cfg.movDist P + cfg.edge P ≤ 2 * cfg.cubeLen := by
  have hle := h.side_le
  have hw := hwide.wide
  have hpos := hwide.pos
  linarith

/-- The cases of a move along one axis, for a sensor that is inside the box. -/
theorem move_cases (hwide : cfg.Wide P ε moves) (hprecise : Precise P cfg range ε) {i : Fin 3}
    (h : Inside cfg range ε moves (old.vertexMin i) (old.vertexMax i) (pos i)) :
    (move P cfg old pos i = .back ∧ pos i ≤ old.vertexMin i + cfg.edge P + 2 * ε) ∨
      (move P cfg old pos i = .forth ∧ old.vertexMin i + cfg.edge P - 2 * ε ≤ pos i ∧
        old.vertexMax i - cfg.edge P - 2 * ε ≤ pos i) ∨
      (move P cfg old pos i = .stay ∧ old.vertexMin i + cfg.edge P - 2 * ε ≤ pos i ∧
        pos i ≤ old.vertexMax i - cfg.edge P + 2 * ε) := by
  have hsmall := h.small hwide
  have hlo := h.lo_le
  have hhi := h.le_hi
  have hrange := h.range_le.trans h.le_range
  have heps := hwide.eps
  have hdist := hwide.movDist
  have hedge := hwide.edge
  have hpos := hwide.pos
  have habsmin : |pos i - old.vertexMin i| = pos i - old.vertexMin i := abs_of_nonneg (by linarith)
  have habsmax : |pos i - old.vertexMax i| = old.vertexMax i - pos i := by
    rw [abs_of_nonpos (by linarith)]
    ring
  have hmin := distToMapEdge_error hprecise.dbl hprecise.fl
    (x := pos i) (v := old.vertexMin i) (by rw [habsmin]; linarith) heps
  have hmax := distToMapEdge_error hprecise.dbl hprecise.fl
    (x := pos i) (v := old.vertexMax i) (by rw [habsmax]; linarith) heps
  rw [habsmin] at hmin
  rw [habsmax] at hmax
  obtain ⟨hmin₁, hmin₂⟩ := abs_le.mp hmin
  obtain ⟨hmax₁, hmax₂⟩ := abs_le.mp hmax
  unfold move
  split_ifs with hback hforth
  · exact Or.inl ⟨rfl, by linarith⟩
  · exact Or.inr (Or.inl ⟨rfl, by linarith, by linarith⟩)
  · exact Or.inr (Or.inr ⟨rfl, by linarith, by linarith⟩)

/-- A corner that is moved, as it is computed. -/
theorem shift_error (hwide : cfg.Wide P ε moves) (hprecise : Precise P cfg range ε)
    (h : Inside cfg range ε moves lo hi x) (hv : lo ≤ v ∧ v ≤ hi) :
    |fl P (v - cfg.movDist P) - (v - cfg.movDist P)| ≤ ε ∧
      |fl P (v + cfg.movDist P) - (v + cfg.movDist P)| ≤ ε := by
  have hsmall := h.small hwide
  have hlo := h.lo_le
  have hhi := h.le_hi
  have hrange := h.range_le
  have hrange' := h.le_range
  have heps := hwide.eps
  have hdist := hwide.movDist
  have hedge := hwide.edge
  have hpos := hwide.pos
  obtain ⟨hv₁, hv₂⟩ := hv
  exact ⟨hprecise.fl _ (abs_le.mpr ⟨by linarith, by linarith⟩),
    hprecise.fl _ (abs_le.mpr ⟨by linarith, by linarith⟩)⟩

/-- The corners of an axis after a move, as they are computed. -/
theorem Inside.errors (hwide : cfg.Wide P ε moves) (hprecise : Precise P cfg range ε)
    (h : Inside cfg range ε moves lo hi x) :
    (lo - cfg.movDist P - ε ≤ fl P (lo - cfg.movDist P) ∧
        fl P (lo - cfg.movDist P) ≤ lo - cfg.movDist P + ε) ∧
      (hi - cfg.movDist P - ε ≤ fl P (hi - cfg.movDist P) ∧
        fl P (hi - cfg.movDist P) ≤ hi - cfg.movDist P + ε) ∧
      (lo + cfg.movDist P - ε ≤ fl P (lo + cfg.movDist P) ∧
        fl P (lo + cfg.movDist P) ≤ lo + cfg.movDist P + ε) ∧
      hi + cfg.movDist P - ε ≤ fl P (hi + cfg.movDist P) ∧
        fl P (hi + cfg.movDist P) ≤ hi + cfg.movDist P + ε := by
  have hle := h.lo_le.trans h.le_hi
  obtain ⟨hlo, hlo'⟩ := shift_error hwide hprecise h ⟨le_rfl, hle⟩
  obtain ⟨hhi, hhi'⟩ := shift_error hwide hprecise h ⟨hle, le_rfl⟩
  obtain ⟨_, _⟩ := abs_le.mp hlo
  obtain ⟨_, _⟩ := abs_le.mp hlo'
  obtain ⟨_, _⟩ := abs_le.mp hhi
  obtain ⟨_, _⟩ := abs_le.mp hhi'
  exact ⟨⟨by linarith, by linarith⟩, ⟨by linarith, by linarith⟩, ⟨by linarith, by linarith⟩,
    by linarith, by linarith⟩

theorem overlaps (hwide : cfg.Wide P ε moves) (hprecise : Precise P cfg range ε)
    (h : ∀ i, Inside cfg range ε moves (old.vertexMin i) (old.vertexMax i) (pos i)) :
    Overlaps P cfg old := by
  have hdist := hwide.movDist
  have hedge := hwide.edge
  have hpos := hwide.pos
  have heps := hwide.eps
  have hw := hwide.wide
  refine ⟨fun i => ?_, fun i => ?_, fun i => ?_, fun i => ?_⟩
  · linarith [(h i).errors hwide hprecise |>.1.2]
  · linarith [(h i).errors hwide hprecise |>.2.1.1, (h i).le_side]
  · linarith [(h i).errors hwide hprecise |>.2.2.1.2, (h i).le_side]
  · linarith [(h i).errors hwide hprecise |>.2.2.2.1]

/-- The box stays around the sensor. -/
theorem around_moved (hwide : cfg.Wide P ε moves) (hprecise : Precise P cfg range ε)
    (h : ∀ i, Inside cfg range ε moves (old.vertexMin i) (old.vertexMax i) (pos i)) :
    Around cfg (moved P cfg old pos) pos := by
  intro i
  have hin := h i
  obtain ⟨hlo, hhi, hlo', hhi'⟩ := hin.errors hwide hprecise
  have hside := hin.le_side
  have hinlo := hin.lo_le
  have hinhi := hin.le_hi
  have hdist := hwide.movDist
  have hedge := hwide.edge
  have hpos := hwide.pos
  have heps := hwide.eps
  have hw := hwide.wide
  show (move P cfg old pos i).shift P cfg (old.vertexMin i) + _ ≤ _ ∧
    _ ≤ (move P cfg old pos i).shift P cfg (old.vertexMax i) - _
  rcases move_cases hwide hprecise hin with ⟨hm, hnear⟩ | ⟨hm, hfar, hnear⟩ | ⟨hm, hfar, hfar'⟩
  · rw [hm, Move.shift, Move.shift]
    exact ⟨by linarith, by linarith⟩
  · rw [hm, Move.shift, Move.shift]
    exact ⟨by linarith, by linarith⟩
  · rw [hm, Move.shift, Move.shift]
    exact ⟨by linarith, by linarith⟩

/-- A move takes the sides off by two more roundings. -/
theorem cube_moved (hwide : cfg.Wide P ε moves) (hprecise : Precise P cfg range ε)
    (h : ∀ i, Inside cfg range ε moves (old.vertexMin i) (old.vertexMax i) (pos i)) :
    Cube cfg ε (moves + 1) (moved P cfg old pos) := by
  intro i
  have hin := h i
  obtain ⟨hlo, hhi, hlo', hhi'⟩ := hin.errors hwide hprecise
  have hside := hin.le_side
  have hside' := hin.side_le
  have heps := hwide.eps
  show |(move P cfg old pos i).shift P cfg (old.vertexMax i) -
    (move P cfg old pos i).shift P cfg (old.vertexMin i) - _| ≤ _
  push_cast
  cases move P cfg old pos i with
  | back =>
    rw [Move.shift, Move.shift]
    exact abs_le.mpr ⟨by linarith, by linarith⟩
  | forth =>
    rw [Move.shift, Move.shift]
    exact abs_le.mpr ⟨by linarith, by linarith⟩
  | stay =>
    rw [Move.shift, Move.shift]
    exact abs_le.mpr ⟨by linarith, by linarith⟩

/-- **Nothing in the range of the sensor is deleted.** -/
theorem far_of_cubNeedrm (hwide : cfg.Wide P ε moves) (hprecise : Precise P cfg range ε)
    (h : ∀ i, Inside cfg range ε moves (old.vertexMin i) (old.vertexMax i) (pos i)) {p : P}
    (hp : ∃ box ∈ (lasermapFovSegment P cfg pos (some old)).cubNeedrm, box.contains p = true) :
    ∃ i, cfg.detRange ≤ |xyz p i - pos i| := by
  obtain ⟨-, hcub⟩ := lasermapFovSegment_some P cfg old pos
  obtain ⟨box, hbox, hp⟩ := hp
  obtain ⟨i, hmove, rfl⟩ := (hcub box).mp hbox
  have hpi := (contains_iff _ p).mp hp i
  have hin := h i
  obtain ⟨-, hhi, hlo, -⟩ := hin.errors hwide hprecise
  have hside := hin.le_side
  have heps := hwide.eps
  have hw := hwide.wide
  refine ⟨i, ?_⟩
  rcases move_cases hwide hprecise hin with ⟨hm, hnear⟩ | ⟨hm, -, hnear⟩ | ⟨hm, -⟩
  · simp only [leftBehind, hm, Function.update_self] at hpi
    exact le_trans (by linarith [hpi.1]) (le_abs_self _)
  · simp only [leftBehind, hm, Function.update_self] at hpi
    exact le_trans (by linarith [hpi.2]) (neg_le_abs _)
  · exact absurd hm hmove

end Step

/-! ### Over a run -/

/-- The computed half of the side. -/
theorem initialBox_error {cfg : Config} {range ε : ℚ} {moves : ℕ} (hwide : cfg.Wide P ε moves)
    (hprecise : Precise P cfg range ε) {pos : Fin 3 → ℚ} (hrange : ∀ i, |pos i| ≤ range)
    (i : Fin 3) :
    |(initialBox P cfg pos).vertexMin i - (pos i - cfg.cubeLen / 2)| ≤ 3 * ε ∧
      |(initialBox P cfg pos).vertexMax i - (pos i + cfg.cubeLen / 2)| ≤ 3 * ε := by
  have hpos := hwide.pos
  have heps := hwide.eps
  have hdist := hwide.movDist
  have hedge := hwide.edge
  have hw := hwide.wide
  have hmoves : 0 ≤ (moves : ℚ) * ε := mul_nonneg (Nat.cast_nonneg _) heps
  obtain ⟨hx, hx'⟩ := abs_le.mp (hrange i)
  obtain ⟨hhalf, hhalf'⟩ :=
    abs_le.mp (hprecise.dbl (cfg.cubeLen / 2) (abs_le.mpr ⟨by linarith, by linarith⟩))
  set half := dbl P (cfg.cubeLen / 2) with hdef
  obtain ⟨hsub, hsub'⟩ :=
    abs_le.mp (hprecise.dbl (pos i - half) (abs_le.mpr ⟨by linarith, by linarith⟩))
  obtain ⟨hadd, hadd'⟩ :=
    abs_le.mp (hprecise.dbl (pos i + half) (abs_le.mpr ⟨by linarith, by linarith⟩))
  obtain ⟨hmin, hmin'⟩ :=
    abs_le.mp (hprecise.fl (dbl P (pos i - half)) (abs_le.mpr ⟨by linarith, by linarith⟩))
  obtain ⟨hmax, hmax'⟩ :=
    abs_le.mp (hprecise.fl (dbl P (pos i + half)) (abs_le.mpr ⟨by linarith, by linarith⟩))
  show |fl P (dbl P (pos i - half)) - _| ≤ _ ∧ |fl P (dbl P (pos i + half)) - _| ≤ _
  exact ⟨abs_le.mpr ⟨by linarith, by linarith⟩, abs_le.mpr ⟨by linarith, by linarith⟩⟩

variable (P) in
/-- How often the box is moved in a run. -/
def moves (cfg : Config) (es : List (Fin 3 → ℚ)) : ℕ :=
  ((localMap P cfg).outputs es).countP fun cubNeedrm => !cubNeedrm.isEmpty

section Moves

variable (P) in
theorem moves_le_concat (cfg : Config) (es : List (Fin 3 → ℚ)) (pos : Fin 3 → ℚ) :
    moves P cfg es ≤ moves P cfg (es ++ [pos]) := by
  unfold moves
  rw [Process.outputs_concat, List.countP_append]
  exact Nat.le_add_right _ _

variable {cfg : Config} {old : BoxPointType} {es : List (Fin 3 → ℚ)}

/-- A scan moves the box or leaves it as it is. -/
theorem moves_concat (hold : (localMap P cfg).after es = some old) (pos : Fin 3 → ℚ) :
    moves P cfg (es ++ [pos]) = moves P cfg es + 1 ∨
      (moves P cfg (es ++ [pos]) = moves P cfg es ∧ moved P cfg old pos = old) := by
  obtain ⟨-, hcub⟩ := lasermapFovSegment_some P cfg old pos
  have hcount : moves P cfg (es ++ [pos]) = moves P cfg es +
      if (lasermapFovSegment P cfg pos (some old)).cubNeedrm.isEmpty then 0 else 1 := by
    rw [moves, Process.outputs_concat, List.countP_append, hold]
    show _ + List.countP _ [(lasermapFovSegment P cfg pos (some old)).cubNeedrm] = _
    rw [List.countP_singleton]
    cases (lasermapFovSegment P cfg pos (some old)).cubNeedrm.isEmpty <;> rfl
  cases hempty : (lasermapFovSegment P cfg pos (some old)).cubNeedrm.isEmpty with
  | false => exact Or.inl (by rw [hcount, hempty]; rfl)
  | true =>
    have hnil := List.isEmpty_iff.mp hempty
    have hstay : ∀ i, move P cfg old pos i = .stay := by
      intro i
      by_contra hne
      have hmem := (hcub _).mpr ⟨i, hne, rfl⟩
      rw [hnil] at hmem
      cases hmem
    refine Or.inr ⟨by rw [hcount, hempty]; rfl, ?_⟩
    simp [moved, hstay, Move.shift]

end Moves

/-- **The box is around the sensor all the time**, wherever it goes. -/
theorem localMap_around {cfg : Config} {range ε : ℚ} (hprecise : Precise P cfg range ε)
    (es : List (Fin 3 → ℚ)) (pos : Fin 3 → ℚ) (hwide : cfg.Wide P ε (moves P cfg (es ++ [pos])))
    (hrange : ∀ x ∈ es ++ [pos], ∀ i, |x i| ≤ range) (h : (es ++ [pos]).IsChain (Slow cfg)) :
    ∃ box, (localMap P cfg).after (es ++ [pos]) = some box ∧
      Cube cfg ε (moves P cfg (es ++ [pos])) box ∧ Around cfg box pos := by
  induction es using List.reverseRecOn generalizing pos with
  | nil =>
    have herror := initialBox_error hwide hprecise (hrange pos (by simp))
    have hpos := hwide.pos
    have hdist := hwide.movDist
    have hedge := hwide.edge
    have hw := hwide.wide
    have heps := hwide.eps
    have hmoves : 0 ≤ (moves P cfg ([] ++ [pos]) : ℚ) * ε := mul_nonneg (Nat.cast_nonneg _) heps
    refine ⟨initialBox P cfg pos, rfl, fun i => ?_, fun i => ?_⟩
    · obtain ⟨hmin, hmin'⟩ := abs_le.mp (herror i).1
      obtain ⟨hmax, hmax'⟩ := abs_le.mp (herror i).2
      exact abs_le.mpr ⟨by linarith, by linarith⟩
    · obtain ⟨hmin, hmin'⟩ := abs_le.mp (herror i).1
      obtain ⟨hmax, hmax'⟩ := abs_le.mp (herror i).2
      exact ⟨by linarith, by linarith⟩
  | append_singleton es last ih =>
    obtain ⟨hprev, -, hslow⟩ := List.isChain_append.mp h
    have hslow : Slow cfg last pos := hslow last (by simp) pos (by simp)
    have hrangeprev : ∀ x ∈ es ++ [last], ∀ i, |x i| ≤ range :=
      fun x hx => hrange x (List.mem_append_left _ hx)
    have hrangepos : ∀ i, |pos i| ≤ range := hrange pos (by simp)
    have hle := moves_le_concat P cfg (es ++ [last]) pos
    obtain ⟨old, hold, hcube, haround⟩ := ih last (hwide.mono hle) hrangeprev hprev
    have hin := haround.inside hcube hslow hrangepos
    obtain ⟨hmoved, -⟩ := lasermapFovSegment_some P cfg old pos
    rw [Process.after_concat, hold]
    refine ⟨moved P cfg old pos, congrArg some hmoved, ?_,
      around_moved (hwide.mono hle) hprecise hin⟩
    rcases moves_concat hold pos with hcount | ⟨hcount, hsame⟩
    · rw [hcount]
      exact cube_moved (hwide.mono hle) hprecise hin
    · rw [hcount, hsame]
      exact hcube

section Example

/-- A box of 1000 m and a range of 260 m, as in `horizon.yaml`. -/
def horizon : Config := ⟨1000, 260⟩

theorem horizon_wide (moves : ℕ) : horizon.Wide (Fin 3 → ℚ) 0 moves := by
  have hmovDist : horizon.movDist (Fin 3 → ℚ) = 130 := by decide +kernel
  have hedge : horizon.edge (Fin 3 → ℚ) = 390 := by decide +kernel
  refine ⟨by norm_num [horizon], le_rfl, ?_, ?_, ?_⟩
  · rw [hmovDist]
    norm_num [horizon]
  · rw [hedge]
    norm_num [horizon]
  · rw [hmovDist, hedge]
    norm_num [horizon]

theorem horizon_precise (range : ℚ) : Precise (Fin 3 → ℚ) horizon range 0 :=
  ⟨Rounding.exact_within _, Rounding.exact_within _⟩

/-- A drive to the third position of which the box is moved. -/
def trip : List (Fin 3 → ℚ) := [onRoad 0, onRoad 100]

theorem trip_slow : (trip ++ [onRoad 200]).IsChain (Slow horizon) := by
  unfold Slow
  decide +kernel

theorem trip_range : ∀ x ∈ trip ++ [onRoad 200], ∀ i, |x i| ≤ 200 := by decide +kernel

/-- The box before and after the move. -/
def boxAround (x : ℚ) : BoxPointType := ⟨![x - 500, -500, -500], ![x + 500, 500, 500]⟩

instance : DecidableEq BoxPointType := fun a b =>
  decidable_of_iff (a.vertexMin = b.vertexMin ∧ a.vertexMax = b.vertexMax)
    ⟨fun h => congrArg₂ BoxPointType.mk h.1 h.2, fun h => by rw [h]; exact ⟨rfl, rfl⟩⟩

theorem after_trip : (localMap (Fin 3 → ℚ) horizon).after trip = some (boxAround 0) ∧
    (localMap (Fin 3 → ℚ) horizon).after (trip ++ [onRoad 200]) = some (boxAround 130) := by
  decide +kernel

end Example

theorem localMap_around_trip : ∃ box,
    (localMap (Fin 3 → ℚ) horizon).after (trip ++ [onRoad 200]) = some box ∧
      Cube horizon 0 (moves (Fin 3 → ℚ) horizon (trip ++ [onRoad 200])) box ∧
      Around horizon box (onRoad 200) :=
  localMap_around (horizon_precise 200) trip (onRoad 200) (horizon_wide _) trip_range trip_slow

section Map

variable {params : Params P} {m : Map P} {tr : List ((Call P × Shared P) × Answer P)}

/-- **Moving the box deletes what it leaves behind** and nothing in the range of the sensor. -/
theorem segment_of_run {cfg : Config} {range ε : ℚ} (hprecise : Precise P cfg range ε)
    {es : List (Fin 3 → ℚ)} {pos : Fin 3 → ℚ} (hwide : cfg.Wide P ε (moves P cfg (es ++ [pos])))
    (hrange : ∀ x ∈ es ++ [pos], ∀ i, |x i| ≤ range) (h : (es ++ [pos]).IsChain (Slow cfg))
    {old new : BoxPointType} (hold : (localMap P cfg).after es = some old)
    (hnew : (localMap P cfg).after (es ++ [pos]) = some new)
    (hrun : (Map.machine params).Reaches tr m) (s : Shared P) :
    (deletePointBoxes params ((localMap P cfg).step (some old) pos).2 m.root s).tree.live =
        m.root.live.filter (fun p => ¬(old.contains p = true ∧ new.contains p = false)) ∧
      ∀ p ∈ m.root.live, (∀ i, |xyz p i - pos i| < cfg.detRange) →
        ¬(old.contains p = true ∧ new.contains p = false) := by
  obtain ⟨hwf, -⟩ := Map.refines hrun
  -- there was a position before this one, as there is a box
  induction es using List.reverseRecOn with
  | nil => cases hold
  | append_singleton es last =>
    obtain ⟨hprev, -, hslow⟩ := List.isChain_append.mp h
    have hslow : Slow cfg last pos := hslow last (by simp) pos (by simp)
    have hle := moves_le_concat P cfg (es ++ [last]) pos
    have hwide := hwide.mono hle
    obtain ⟨box, hbox, hcube, haround⟩ := localMap_around hprecise es last hwide
      (fun x hx => hrange x (List.mem_append_left _ hx)) hprev
    obtain rfl := Option.some.inj (hbox.symm.trans hold)
    have hin := haround.inside hcube hslow (hrange pos (by simp))
    obtain ⟨hmoved, -⟩ := lasermapFovSegment_some P cfg box pos
    rw [Process.after_concat, hold] at hnew
    have hnew : moved P cfg box pos = new := hmoved.symm.trans (Option.some.inj hnew)
    subst hnew
    have hiff (p : P) := cubNeedrm_iff pos (overlaps hwide hprecise hin) p
    constructor
    · obtain ⟨-, hlive, -⟩ := deletePointBoxes_spec params
        ((localMap P cfg).step (some box) pos).2 hwf s
      rw [hlive]
      refine Multiset.filter_congr fun p _ => ?_
      rw [← hiff p]
      push Not
      simp only [Bool.not_eq_true]
      rfl
    · intro p _ hnear hgone
      obtain ⟨i, hi⟩ := far_of_cubNeedrm hwide hprecise hin ((hiff p).mpr hgone)
      exact absurd (hnear i) (not_lt.mpr hi)

end Map

/-- Points along the road, one of them added later. -/
theorem reaches_street : ∃ tr m, (Map.machine defaultParams).Reaches tr m ∧
    m.root.live = ↑([-450, -400, -375, -365, 0, 250, 400, 550].map onRoad) :=
  Machine.exists_reaches_of_exec (M := Map.machine defaultParams)
    [(.build ([-400, -375, -365, 0, 250, 400, 550].map onRoad), .initial),
      (.addPoint (onRoad (-450)), .initial)]
    (p := fun r => r.2.root.live = ↑([-450, -400, -375, -365, 0, 250, 400, 550].map onRoad))
    (by decide +kernel)

/-- Three points are left behind. -/
theorem segment_of_trip : ∃ tr m, (Map.machine defaultParams).Reaches tr m ∧
    (deletePointBoxes defaultParams
        ((localMap (Fin 3 → ℚ) horizon).step (some (boxAround 0)) (onRoad 200)).2 m.root
        .initial).tree.live = ↑([-365, 0, 250, 400, 550].map onRoad) ∧
      ∀ p ∈ m.root.live, (∀ i, |xyz p i - onRoad 200 i| < horizon.detRange) →
        ¬((boxAround 0).contains p = true ∧ (boxAround 130).contains p = false) := by
  obtain ⟨tr, m, hrun, hlive⟩ := reaches_street
  obtain ⟨hdeleted, hkept⟩ := segment_of_run (horizon_precise 200) (horizon_wide _) trip_range
    trip_slow after_trip.1 after_trip.2 hrun .initial
  refine ⟨tr, m, hrun, hdeleted.trans ?_, hkept⟩
  rw [hlive]
  decide +kernel

end RoverSwarm.LaserMapping
