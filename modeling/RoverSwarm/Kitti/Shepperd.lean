import RoverSwarm.Kitti

/-!
# Kitti.Shepperd — from a rotation matrix to its quaternion

Each of the four branches reads the quaternion off another row of the table of products and divides
by the root of the entry on the diagonal.  Of the four diagonal entries, which sum up to 4, the
branch that is taken has one of at least 1.
-/

namespace RoverSwarm.Kitti

open Matrix Quaternion RigidMotion

noncomputable section

/-- The argument of the root in the branch that is taken. -/
def radicand (m : Matrix (Fin 3) (Fin 3) ℝ) : ℝ :=
  let trace := m 0 0 + m 1 1 + m 2 2
  if trace > 0 then trace + 1.0
  else if m 0 0 > m 1 1 ∧ m 0 0 > m 2 2 then 1.0 + m 0 0 - m 1 1 - m 2 2
  else if m 1 1 > m 2 2 then 1.0 + m 1 1 - m 0 0 - m 2 2
  else 1.0 + m 2 2 - m 0 0 - m 1 1

/-- `s`, by which every branch divides. -/
def divisor (m : Matrix (Fin 3) (Fin 3) ℝ) : ℝ := 2.0 * √(radicand m)

end

/-- The branches with their divisor. -/
theorem shepperd_eq (m : Matrix (Fin 3) (Fin 3) ℝ) : shepperd m =
    if m 0 0 + m 1 1 + m 2 2 > 0 then
      wxyz (0.25 * divisor m) ((m 2 1 - m 1 2) / divisor m) ((m 0 2 - m 2 0) / divisor m)
        ((m 1 0 - m 0 1) / divisor m)
    else if m 0 0 > m 1 1 ∧ m 0 0 > m 2 2 then
      wxyz ((m 2 1 - m 1 2) / divisor m) (0.25 * divisor m) ((m 0 1 + m 1 0) / divisor m)
        ((m 0 2 + m 2 0) / divisor m)
    else if m 1 1 > m 2 2 then
      wxyz ((m 0 2 - m 2 0) / divisor m) ((m 0 1 + m 1 0) / divisor m) (0.25 * divisor m)
        ((m 1 2 + m 2 1) / divisor m)
    else
      wxyz ((m 1 0 - m 0 1) / divisor m) ((m 0 2 + m 2 0) / divisor m)
        ((m 1 2 + m 2 1) / divisor m) (0.25 * divisor m) := by
  unfold shepperd divisor radicand
  dsimp only
  split_ifs
  all_goals rfl

/-- A branch that is taken is not close to dividing by zero, whatever the matrix. -/
theorem one_le_radicand (m : Matrix (Fin 3) (Fin 3) ℝ) : 1 ≤ radicand m := by
  unfold radicand
  simp only [show (1.0 : ℝ) = 1 by norm_num]
  split_ifs with htrace h0 h1
  · linarith
  · linarith
  · have hmax : m 0 0 ≤ m 1 1 := by
      by_contra hlt
      exact h0 ⟨not_le.mp hlt, h1.trans (not_le.mp hlt)⟩
    linarith
  · have hmax : m 0 0 ≤ m 2 2 := by
      by_contra hlt
      exact h0 ⟨(not_lt.mp h1).trans_lt (not_le.mp hlt), not_le.mp hlt⟩
    linarith

theorem divisor_pos (m : Matrix (Fin 3) (Fin 3) ℝ) : 0 < divisor m := by
  have hroot : 0 < √(radicand m) := Real.sqrt_pos.mpr (one_pos.trans_le (one_le_radicand m))
  have htwo : (0 : ℝ) < 2.0 := by norm_num
  exact mul_pos htwo hroot

/-- **From a rotation matrix to its quaternion**: the result is a unit quaternion with this matrix,
no root is taken of a number that is not positive, and nothing is divided by zero. -/
theorem rotationmtxToQuaternion_correct {m : Matrix (Fin 3) (Fin 3) ℝ} (horthogonal : mᵀ * m = 1)
    (hdet : m.det = 1) :
    (rotationmtxToQuaternion m).re ^ 2 + (rotationmtxToQuaternion m).imI ^ 2 +
        (rotationmtxToQuaternion m).imJ ^ 2 + (rotationmtxToQuaternion m).imK ^ 2 = 1 ∧
      rotationMatrix (rotationmtxToQuaternion m) = m ∧
      0 < radicand m ∧ divisor m ≠ 0 ∧ √(normSq (shepperd m)) ≠ 0 := by
  have hmem : m ∈ specialOrthogonalGroup (Fin 3) ℝ :=
    mem_specialOrthogonalGroup_iff.mpr ⟨(mem_orthogonalGroup_iff' _ _).mpr horthogonal, hdet⟩
  have hunit : normSq (rotationmtxToQuaternion m) = 1 := normSq_rotationmtxToQuaternion m
  rw [normSq_def'] at hunit
  have hnorm : 0 < normSq (shepperd m) :=
    normSq_nonneg.lt_of_ne (normSq_ne_zero.mpr (shepperd_ne_zero m)).symm
  exact ⟨hunit, (hasProducts_rotationmtxToQuaternion hmem).rotationMatrix_eq,
    one_pos.trans_le (one_le_radicand m), (divisor_pos m).ne', (Real.sqrt_pos.mpr hnorm).ne'⟩

/-- A half-turn, whose trace is negative. -/
theorem rotationmtxToQuaternion_halfTurn :
    rotationMatrix (rotationmtxToQuaternion !![1, 0, 0; 0, -1, 0; 0, 0, -1]) =
      !![1, 0, 0; 0, -1, 0; 0, 0, -1] := by
  refine (rotationmtxToQuaternion_correct ?_ ?_).2.1
  · ext i j
    fin_cases i <;> fin_cases j
    all_goals simp [mul_apply, Fin.sum_univ_three]
  · simp [det_fin_three]

end RoverSwarm.Kitti
