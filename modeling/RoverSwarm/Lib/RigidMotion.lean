import Mathlib.Algebra.Quaternion
import Mathlib.Analysis.SpecialFunctions.Trigonometric.Basic
import Mathlib.LinearAlgebra.Matrix.Adjugate
import Mathlib.LinearAlgebra.UnitaryGroup
import Mathlib.Tactic.FieldSimp
import Mathlib.Tactic.FinCases
import Mathlib.Tactic.LinearCombination

/-!
# RigidMotion — rotations and rigid transforms of space

A quaternion `q` rotates a vector `v` to `q v q*`, and a transform rotates and then translates.
Composing transforms composes their actions.  The products of the components of a quaternion
determine the rotation matrix; for a rotation matrix they can be read off its entries, up to the
factor 4, so each row of the table of products gives the quaternion up to a factor.
-/

namespace RigidMotion

open Matrix Quaternion

/-- Space has three axes, `0`, `1` and `2`. -/
scoped instance neZero_three : NeZero 3 := ⟨three_ne_zero⟩

/-! ### Rotating by a quaternion -/

section Rotate

variable {K : Type*} [CommRing K]

/-- The quaternion without real part. -/
def ofVector (v : Fin 3 → K) : ℍ[K] := ⟨0, v 0, v 1, v 2⟩

@[simp] theorem ofVector_re (v : Fin 3 → K) : (ofVector v).re = 0 := rfl
@[simp] theorem ofVector_imI (v : Fin 3 → K) : (ofVector v).imI = v 0 := rfl
@[simp] theorem ofVector_imJ (v : Fin 3 → K) : (ofVector v).imJ = v 1 := rfl
@[simp] theorem ofVector_imK (v : Fin 3 → K) : (ofVector v).imK = v 2 := rfl

/-- `q v q*`. -/
def rotate (q : ℍ[K]) (v : Fin 3 → K) : Fin 3 → K :=
  let r := q * ofVector v * star q
  ![r.imI, r.imJ, r.imK]

theorem rotate_apply (q : ℍ[K]) (v : Fin 3 → K) : rotate q v =
    ![(q.re ^ 2 + q.imI ^ 2 - q.imJ ^ 2 - q.imK ^ 2) * v 0 +
        2 * (q.imI * q.imJ - q.re * q.imK) * v 1 + 2 * (q.imI * q.imK + q.re * q.imJ) * v 2,
      2 * (q.imI * q.imJ + q.re * q.imK) * v 0 +
        (q.re ^ 2 - q.imI ^ 2 + q.imJ ^ 2 - q.imK ^ 2) * v 1 +
        2 * (q.imJ * q.imK - q.re * q.imI) * v 2,
      2 * (q.imI * q.imK - q.re * q.imJ) * v 0 + 2 * (q.imJ * q.imK + q.re * q.imI) * v 1 +
        (q.re ^ 2 - q.imI ^ 2 - q.imJ ^ 2 + q.imK ^ 2) * v 2] := by
  unfold rotate
  ext i
  fin_cases i
  all_goals
    simp
    ring

theorem rotate_add (q : ℍ[K]) (v w : Fin 3 → K) : rotate q (v + w) = rotate q v + rotate q w := by
  rw [rotate_apply, rotate_apply, rotate_apply]
  ext i
  fin_cases i
  all_goals
    simp
    ring

theorem rotate_mul (q r : ℍ[K]) (v : Fin 3 → K) : rotate (q * r) v = rotate q (rotate r v) := by
  rw [rotate_apply, rotate_apply, rotate_apply]
  ext i
  fin_cases i
  all_goals
    simp
    ring

/-- The matrix of the rotation: its columns are the images of the axes. -/
def rotationMatrix (q : ℍ[K]) : Matrix (Fin 3) (Fin 3) K := of fun i j => rotate q (Pi.single j 1) i

theorem rotationMatrix_eq (q : ℍ[K]) : rotationMatrix q =
    !![q.re ^ 2 + q.imI ^ 2 - q.imJ ^ 2 - q.imK ^ 2, 2 * (q.imI * q.imJ - q.re * q.imK),
        2 * (q.imI * q.imK + q.re * q.imJ);
      2 * (q.imI * q.imJ + q.re * q.imK), q.re ^ 2 - q.imI ^ 2 + q.imJ ^ 2 - q.imK ^ 2,
        2 * (q.imJ * q.imK - q.re * q.imI);
      2 * (q.imI * q.imK - q.re * q.imJ), 2 * (q.imJ * q.imK + q.re * q.imI),
        q.re ^ 2 - q.imI ^ 2 - q.imJ ^ 2 + q.imK ^ 2] := by
  ext i j
  show rotate q (Pi.single j 1) i = _
  rw [rotate_apply]
  fin_cases i <;> fin_cases j
  all_goals simp

theorem rotate_eq_mulVec (q : ℍ[K]) (v : Fin 3 → K) : rotate q v = rotationMatrix q *ᵥ v := by
  rw [rotate_apply, rotationMatrix_eq]
  ext i
  fin_cases i
  all_goals simp [mulVec, dotProduct, Fin.sum_univ_three]

theorem rotate_one (v : Fin 3 → K) : rotate 1 v = v := by
  rw [rotate_apply]
  ext i
  fin_cases i
  all_goals simp

/-- A unit quaternion is undone by its conjugate. -/
theorem rotate_rotate_star {q : ℍ[K]} (h : normSq q = 1) (v : Fin 3 → K) :
    rotate q (rotate (star q) v) = v := by
  rw [← rotate_mul, self_mul_star, h]
  exact rotate_one v

end Rotate

/-! ### Transforms -/

/-- A rotation and a translation after it. -/
structure Transform (K : Type*) [CommRing K] where
  translation : Fin 3 → K
  rotation : ℍ[K]

namespace Transform

variable {K : Type*} [CommRing K]

/-- The point in the parent frame. -/
def apply (t : Transform K) (p : Fin 3 → K) : Fin 3 → K := rotate t.rotation p + t.translation

/-- The frame of `t` in the parent frame of `u`. -/
def comp (u t : Transform K) : Transform K where
  translation := u.apply t.translation
  rotation := u.rotation * t.rotation

theorem comp_apply (u t : Transform K) (p : Fin 3 → K) :
    (u.comp t).apply p = u.apply (t.apply p) := by
  unfold comp apply
  rw [rotate_mul, rotate_add, add_assoc]

/-- With a unit quaternion, every point of the parent frame is reached. -/
theorem apply_surjective {t : Transform K} (h : normSq t.rotation = 1) :
    Function.Surjective t.apply := by
  intro p
  refine ⟨rotate (star t.rotation) (p - t.translation), ?_⟩
  unfold apply
  rw [rotate_rotate_star h, sub_add_cancel]

/-- Where `u` and `f` differ, they differ after `t`. -/
theorem comp_apply_eq_iff {u f t : Transform K} (h : normSq t.rotation = 1) :
    (u.comp t).apply = (f.comp t).apply ↔ u.apply = f.apply := by
  have hcomp : ∀ w : Transform K, (w.comp t).apply = w.apply ∘ t.apply :=
    fun w => funext (comp_apply w t)
  rw [hcomp, hcomp]
  exact (apply_surjective h).injective_comp_right.eq_iff

/-! ### Transforms of the plane -/

/-- A turn by `yaw` about the vertical axis and a translation in the plane. -/
noncomputable def planar (x y yaw : ℝ) : Transform ℝ where
  translation := ![x, y, 0]
  rotation := ⟨Real.cos (yaw / 2), 0, 0, Real.sin (yaw / 2)⟩

theorem normSq_planar (x y yaw : ℝ) : normSq (planar x y yaw).rotation = 1 := by
  rw [normSq_def']
  show Real.cos (yaw / 2) ^ 2 + 0 ^ 2 + 0 ^ 2 + Real.sin (yaw / 2) ^ 2 = 1
  linear_combination Real.cos_sq_add_sin_sq (yaw / 2)

/-- A transform whose rotation is a turn about the vertical axis. -/
structure IsPlanar (t : Transform ℝ) : Prop where
  vertical : t.translation 2 = 0
  imI : t.rotation.imI = 0
  imJ : t.rotation.imJ = 0
  unit : normSq t.rotation = 1

theorem IsPlanar.sq_add_sq {t : Transform ℝ} (h : t.IsPlanar) :
    t.rotation.re ^ 2 + t.rotation.imK ^ 2 = 1 := by
  have hunit := h.unit
  rw [normSq_def', h.imI, h.imJ] at hunit
  linear_combination hunit

theorem IsPlanar.apply_eq {t : Transform ℝ} (h : t.IsPlanar) (p : Fin 3 → ℝ) :
    t.apply p = ![(1 - 2 * t.rotation.imK ^ 2) * p 0 - 2 * (t.rotation.re * t.rotation.imK) * p 1 +
        t.translation 0,
      2 * (t.rotation.re * t.rotation.imK) * p 0 + (1 - 2 * t.rotation.imK ^ 2) * p 1 +
        t.translation 1, p 2] := by
  have hunit := h.sq_add_sq
  unfold apply
  rw [rotate_apply, h.imI, h.imJ]
  ext i
  fin_cases i
  · simp
    linear_combination p 0 * hunit
  · simp
    left
    linear_combination hunit
  · simp [h.vertical]
    linear_combination p 2 * hunit

theorem planar_isPlanar (x y yaw : ℝ) : (planar x y yaw).IsPlanar :=
  ⟨rfl, rfl, rfl, normSq_planar x y yaw⟩

theorem planar_apply (x y yaw : ℝ) (p : Fin 3 → ℝ) : (planar x y yaw).apply p =
    ![Real.cos yaw * p 0 - Real.sin yaw * p 1 + x,
      Real.sin yaw * p 0 + Real.cos yaw * p 1 + y, p 2] := by
  have hcos : 1 - 2 * Real.sin (yaw / 2) ^ 2 = Real.cos yaw := by
    have hdouble := Real.cos_sq' (yaw / 2)
    have hhalf := Real.cos_two_mul (yaw / 2)
    rw [mul_div_cancel₀ yaw two_ne_zero] at hhalf
    linear_combination -hhalf - 2 * hdouble
  have hsin : 2 * (Real.cos (yaw / 2) * Real.sin (yaw / 2)) = Real.sin yaw := by
    have hhalf := Real.sin_two_mul (yaw / 2)
    rw [mul_div_cancel₀ yaw two_ne_zero] at hhalf
    linear_combination -hhalf
  rw [(planar_isPlanar x y yaw).apply_eq, ← hcos, ← hsin]
  rfl

theorem planar_rotate (x y yaw : ℝ) (v : Fin 3 → ℝ) : rotate (planar x y yaw).rotation v =
    ![Real.cos yaw * v 0 - Real.sin yaw * v 1, Real.sin yaw * v 0 + Real.cos yaw * v 1, v 2] := by
  have happly := planar_apply x y yaw v
  unfold apply at happly
  rw [eq_sub_of_add_eq happly]
  ext i
  fin_cases i
  · exact add_sub_cancel_right _ x
  · exact add_sub_cancel_right _ y
  · exact sub_zero _

/-- A planar transform is the turn with its heading. -/
theorem IsPlanar.apply_eq_planar {t : Transform ℝ} (h : t.IsPlanar) {yaw : ℝ}
    (hcos : Real.cos yaw = 1 - 2 * t.rotation.imK ^ 2)
    (hsin : Real.sin yaw = 2 * (t.rotation.re * t.rotation.imK)) :
    t.apply = (planar (t.translation 0) (t.translation 1) yaw).apply := by
  ext1 p
  rw [h.apply_eq, planar_apply, hcos, hsin]

/-- The pose `(x, y, yaw)` seen from the pose `(x₀, y₀, yaw₀)`, and seen again from outside. -/
theorem planar_comp_relative (x y yaw x₀ y₀ yaw₀ : ℝ) {relative : ℝ}
    (hcos : Real.cos relative = Real.cos (yaw - yaw₀))
    (hsin : Real.sin relative = Real.sin (yaw - yaw₀)) :
    ((planar x₀ y₀ yaw₀).comp
      (planar (Real.cos yaw₀ * (x - x₀) + Real.sin yaw₀ * (y - y₀))
        (-Real.sin yaw₀ * (x - x₀) + Real.cos yaw₀ * (y - y₀)) relative)).apply =
      (planar x y yaw).apply := by
  have hunit := Real.cos_sq_add_sin_sq yaw₀
  have hcosyaw := Real.cos_add yaw₀ (yaw - yaw₀)
  have hsinyaw := Real.sin_add yaw₀ (yaw - yaw₀)
  rw [add_sub_cancel] at hcosyaw hsinyaw
  ext1 p
  rw [comp_apply, planar_apply, planar_apply, planar_apply, hcos, hsin, hcosyaw, hsinyaw]
  ext i
  fin_cases i
  · simp
    linear_combination (x - x₀) * hunit
  · simp
    linear_combination (y - y₀) * hunit
  · rfl

end Transform

/-! ### Rotation matrices -/

section Matrices

variable {K : Type*} [CommRing K] {m : Matrix (Fin 3) (Fin 3) K}

theorem row_eq (h : m * mᵀ = 1) (i j : Fin 3) :
    m i 0 * m j 0 + m i 1 * m j 1 + m i 2 * m j 2 = if i = j then 1 else 0 := by
  have hij := congrFun (congrFun h i) j
  rw [mul_apply, Fin.sum_univ_three, one_apply] at hij
  exact hij

/-- Of a rotation matrix, the inverse is the transpose and the adjugate. -/
theorem adjugate_eq_transpose (h : m ∈ specialOrthogonalGroup (Fin 3) K) : adjugate m = mᵀ := by
  obtain ⟨horthogonal, hdet⟩ := mem_specialOrthogonalGroup_iff.mp h
  calc
    adjugate m = mᵀ * m * adjugate m := by
      rw [(mem_orthogonalGroup_iff' _ _).mp horthogonal, one_mul]
    _ = mᵀ * (m * adjugate m) := mul_assoc _ _ _
    _ = mᵀ := by rw [mul_adjugate, hdet, one_smul, mul_one]

theorem transpose_mem (h : m ∈ specialOrthogonalGroup (Fin 3) K) :
    mᵀ ∈ specialOrthogonalGroup (Fin 3) K := by
  obtain ⟨horthogonal, hdet⟩ := mem_specialOrthogonalGroup_iff.mp h
  refine mem_specialOrthogonalGroup_iff.mpr ⟨(mem_orthogonalGroup_iff _ _).mpr ?_, ?_⟩
  · rw [transpose_transpose]
    exact (mem_orthogonalGroup_iff' _ _).mp horthogonal
  · rw [det_transpose, hdet]

/-- Four times the products of two components of the quaternion of a rotation matrix. -/
def products (m : Matrix (Fin 3) (Fin 3) K) : Matrix (Fin 4) (Fin 4) K :=
  !![1 + m 0 0 + m 1 1 + m 2 2, m 2 1 - m 1 2, m 0 2 - m 2 0, m 1 0 - m 0 1;
    m 2 1 - m 1 2, 1 + m 0 0 - m 1 1 - m 2 2, m 0 1 + m 1 0, m 0 2 + m 2 0;
    m 0 2 - m 2 0, m 0 1 + m 1 0, 1 + m 1 1 - m 0 0 - m 2 2, m 1 2 + m 2 1;
    m 1 0 - m 0 1, m 0 2 + m 2 0, m 1 2 + m 2 1, 1 + m 2 2 - m 0 0 - m 1 1]

theorem products_symm (m : Matrix (Fin 3) (Fin 3) K) (i j : Fin 4) :
    products m i j = products m j i := by
  fin_cases i <;> fin_cases j
  all_goals rfl

/-- The table of products has rank one: its minors vanish because rows and columns are orthonormal
and every entry is its own cofactor. -/
theorem products_minor (h : m ∈ specialOrthogonalGroup (Fin 3) K) (a i j : Fin 4) :
    products m a a * products m i j = products m a i * products m a j := by
  -- by symmetry above the diagonal; with `a` itself there is nothing to show
  wlog hij : i ≤ j generalizing i j
  · rw [products_symm m i j, this j i (le_of_not_ge hij), mul_comm]
  by_cases hi : i = a
  · rw [hi]
  by_cases hj : j = a
  · rw [hj, products_symm m i a, mul_comm]
  have horthogonal := (mem_specialOrthogonalGroup_iff.mp h).1
  have hrow := row_eq ((mem_orthogonalGroup_iff _ _).mp horthogonal)
  have hcol := row_eq (m := mᵀ) ((mem_orthogonalGroup_iff' _ _).mp horthogonal)
  have hcofactor := fun i j => congrFun (congrFun (adjugate_eq_transpose h) i) j
  rw [adjugate_fin_three] at hcofactor
  simp only [transpose_apply] at hcol hcofactor
  have r00 := hrow 0 0
  have r11 := hrow 1 1
  have r22 := hrow 2 2
  have r01 := hrow 0 1
  have r02 := hrow 0 2
  have r12 := hrow 1 2
  have c00 := hcol 0 0
  have c11 := hcol 1 1
  have c22 := hcol 2 2
  have c01 := hcol 0 1
  have c02 := hcol 0 2
  have c12 := hcol 1 2
  have a00 := hcofactor 0 0
  have a01 := hcofactor 0 1
  have a02 := hcofactor 0 2
  have a10 := hcofactor 1 0
  have a11 := hcofactor 1 1
  have a12 := hcofactor 1 2
  have a20 := hcofactor 2 0
  have a21 := hcofactor 2 1
  have a22 := hcofactor 2 2
  clear h horthogonal hrow hcol hcofactor
  simp at r00 r11 r22 r01 r02 r12 c00 c11 c22 c01 c02 c12 a00 a01 a02 a10 a11 a12 a20 a21 a22
  fin_cases a <;> fin_cases i <;> fin_cases j
  all_goals first
    | exact absurd rfl hi
    | exact absurd rfl hj
    | exact absurd hij (by decide)
    | (simp [products]; grind)

end Matrices

/-! ### The quaternion of a rotation matrix -/

section Quaternions

variable {K : Type*} [Field K] {m : Matrix (Fin 3) (Fin 3) K}

def components (q : ℍ[K]) : Fin 4 → K := ![q.re, q.imI, q.imJ, q.imK]

/-- The products of two components are those of the table. -/
def HasProducts (q : ℍ[K]) (m : Matrix (Fin 3) (Fin 3) K) : Prop :=
  ∀ i j, 4 * (components q i * components q j) = products m i j

variable [CharZero K]

theorem HasProducts.normSq_eq {q : ℍ[K]} (h : HasProducts q m) : normSq q = 1 := by
  have h0 := h 0 0
  have h1 := h 1 1
  have h2 := h 2 2
  have h3 := h 3 3
  simp [components, products] at h0 h1 h2 h3
  rw [normSq_def']
  linear_combination (h0 + h1 + h2 + h3) / 4

/-- The matrix is the one of the quaternion. -/
theorem HasProducts.rotationMatrix_eq {q : ℍ[K]} (h : HasProducts q m) : rotationMatrix q = m := by
  have h00 := h 0 0
  have h11 := h 1 1
  have h22 := h 2 2
  have h33 := h 3 3
  have h01 := h 0 1
  have h02 := h 0 2
  have h03 := h 0 3
  have h12 := h 1 2
  have h13 := h 1 3
  have h23 := h 2 3
  simp [components, products] at h00 h11 h22 h33 h01 h02 h03 h12 h13 h23
  rw [RigidMotion.rotationMatrix_eq]
  ext i j
  fin_cases i <;> fin_cases j
  all_goals simp
  · linear_combination (h00 + h11 - h22 - h33) / 4
  · linear_combination (h12 - h03) / 2
  · linear_combination (h13 + h02) / 2
  · linear_combination (h12 + h03) / 2
  · linear_combination (h00 - h11 + h22 - h33) / 4
  · linear_combination (h23 - h01) / 2
  · linear_combination (h13 - h02) / 2
  · linear_combination (h23 + h01) / 2
  · linear_combination (h00 - h11 - h22 + h33) / 4

theorem HasProducts.rotate_eq {q : ℍ[K]} (h : HasProducts q m) (v : Fin 3 → K) :
    rotate q v = m *ᵥ v := by
  rw [rotate_eq_mulVec, h.rotationMatrix_eq]

omit [CharZero K] in
/-- A row of the table is the quaternion up to a factor, found from the entry on the diagonal. -/
theorem hasProducts_of_row (h : m ∈ specialOrthogonalGroup (Fin 3) K) {q : ℍ[K]} {a : Fin 4} {s : K}
    (hs : s ≠ 0) (hdiag : s ^ 2 = 4 * products m a a)
    (hq : ∀ i, components q i = products m a i / s) : HasProducts q m := by
  intro i j
  rw [hq, hq]
  have hminor := products_minor h a i j
  field_simp
  rw [hdiag]
  linear_combination -4 * hminor

end Quaternions

end RigidMotion
