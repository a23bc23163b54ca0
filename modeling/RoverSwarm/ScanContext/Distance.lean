import Mathlib.LinearAlgebra.Matrix.DotProduct
import Mathlib.LinearAlgebra.Matrix.Notation
import RoverSwarm.Lib.BestShift
import RoverSwarm.ScanContext

/-!
# ScanContext/Distance — what the distance of two descriptors measures

The array computation of `distanceSc` is one minus the best mean cosine of the columns over all
shifts, `BestShift.best` at the columns of the descriptors.  It is therefore symmetric, and the same
for every rotation of either lidar.
-/

namespace RoverSwarm.ScanContext

open Matrix

variable {rings sectors : ℕ}

/-- The cosine of the angle between two columns. -/
noncomputable def cosine (x y : Fin rings → ℝ) : ℝ := x ⬝ᵥ y / (√(x ⬝ᵥ x) * √(y ⬝ᵥ y))

theorem cosine_comm (x y : Fin rings → ℝ) : cosine y x = cosine x y := by
  unfold cosine
  rw [dotProduct_comm, mul_comm]

def BothNonzero (e : (Fin rings → ℝ) × (Fin rings → ℝ)) : Prop := e.1 ≠ 0 ∧ e.2 ≠ 0

open Classical in
/-- The mean cosine of the pairs of columns that are both nonzero, with the columns of `a` shifted
by `s`; zero if there is no such pair. -/
noncomputable def meanCosine (a b : Matrix (Fin rings) (Fin sectors) ℝ) (s : Fin sectors) : ℝ :=
  (∑ j with BothNonzero (a.col (j - s), b.col j), cosine (a.col (j - s)) (b.col j)) /
    (Finset.univ.filter fun j => BothNonzero (a.col (j - s), b.col j)).card

/-- `numpy.roll` of the columns by any number, to the left if it is negative. -/
def rollBy [NeZero sectors] (n : ℤ) (sc : Matrix (Fin rings) (Fin sectors) ℝ) :
    Matrix (Fin rings) (Fin sectors) ℝ :=
  fun i j => sc i (Fin.ofNat sectors (((j : ℤ) - n) % sectors).toNat)

/-! ### The arrays -/

theorem norm_eq (sc : Matrix (Fin rings) (Fin sectors) ℝ) (j : Fin sectors) :
    norm sc j = √(sc.col j ⬝ᵥ sc.col j) := by
  unfold norm dotProduct
  congr 1
  exact Finset.sum_congr rfl fun i _ => sq (sc i j)

/-- A column is valid for the code when it is not zero. -/
theorem norm_pos_iff (sc : Matrix (Fin rings) (Fin sectors) ℝ) (j : Fin sectors) :
    norm sc j > 0 ↔ sc.col j ≠ 0 := by
  have hnonneg : 0 ≤ sc.col j ⬝ᵥ sc.col j :=
    Finset.sum_nonneg fun i _ => mul_self_nonneg (sc.col j i)
  rw [norm_eq, gt_iff_lt, Real.sqrt_pos, hnonneg.lt_iff_ne, ne_comm, ne_eq, dotProduct_self_eq_zero]

theorem engaged_iff (a b : Matrix (Fin rings) (Fin sectors) ℝ) (i j : Fin sectors) :
    Engaged a b i j ↔ BothNonzero (a.col i, b.col j) :=
  and_congr (norm_pos_iff a i) (norm_pos_iff b j)

open Classical in
theorem simForCols_eq (a b : Matrix (Fin rings) (Fin sectors) ℝ) (s : Fin sectors) :
    simForCols a b s = meanCosine a b s := by
  have hcounts : (Finset.univ.filter fun j => Engaged a b (j - s) j) =
      Finset.univ.filter fun j => BothNonzero (a.col (j - s), b.col j) :=
    Finset.filter_congr fun j _ => engaged_iff a b (j - s) j
  have hsums : ∑ j, cos a b (j - s) j =
      ∑ j with BothNonzero (a.col (j - s), b.col j), cosine (a.col (j - s)) (b.col j) := by
    rw [Finset.sum_filter]
    refine Finset.sum_congr rfl fun j _ => ?_
    unfold cos cosine
    rw [norm_eq, norm_eq]
    exact if_congr (engaged_iff a b (j - s) j) rfl rfl
  unfold simForCols meanCosine
  rw [hcounts, hsums]
  dsimp only
  split_ifs with hpos
  · rw [max_eq_left hpos]
  · -- no pair is engaged, and the code answers zero
    rw [Nat.eq_zero_of_not_pos hpos, Nat.cast_zero, div_zero]

/-! ### The alignments -/

section Columns

variable [NeZero sectors]

/-- The weight of the alignments of two descriptors. -/
noncomputable def similarityWeight (rings sectors : ℕ) [NeZero sectors] :
    BestShift.Weight (Fin sectors) (Fin rings → ℝ) ℝ :=
  BestShift.Weight.mean BothNonzero (fun e => cosine e.1 e.2) (fun _ => and_comm)
    fun e => cosine_comm e.1 e.2

theorem weigh_pairs (a b : Matrix (Fin rings) (Fin sectors) ℝ) (s : Fin sectors) :
    (similarityWeight rings sectors).weigh (BestShift.pairs a.col b.col s) = meanCosine a b s := rfl

theorem col_roll (r : Fin sectors) (sc : Matrix (Fin rings) (Fin sectors) ℝ) :
    (roll r sc).col = BestShift.shift r sc.col := rfl

/-- Only the remainder of the number matters. -/
theorem rollBy_eq (n : ℤ) (sc : Matrix (Fin rings) (Fin sectors) ℝ) :
    rollBy n sc = roll (Fin.ofNat sectors (n % sectors).toNat) sc := by
  have hpos : 0 < sectors := NeZero.pos sectors
  have hne : (sectors : ℤ) ≠ 0 := by omega
  ext i j
  show sc i _ = sc i _
  congr 1
  ext
  have hr : (n % sectors).toNat < sectors := by
    have hlt := Int.emod_lt_of_pos n (show (0 : ℤ) < sectors by omega)
    omega
  have hj : (((j : ℤ) - n) % sectors).toNat < sectors := by
    have hlt := Int.emod_lt_of_pos ((j : ℤ) - n) (show (0 : ℤ) < sectors by omega)
    omega
  rw [Fin.sub_def, Fin.val_ofNat, Fin.val_ofNat, Nat.mod_eq_of_lt hr, Nat.mod_eq_of_lt hj]
  have hn := Int.emod_nonneg n hne
  have hd := Int.emod_nonneg ((j : ℤ) - n) hne
  zify
  rw [Int.toNat_of_nonneg hd, Nat.cast_sub hr.le, Int.toNat_of_nonneg hn]
  have hmod : ((sectors : ℤ) - n % sectors + j) % sectors = ((j : ℤ) - n % sectors) % sectors := by
    rw [show (sectors : ℤ) - n % sectors + j = j - n % sectors + sectors by omega,
      Int.add_emod_right]
  rw [hmod, Int.sub_emod_emod]

/-- The distance as the best alignment of the columns. -/
theorem distanceSc_eq_best (a b : Matrix (Fin rings) (Fin sectors) ℝ) :
    (distanceSc a b).1 = 1 - BestShift.best (similarityWeight rings sectors) a.col b.col := by
  have hmax : (simForEachCols a b).max? =
      some (BestShift.best (similarityWeight rings sectors) a.col b.col) := by
    unfold BestShift.best
    refine List.max?_eq_some_iff.mpr ⟨?_, fun x hx => ?_⟩
    · obtain ⟨s, -, hs⟩ := Finset.exists_mem_eq_sup' (⟨0, Finset.mem_univ 0⟩ : Finset.Nonempty _)
        fun s => (similarityWeight rings sectors).weigh (BestShift.pairs a.col b.col s)
      exact mem_simForEachCols.mpr ⟨s, (simForCols_eq a b s).trans hs.symm⟩
    · obtain ⟨s, rfl⟩ := mem_simForEachCols.mp hx
      rw [simForCols_eq, ← weigh_pairs]
      exact Finset.le_sup' (fun s => (similarityWeight rings sectors).weigh
        (BestShift.pairs a.col b.col s)) (Finset.mem_univ s)
  unfold distanceSc
  rw [hmax]
  rfl

/-! ### The score -/

/-- **The distance is a shift-invariant symmetric score**: one minus the best mean cosine of the
nonzero columns over all shifts, the same for all rotations of either descriptor and in both
orders. -/
theorem distanceSc_score (a b : Matrix (Fin rings) (Fin sectors) ℝ) :
    (distanceSc a b).1 =
        1 - Finset.univ.sup' ⟨0, Finset.mem_univ 0⟩ (fun s => meanCosine a b s) ∧
      (∀ n, (distanceSc (rollBy n a) b).1 = (distanceSc a b).1) ∧
      (∀ n, (distanceSc a (rollBy n b)).1 = (distanceSc a b).1) ∧
      (distanceSc b a).1 = (distanceSc a b).1 := by
  refine ⟨distanceSc_eq_best a b, fun n => ?_, fun n => ?_, ?_⟩
  · rw [distanceSc_eq_best, distanceSc_eq_best, rollBy_eq, col_roll, BestShift.best_shift_left]
  · rw [distanceSc_eq_best, distanceSc_eq_best, rollBy_eq, col_roll, BestShift.best_shift_right]
  · rw [distanceSc_eq_best, distanceSc_eq_best, BestShift.best_comm]

/-- Two descriptors that share only some of their nonzero columns. -/
theorem distanceSc_score_two :
    (distanceSc (!![1, 0] : Matrix (Fin 1) (Fin 2) ℝ) !![1, 1]).1 =
        1 - Finset.univ.sup' ⟨0, Finset.mem_univ 0⟩
          (fun s => meanCosine (!![1, 0] : Matrix (Fin 1) (Fin 2) ℝ) !![1, 1] s) ∧
      (∀ n, (distanceSc (rollBy n (!![1, 0] : Matrix (Fin 1) (Fin 2) ℝ)) !![1, 1]).1 =
        (distanceSc (!![1, 0] : Matrix (Fin 1) (Fin 2) ℝ) !![1, 1]).1) ∧
      (∀ n, (distanceSc (!![1, 0] : Matrix (Fin 1) (Fin 2) ℝ) (rollBy n !![1, 1])).1 =
        (distanceSc (!![1, 0] : Matrix (Fin 1) (Fin 2) ℝ) !![1, 1]).1) ∧
      (distanceSc (!![1, 1] : Matrix (Fin 1) (Fin 2) ℝ) !![1, 0]).1 =
        (distanceSc (!![1, 0] : Matrix (Fin 1) (Fin 2) ℝ) !![1, 1]).1 :=
  distanceSc_score !![1, 0] !![1, 1]

end Columns

end RoverSwarm.ScanContext
