import Mathlib.Algebra.Order.Group.Unbundled.Abs
import Mathlib.Algebra.Order.Ring.Defs

/-!
# Rounding — the numbers of a floating-point format

Every operation of a format gives its exact result, rounded.  All that is asked of the rounding is
that it keeps the order and leaves zero, and what it has rounded, as they are.  That is enough for
distances: what is farther off along every axis has no smaller sum of squares, as computed.
Results that overflow are left out.
-/

structure Rounding (K : Type*) [Preorder K] [Zero K] where
  round : K → K
  mono : Monotone round
  round_zero : round 0 = 0
  round_round : ∀ x, round (round x) = round x

namespace Rounding

instance {K : Type*} [Preorder K] [Zero K] : CoeFun (Rounding K) fun _ => K → K := ⟨round⟩

/-- Nothing is rounded. -/
def exact (K : Type*) [Preorder K] [Zero K] : Rounding K := ⟨id, monotone_id, rfl, fun _ => rfl⟩

section Zero

variable {K : Type*} [Preorder K] [Zero K] (fl : Rounding K) {x : K}

theorem nonneg (h : 0 ≤ x) : 0 ≤ fl x := fl.round_zero.symm.trans_le (fl.mono h)

theorem nonpos (h : x ≤ 0) : fl x ≤ 0 := (fl.mono h).trans_eq fl.round_zero

end Zero

section Ring

variable {K : Type*} [CommRing K] [LinearOrder K] (fl : Rounding K) {x y z acc acc' : K}

/-- Up to `bound`, rounding changes a value by `ε` at most. -/
def Within (bound ε : K) : Prop := ∀ x, |x| ≤ bound → |fl x - x| ≤ ε

/-- The square of a difference. -/
def sqDiff (x y : K) : K := fl (fl (x - y) * fl (x - y))

/-- A square that is added to a sum of squares. -/
def addSq (acc x y : K) : K := fl (acc + fl.sqDiff x y)

theorem addSq_zero (x y : K) : fl.addSq 0 x y = fl.sqDiff x y := by
  unfold addSq sqDiff
  rw [zero_add, fl.round_round]

theorem round_addSq (acc x y : K) : fl (fl.addSq acc x y) = fl.addSq acc x y := fl.round_round _

variable [IsOrderedRing K]

theorem exact_within (bound : K) : (exact K).Within bound 0 := fun x _ => by
  rw [show exact K x = x from rfl, sub_self, abs_zero]

theorem sqDiff_nonneg (x y : K) : 0 ≤ fl.sqDiff x y := fl.nonneg (mul_self_nonneg _)

/-- Farther above. -/
theorem sqDiff_le_of_le (hxy : x ≤ y) (hyz : y ≤ z) : fl.sqDiff x y ≤ fl.sqDiff x z := by
  have hnear : fl (x - y) ≤ 0 := fl.nonpos (sub_nonpos.mpr hxy)
  have hfar : fl (x - z) ≤ fl (x - y) := fl.mono (sub_le_sub_left hyz x)
  exact fl.mono (mul_le_mul_of_nonpos_of_nonpos hfar hfar (hfar.trans hnear) hnear)

/-- Farther below. -/
theorem sqDiff_le_of_ge (hyx : y ≤ x) (hzy : z ≤ y) : fl.sqDiff x y ≤ fl.sqDiff x z := by
  have hnear : 0 ≤ fl (x - y) := fl.nonneg (sub_nonneg.mpr hyx)
  have hfar : fl (x - y) ≤ fl (x - z) := fl.mono (sub_le_sub_left hzy x)
  exact fl.mono (mul_self_le_mul_self hnear hfar)

theorem addSq_mono (hacc : acc ≤ acc') (h : fl.sqDiff x y ≤ fl.sqDiff x z) :
    fl.addSq acc x y ≤ fl.addSq acc' x z :=
  fl.mono (add_le_add hacc h)

theorem le_addSq (h : fl acc = acc) (x y : K) : acc ≤ fl.addSq acc x y :=
  h.symm.trans_le (fl.mono (le_add_of_nonneg_right (fl.sqDiff_nonneg x y)))

end Ring

end Rounding
