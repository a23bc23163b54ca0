import Mathlib.Algebra.BigOperators.Fin
import Mathlib.Algebra.Field.Basic
import Mathlib.Algebra.Group.Units.Equiv
import Mathlib.Data.Finset.Lattice.Fold

/-!
# BestShift — comparing cyclic sequences at their best alignment

Two sequences over a finite commutative group, such as the places around a circle, are paired at
every shift of the first, and each pairing is weighed.  When the weight does not see where a pair
stands nor which member of it comes first, the best weight depends on neither the starting places
of the sequences nor their order.
-/

namespace BestShift

variable {G E R : Type*} [AddCommGroup G]

/-- A sequence moved by `r`. -/
def shift (r : G) (u : G → E) : G → E := fun j => u (j - r)

/-- The pairs of `u`, moved by `s`, with `v`. -/
def pairs (u v : G → E) (s : G) : G → E × E := fun j => (u (j - s), v j)

theorem pairs_shift_left (u v : G → E) (r s : G) : pairs (shift r u) v s = pairs u v (s + r) := by
  funext j
  show (u (j - s - r), v j) = (u (j - (s + r)), v j)
  rw [sub_sub]

theorem pairs_shift_right (u v : G → E) (r s : G) :
    pairs u (shift r v) s = shift r (pairs u v (s - r)) := by
  funext j
  show (u (j - s), v (j - r)) = (u (j - r - (s - r)), v (j - r))
  rw [sub_sub_sub_cancel_right]

theorem pairs_swap (u v : G → E) (s : G) :
    pairs v u s = shift s (Prod.swap ∘ pairs u v (-s)) := by
  funext j
  show (v (j - s), u j) = (v (j - s), u (j - s - -s))
  rw [sub_neg_eq_add, sub_add_cancel]

/-- A weight of pairings that sees neither the places nor the order of the pairs. -/
structure Weight (G E R : Type*) [AddCommGroup G] where
  weigh : (G → E × E) → R
  weigh_shift : ∀ r p, weigh (shift r p) = weigh p
  weigh_swap : ∀ p, weigh (Prod.swap ∘ p) = weigh p

section Mean

variable [Fintype G] [Field R]

open Classical in
/-- The mean of `f` over the pairs that satisfy `P`, zero if there is none. -/
noncomputable def mean (P : E × E → Prop) (f : E × E → R) (p : G → E × E) : R :=
  (∑ j with P (p j), f (p j)) / (Finset.univ.filter fun j => P (p j)).card

variable {P : E × E → Prop} {f : E × E → R}

open Classical in
theorem mean_shift (r : G) (p : G → E × E) : mean P f (shift r p) = mean P f p := by
  unfold mean
  rw [Finset.sum_filter, Finset.sum_filter, Finset.card_filter, Finset.card_filter]
  have hsum : (∑ j, if P (shift r p j) then f (shift r p j) else 0) =
      ∑ j, if P (p j) then f (p j) else 0 :=
    Equiv.sum_comp (Equiv.subRight r) fun j => if P (p j) then f (p j) else 0
  have hcard : (∑ j, if P (shift r p j) then 1 else 0) = ∑ j, if P (p j) then 1 else 0 :=
    Equiv.sum_comp (Equiv.subRight r) fun j => if P (p j) then 1 else 0
  rw [hsum, hcard]

omit [AddCommGroup G] in
open Classical in
theorem mean_swap (hP : ∀ e, P e.swap ↔ P e) (hf : ∀ e, f e.swap = f e) (p : G → E × E) :
    mean P f (Prod.swap ∘ p) = mean P f p := by
  have hfilter : (Finset.univ.filter fun j => P (p j).swap) = Finset.univ.filter fun j => P (p j) :=
    Finset.filter_congr fun j _ => hP (p j)
  have hsum : ∑ j with P (p j).swap, f (p j).swap = ∑ j with P (p j), f (p j) := by
    rw [hfilter]
    exact Finset.sum_congr rfl fun j _ => hf (p j)
  unfold mean
  exact congrArg₂ (· / ·) hsum (congrArg (fun s : Finset G => (s.card : R)) hfilter)

/-- The mean of a symmetric score. -/
noncomputable def Weight.mean (P : E × E → Prop) (f : E × E → R) (hP : ∀ e, P e.swap ↔ P e)
    (hf : ∀ e, f e.swap = f e) : Weight G E R where
  weigh := BestShift.mean P f
  weigh_shift := mean_shift
  weigh_swap := mean_swap hP hf

end Mean

section Best

variable [Fintype G] [LinearOrder R] (w : Weight G E R) (u v : G → E)

/-- The best weight over all shifts. -/
def best : R := Finset.univ.sup' ⟨0, Finset.mem_univ 0⟩ fun s => w.weigh (pairs u v s)

variable {w u v}

theorem best_le_best {u' v' : G → E}
    (h : ∀ s, ∃ s', w.weigh (pairs u v s) = w.weigh (pairs u' v' s')) :
    best w u v ≤ best w u' v' := by
  refine Finset.sup'_le _ _ fun s _ => ?_
  obtain ⟨s', hs'⟩ := h s
  rw [hs']
  exact Finset.le_sup' (fun s => w.weigh (pairs u' v' s)) (Finset.mem_univ s')

theorem best_shift_left (r : G) : best w (shift r u) v = best w u v := by
  refine le_antisymm (best_le_best fun s => ⟨s + r, ?_⟩) (best_le_best fun s => ⟨s - r, ?_⟩)
  · rw [pairs_shift_left]
  · rw [pairs_shift_left, sub_add_cancel]

theorem best_shift_right (r : G) : best w u (shift r v) = best w u v := by
  refine le_antisymm (best_le_best fun s => ⟨s - r, ?_⟩) (best_le_best fun s => ⟨s + r, ?_⟩)
  · rw [pairs_shift_right, w.weigh_shift]
  · rw [pairs_shift_right, w.weigh_shift, add_sub_cancel_right]

theorem best_comm : best w v u = best w u v := by
  refine le_antisymm (best_le_best fun s => ⟨-s, ?_⟩) (best_le_best fun s => ⟨-s, ?_⟩)
  · rw [pairs_swap, w.weigh_shift, w.weigh_swap]
  · rw [pairs_swap, w.weigh_shift, w.weigh_swap]

end Best

end BestShift
