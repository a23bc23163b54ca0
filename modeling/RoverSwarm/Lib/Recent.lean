import Mathlib.Algebra.Order.Group.Basic
import Mathlib.Data.Finset.Max

/-!
# Recent — sets that may forget what is old

`recent f w s` are the elements of `s` of which no other is more than `w` newer, by the times `f`.
A collection that drops old elements now and then, at moments of its own, *tracks* the set of all
that was put in: it holds every recent element and nothing that was not put in.  Then it has the
same recent elements as the whole set, whatever it still holds of the old ones.
-/

namespace Recent

variable {α β : Type*} [AddCommGroup β] [LinearOrder β] {f : α → β} {w : β}

/-- The elements at most `w` older than the newest. -/
def recent (f : α → β) (w : β) (s : Finset α) : Finset α :=
  s.filter fun a => ∀ b ∈ s, f b - w ≤ f a

@[simp] theorem mem_recent {s : Finset α} {a : α} :
    a ∈ recent f w s ↔ a ∈ s ∧ ∀ b ∈ s, f b - w ≤ f a := Finset.mem_filter

theorem recent_subset (s : Finset α) : recent f w s ⊆ s := Finset.filter_subset _ _

/-- The recent elements are those from the cutoff on, which is `w` before the newest time. -/
theorem recent_eq_filter [IsOrderedAddMonoid β] {s : Finset α} {m : α} (hm : m ∈ s)
    (hmax : ∀ b ∈ s, f b ≤ f m) : recent f w s = s.filter fun a => f m - w ≤ f a := by
  refine Finset.filter_congr fun a _ => ?_
  constructor
  · exact fun h => h m hm
  · intro h b hb
    have hb : f b - w ≤ f m - w := sub_le_sub_right (hmax b hb) w
    exact hb.trans h

/-- Elements that all lie within `w` are all recent. -/
theorem recent_eq_self {s : Finset α} (h : ∀ a ∈ s, ∀ b ∈ s, f b - w ≤ f a) : recent f w s = s :=
  Finset.filter_true_of_mem h

/-- `t` has all that is recent in `s`, and nothing else than what is in `s`. -/
structure Tracks (f : α → β) (w : β) (s t : Finset α) : Prop where
  recent_subset : recent f w s ⊆ t
  subset : t ⊆ s

namespace Tracks

variable {s t : Finset α}

theorem refl (s : Finset α) : Tracks f w s s := ⟨Recent.recent_subset s, Finset.Subset.refl s⟩

theorem insert [DecidableEq α] (h : Tracks f w s t) (a : α) :
    Tracks f w (insert a s) (insert a t) := by
  refine ⟨fun x hx => ?_, Finset.insert_subset_insert a h.subset⟩
  obtain ⟨hx, hrecent⟩ := mem_recent.mp hx
  rcases Finset.mem_insert.mp hx with rfl | hxs
  · exact Finset.mem_insert_self x t
  · refine Finset.mem_insert_of_mem (h.recent_subset (mem_recent.mpr ⟨hxs, fun b hb => ?_⟩))
    exact hrecent b (Finset.mem_insert_of_mem hb)

variable [IsOrderedAddMonoid β]

/-- **Agreement**: the recent elements are the same.  The newest element of `s` is in `t`, unless
`w` is negative and nothing is recent in either. -/
theorem recent_eq (h : Tracks f w s t) : recent f w t = recent f w s := by
  ext x
  rw [mem_recent, mem_recent]
  constructor
  · rintro ⟨hx, hxt⟩
    refine ⟨h.subset hx, fun b hb => ?_⟩
    obtain ⟨m, hm, hmax⟩ := s.exists_max_image f ⟨x, h.subset hx⟩
    have hbm : f b - w ≤ f m - w := sub_le_sub_right (hmax b hb) w
    refine hbm.trans (hxt m (h.recent_subset (mem_recent.mpr ⟨hm, fun c hc => ?_⟩)))
    have hw : 0 ≤ w := (sub_le_self_iff (f x)).mp (hxt x hx)
    exact (sub_le_self (f c) hw).trans (hmax c hc)
  · rintro ⟨hx, hxs⟩
    have hxt : x ∈ t := h.recent_subset (mem_recent.mpr ⟨hx, hxs⟩)
    exact ⟨hxt, fun b hb => hxs b (h.subset hb)⟩

/-- Forgetting all that is old. -/
theorem recent (h : Tracks f w s t) : Tracks f w s (Recent.recent f w t) := by
  refine ⟨?_, (Recent.recent_subset t).trans h.subset⟩
  rw [h.recent_eq]

end Tracks

end Recent
