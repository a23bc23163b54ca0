import Mathlib.Data.List.Induction
import Mathlib.Data.List.Nodup
import Mathlib.Data.List.Sort
import Mathlib.Order.Defs.LinearOrder

/-!
# Ranking — the best entries of a list, best first

`IsBest f k es best`: the list `best` is what a sort of `es` by falling `f` has in its first `k`
places.  Several sorts may do, as equal entries can stand in any order; what is proved here holds
of all of them.  `Argsort` is a sort that returns positions.
-/

namespace Ranking

variable {α κ : Type*} [LinearOrder κ] {f : α → κ} {k : ℕ} {es best : List α}

/-- The first `k` of the entries sorted by falling `f`. -/
def IsBest (f : α → κ) (k : ℕ) (es best : List α) : Prop :=
  ∃ sorted : List α, sorted.Perm es ∧ (sorted.Pairwise fun a b => f b ≤ f a) ∧
    best = sorted.take k

namespace IsBest

theorem mem (h : IsBest f k es best) {b : α} (hb : b ∈ best) : b ∈ es := by
  obtain ⟨sorted, hperm, -, rfl⟩ := h
  exact hperm.mem_iff.mp (List.mem_of_mem_take hb)

theorem length (h : IsBest f k es best) : best.length = min k es.length := by
  obtain ⟨sorted, hperm, -, rfl⟩ := h
  rw [List.length_take, hperm.length_eq]

theorem pairwise (h : IsBest f k es best) : best.Pairwise fun a b => f b ≤ f a := by
  obtain ⟨sorted, -, hsorted, rfl⟩ := h
  exact hsorted.sublist (List.take_sublist k sorted)

/-- As many entries with a property as the list has. -/
theorem countP_le (h : IsBest f k es best) (p : α → Bool) : best.countP p ≤ es.countP p := by
  obtain ⟨sorted, hperm, -, rfl⟩ := h
  rw [← hperm.countP_eq]
  exact (List.take_sublist k sorted).countP_le

/-- An entry that is left out is no better than those that are not, and there are `k` of them. -/
theorem of_not_mem (h : IsBest f k es best) {e : α} (he : e ∈ es) (hnot : e ∉ best) :
    best.length = k ∧ ∀ b ∈ best, f e ≤ f b := by
  obtain ⟨sorted, hperm, hsorted, rfl⟩ := h
  have hdrop : e ∈ sorted.drop k := by
    have hmem := hperm.mem_iff.mpr he
    rw [← List.take_append_drop k sorted] at hmem
    exact (List.mem_append.mp hmem).resolve_left hnot
  have hlt : k < sorted.length := by
    have hpos := List.length_pos_of_mem hdrop
    rw [List.length_drop] at hpos
    omega
  refine ⟨List.length_take_of_le hlt.le, fun b hb => ?_⟩
  rw [← List.take_append_drop k sorted] at hsorted
  exact (List.pairwise_append.mp hsorted).2.2 b hb e hdrop

/-- The first one is the best of all. -/
theorem le_head (h : IsBest f k es best) {b : α} {rest : List α} (hbest : best = b :: rest)
    {e : α} (he : e ∈ es) : f e ≤ f b := by
  by_cases hmem : e ∈ best
  · have hpairwise := h.pairwise
    rw [hbest] at hmem hpairwise
    rcases List.mem_cons.mp hmem with rfl | hmem
    · exact le_rfl
    · exact (List.pairwise_cons.mp hpairwise).1 e hmem
  · exact (h.of_not_mem he hmem).2 b (hbest ▸ List.mem_cons_self)

/-- The best of entries that carry something else along. -/
theorem of_map {β : Type*} {g : β → α} {back : α → β} (hback : ∀ b, back (g b) = b) {es : List β}
    (h : IsBest f k (es.map g) best) : IsBest (f ∘ g) k es (best.map back) := by
  obtain ⟨sorted, hperm, hsorted, rfl⟩ := h
  refine ⟨sorted.map back, ?_, ?_, List.map_take⟩
  · have hmap := hperm.map back
    rwa [List.map_map, show back ∘ g = id from funext hback, List.map_id] at hmap
  · rw [List.pairwise_map]
    refine hsorted.imp_of_mem fun {a b} ha hb hab => ?_
    obtain ⟨c, -, rfl⟩ := List.mem_map.mp (hperm.mem_iff.mp ha)
    obtain ⟨d, -, rfl⟩ := List.mem_map.mp (hperm.mem_iff.mp hb)
    simpa [hback] using hab

/-! ### The first one that will do -/

/-- The first entry at or above `t` that passes `p` is the best of all that pass `p`. -/
theorem find?_eq_some (h : IsBest f k es best) {p : α → Bool} {t : κ} {b : α}
    (hfind : best.find? (fun e => p e && decide (t ≤ f e)) = some b) :
    b ∈ es ∧ p b = true ∧ t ≤ f b ∧ ∀ e ∈ es, p e = true → f e ≤ f b := by
  have hb := List.find?_some hfind
  rw [Bool.and_eq_true, decide_eq_true_iff] at hb
  refine ⟨h.mem (List.mem_of_find?_eq_some hfind), hb.1, hb.2, fun e he hp => ?_⟩
  by_cases hmem : e ∈ best
  · obtain ⟨-, pre, post, hsplit, hpre⟩ := List.find?_eq_some_iff_append.mp hfind
    have hpairwise := h.pairwise
    rw [hsplit] at hmem hpairwise
    rcases List.mem_append.mp hmem with hmem | hmem
    · -- an entry before the first one that will do fails, and passes `p`, so it is below `t`
      have hfail := hpre e hmem
      rw [hp, Bool.true_and, Bool.not_eq_true', decide_eq_false_iff_not, not_le] at hfail
      exact hfail.le.trans hb.2
    · rcases List.mem_cons.mp hmem with rfl | hmem
      · exact le_rfl
      · exact (List.pairwise_cons.mp (List.pairwise_append.mp hpairwise).2.1).1 e hmem
  · exact (h.of_not_mem he hmem).2 b (List.mem_of_find?_eq_some hfind)

/-- **If fewer than `k` entries fail `p`**, nothing that passes `p` is overlooked. -/
theorem find?_eq_none (h : IsBest f k es best) {p : α → Bool} {t : κ}
    (hfew : es.countP (fun e => !p e) < k)
    (hfind : best.find? (fun e => p e && decide (t ≤ f e)) = none) {e : α} (he : e ∈ es)
    (hp : p e = true) : f e < t := by
  rw [List.find?_eq_none] at hfind
  by_contra habove
  rw [not_lt] at habove
  have hnot : e ∉ best := by
    intro hmem
    refine hfind e hmem ?_
    rw [hp, Bool.true_and]
    exact decide_eq_true habove
  obtain ⟨hlength, hbelow⟩ := h.of_not_mem he hnot
  -- all `k` of them are at or above `t`, so all fail `p`
  have hall : best.countP (fun e => !p e) = best.length := by
    rw [List.countP_eq_length]
    intro b hb
    have hfail := hfind b hb
    rw [decide_eq_true (habove.trans (hbelow b hb)), Bool.and_true] at hfail
    rw [Bool.not_eq_true']
    exact Bool.eq_false_iff.mpr hfail
  have hle := h.countP_le fun e => !p e
  omega

end IsBest

/-! ### Sorting positions -/

/-- A sort of a list that returns the positions, the least entry first. -/
structure Argsort (κ : Type*) [LinearOrder κ] where
  run : List κ → List ℕ
  perm : ∀ w, (run w).Perm (List.range w.length)
  sorted : ∀ w, (run w).Pairwise fun i j => ∀ x y, w[i]? = some x → w[j]? = some y → x ≤ y

/-- The first `k` positions from the end of the sort. -/
def Argsort.greatest (A : Argsort κ) (w : List κ) (k : ℕ) : List ℕ := (A.run w).reverse.take k

theorem Argsort.lt_of_mem_greatest (A : Argsort κ) {w : List κ} {k i : ℕ}
    (hi : i ∈ A.greatest w k) : i < w.length :=
  List.mem_range.mp ((A.perm w).mem_iff.mp (List.mem_reverse.mp (List.mem_of_mem_take hi)))

theorem filterMap_getElem?_range (es : List α) :
    ((List.range es.length).filterMap fun i => es[i]?) = es := by
  induction es using List.reverseRecOn with
  | nil => rfl
  | append_singleton es e ih =>
    have hold : ((List.range es.length).filterMap fun i => (es ++ [e])[i]?) =
        (List.range es.length).filterMap fun i => es[i]? :=
      List.filterMap_congr fun i hi => List.getElem?_append_left (List.mem_range.mp hi)
    rw [List.length_append, List.length_singleton, List.range_succ, List.filterMap_append, hold, ih]
    simp

/-- All positions of a list within it pick as many entries. -/
theorem filterMap_take (es : List α) {idx : List ℕ} (hlt : ∀ i ∈ idx, i < es.length) (k : ℕ) :
    ((idx.take k).filterMap fun i => es[i]?) = (idx.filterMap fun i => es[i]?).take k := by
  induction idx generalizing k with
  | nil => simp
  | cons i idx ih =>
    have hi : es[i]? = some (es.get ⟨i, hlt i List.mem_cons_self⟩) := List.getElem?_eq_getElem _
    cases k with
    | zero => rfl
    | succ k =>
      rw [List.take_succ_cons, List.filterMap_cons_some hi, List.filterMap_cons_some hi,
        List.take_succ_cons, ih (fun j hj => hlt j (List.mem_cons_of_mem i hj))]

/-- The entries at the last positions of a sort by `f`. -/
def Argsort.pick (A : Argsort κ) (f : α → κ) (es : List α) (k : ℕ) : List α :=
  (A.greatest (es.map f) k).filterMap fun i => es[i]?

theorem Argsort.pick_map {β : Type*} (A : Argsort κ) (f : α → κ) (g : β → α) (es : List β) (k : ℕ) :
    A.pick f (es.map g) k = (A.pick (f ∘ g) es k).map g := by
  unfold Argsort.pick
  rw [List.map_map, List.map_filterMap]
  exact List.filterMap_congr fun i _ => List.getElem?_map

/-- **The entries at the last positions are the best ones.** -/
theorem Argsort.isBest (A : Argsort κ) (f : α → κ) (es : List α) (k : ℕ) :
    IsBest f k es (A.pick f es k) := by
  have hperm := A.perm (es.map f)
  rw [List.length_map] at hperm
  have hlt : ∀ i ∈ (A.run (es.map f)).reverse, i < es.length := fun i hi =>
    List.mem_range.mp (hperm.mem_iff.mp (List.mem_reverse.mp hi))
  refine ⟨(A.run (es.map f)).reverse.filterMap fun i => es[i]?, ?_, ?_, filterMap_take es hlt k⟩
  · have hpick := ((List.reverse_perm _).trans hperm).filterMap fun i => es[i]?
    rwa [filterMap_getElem?_range] at hpick
  · rw [List.pairwise_filterMap, List.pairwise_reverse]
    refine (A.sorted (es.map f)).imp fun {i j} hij b hb a ha => ?_
    exact hij (f a) (f b) (by rw [List.getElem?_map, ha, Option.map_some])
      (by rw [List.getElem?_map, hb, Option.map_some])

/-- The first component decides the order. -/
def fstLE (a b : κ × ℕ) : Prop := a.1 ≤ b.1

instance : DecidableRel (fstLE : κ × ℕ → κ × ℕ → Prop) := fun _ _ => inferInstanceAs (Decidable (_ ≤ _))

instance : Std.Total (fstLE : κ × ℕ → κ × ℕ → Prop) := ⟨fun a b => le_total a.1 b.1⟩

instance : IsTrans (κ × ℕ) fstLE := ⟨fun _ _ _ => le_trans⟩

/-- Sorting by insertion. -/
def Argsort.insertion : Argsort κ where
  run w := (w.zipIdx.insertionSort fstLE).map Prod.snd
  perm w := by
    have hperm := (List.perm_insertionSort fstLE w.zipIdx).map Prod.snd
    rwa [List.zipIdx_map_snd, ← List.range_eq_range'] at hperm
  sorted w := by
    rw [List.pairwise_map]
    refine (List.pairwise_insertionSort fstLE w.zipIdx).imp_of_mem fun {a b} ha hb hab x y hx hy => ?_
    have hax := List.mem_zipIdx_iff_getElem?.mp ((List.perm_insertionSort _ _).mem_iff.mp ha)
    have hby := List.mem_zipIdx_iff_getElem?.mp ((List.perm_insertionSort _ _).mem_iff.mp hb)
    obtain rfl := Option.some.inj (hax.symm.trans hx)
    obtain rfl := Option.some.inj (hby.symm.trans hy)
    exact hab

end Ranking
