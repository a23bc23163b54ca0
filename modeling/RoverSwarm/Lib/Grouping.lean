import Mathlib.Algebra.GroupWithZero.Nat
import Mathlib.Data.List.Count
import Mathlib.Data.List.Induction
import Mathlib.Data.List.Sort

/-!
# Grouping — the first items of every group, found by sorting

The items of a list fall into groups by their key.  A stable sort by the key puts every group
together in the order it had, so the rank of an item in its group is its position less the number
of items with smaller keys; keeping the ranks below `m` keeps the first `m` items of every group.
-/

namespace Grouping

variable {α : Type*} (key : α → ℕ)

/-- The stable sort by the key. -/
def sortByKey (l : List α) : List α := l.mergeSort fun a b => key a ≤ key b

/-- How many items of its group precede the item at position `k`. -/
def rank (l : List α) (k : ℕ) (a : α) : ℕ := (l.take k).countP fun b => key b = key a

/-- The items whose rank in their group is below `m`. -/
def firsts (m : ℕ) (l : List α) : List α :=
  (l.zipIdx.filter fun e => rank key l e.2 e.1 < m).map Prod.fst

variable {key}

/-! ### Sorting -/

theorem key_le_trans (a b c : α) (hab : decide (key a ≤ key b) = true)
    (hbc : decide (key b ≤ key c) = true) : decide (key a ≤ key c) = true :=
  decide_eq_true ((of_decide_eq_true hab).trans (of_decide_eq_true hbc))

theorem key_le_total (a b : α) : (decide (key a ≤ key b) || decide (key b ≤ key a)) = true := by
  rw [← Bool.decide_or]
  exact decide_eq_true (le_total (key a) (key b))

theorem pairwise_sortByKey (l : List α) :
    (sortByKey key l).Pairwise fun a b => key a ≤ key b :=
  (List.pairwise_mergeSort key_le_trans key_le_total l).imp of_decide_eq_true

theorem perm_sortByKey (l : List α) : (sortByKey key l).Perm l := List.mergeSort_perm _ _

/-- **The sort is stable**: a group keeps its order. -/
theorem filter_sortByKey (l : List α) (b : ℕ) :
    (sortByKey key l).filter (fun a => key a = b) = l.filter fun a => key a = b := by
  have hgroup : (l.filter fun a => key a = b).Pairwise fun a c => decide (key a ≤ key c) := by
    refine List.pairwise_of_forall_mem_list fun a ha c hc => ?_
    have hka := of_decide_eq_true (List.mem_filter.mp ha).2
    have hkc := of_decide_eq_true (List.mem_filter.mp hc).2
    exact decide_eq_true (by omega)
  have hsub : List.Sublist (l.filter fun a => key a = b) (sortByKey key l) :=
    List.sublist_mergeSort key_le_trans key_le_total hgroup List.filter_sublist
  have hfilter := hsub.filter fun a => decide (key a = b)
  rw [List.filter_filter] at hfilter
  simp only [Bool.and_self] at hfilter
  refine (hfilter.eq_of_length ?_).symm
  exact ((perm_sortByKey l).filter _).length_eq.symm

/-! ### Ranks -/

/-- In a sorted list, a position is the number of smaller keys and the rank in the group. -/
theorem position_eq {l : List α} (h : l.Pairwise fun a b => key a ≤ key b) {k : ℕ} {a : α}
    (hk : l[k]? = some a) : k = l.countP (fun b => key b < key a) + rank key l k a := by
  obtain ⟨hlt, hget⟩ := List.getElem?_eq_some_iff.mp hk
  have hdrop : l.drop k = a :: l.drop (k + 1) := hget ▸ List.drop_eq_getElem_cons hlt
  have hsplit : l = l.take k ++ a :: l.drop (k + 1) := by rw [← hdrop, List.take_append_drop]
  obtain ⟨-, hbehind, hbefore⟩ := List.pairwise_append.mp (hsplit ▸ h)
  have hnone : (a :: l.drop (k + 1)).countP (fun b => key b < key a) = 0 := by
    refine List.countP_eq_zero.mpr fun b hb => ?_
    have hle : key a ≤ key b := by
      rcases List.mem_cons.mp hb with rfl | hb
      · exact le_refl _
      · exact (List.pairwise_cons.mp hbehind).1 b hb
    simpa using hle
  have hsmaller : l.countP (fun b => key b < key a) =
      (l.take k).countP fun b => key b < key a := by
    conv_lhs => rw [hsplit, List.countP_append, hnone]
    rfl
  -- before the position no key is greater
  have hsame : (l.take k).countP (fun b => ¬ decide (key b < key a) = true) = rank key l k a := by
    refine List.countP_congr fun b hb => ?_
    have hle := hbefore b hb a List.mem_cons_self
    simp only [decide_eq_true_eq]
    omega
  have hlen : (l.take k).length = k := List.length_take_of_le hlt.le
  have hcount := List.length_eq_countP_add_countP (fun b => decide (key b < key a))
    (l := l.take k)
  omega

theorem countP_lt_succ (l : List ℕ) (b : ℕ) :
    l.countP (fun c => c < b + 1) = l.countP (fun c => c < b) + l.count b := by
  induction l with
  | nil => rfl
  | cons c l ih =>
    rw [List.countP_cons, List.countP_cons, List.count_cons, ih]
    simp only [decide_eq_true_eq, beq_iff_eq]
    split_ifs <;> omega

/-- The counts of the keys below `b`. -/
theorem sum_count_range (l : List ℕ) (b : ℕ) :
    ((List.range b).map fun c => l.count c).sum = l.countP fun c => c < b := by
  induction b with
  | zero => exact (List.countP_eq_zero.mpr fun c _ => by simp).symm
  | succ b ih =>
    rw [List.range_succ, List.map_append, List.sum_append, ih, countP_lt_succ, List.map_singleton,
      List.sum_singleton]

/-! ### The first of every group -/

theorem firsts_concat (m : ℕ) (l : List α) (a : α) :
    firsts key m (l ++ [a]) =
      firsts key m l ++ if l.countP (fun b => key b = key a) < m then [a] else [] := by
  unfold firsts
  rw [List.zipIdx_append, List.filter_append, List.map_append]
  congr 1
  · congr 1
    refine List.filter_congr fun e he => ?_
    have hlt : e.2 ≤ l.length := (List.mem_zipIdx' he).1.le
    unfold rank
    rw [List.take_append_of_le_length hlt]
  · have hrank : rank key (l ++ [a]) l.length a = l.countP fun b => key b = key a := by
      unfold rank
      rw [List.take_left]
    rw [List.zipIdx_singleton, Nat.zero_add, List.filter_singleton]
    dsimp only
    rw [hrank]
    by_cases hm : l.countP (fun b => key b = key a) < m
    · rw [if_pos hm, decide_eq_true hm]
      rfl
    · rw [if_neg hm, decide_eq_false hm]
      rfl

/-- Of every group the first `m` items are kept. -/
theorem filter_firsts (m b : ℕ) (l : List α) :
    (firsts key m l).filter (fun a => key a = b) =
      (l.filter fun a => key a = b).take m := by
  induction l using List.reverseRecOn with
  | nil => rw [List.filter_nil, List.take_nil, firsts, List.zipIdx_nil, List.filter_nil, List.map_nil,
      List.filter_nil]
  | append_singleton l a ih =>
    rw [firsts_concat, List.filter_append, List.filter_append, ih]
    by_cases hb : key a = b
    · have hlen : (l.filter fun c => key c = b).length = l.countP fun c => key c = key a := by
        rw [hb, List.countP_eq_length_filter]
      have hself : [a].filter (fun c => key c = b) = [a] :=
        List.filter_cons_of_pos (decide_eq_true hb)
      rw [hself, List.take_append]
      congr 1
      by_cases hm : l.countP (fun c => key c = key a) < m
      · rw [if_pos hm, hself]
        exact (List.take_of_length_le (by rw [List.length_singleton]; omega)).symm
      · rw [if_neg hm, List.filter_nil, Nat.sub_eq_zero_of_le (by omega), List.take_zero]
    · have hself : [a].filter (fun c => key c = b) = [] :=
        List.filter_cons_of_neg (by simpa using hb)
      have hnone : (if l.countP (fun c => key c = key a) < m then [a] else []).filter
          (fun c => key c = b) = [] := by
        split_ifs
        · exact hself
        · rfl
      rw [hnone, hself, List.append_nil, List.append_nil]

/-- Sorting first changes nothing. -/
theorem filter_firsts_sortByKey (key : α → ℕ) (m b : ℕ) (l : List α) :
    (firsts key m (sortByKey key l)).filter (fun a => key a = b) =
      (l.filter fun a => key a = b).take m := by
  rw [filter_firsts, filter_sortByKey]

end Grouping
