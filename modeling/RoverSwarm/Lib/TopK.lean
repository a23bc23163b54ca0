import Mathlib.Data.Finset.Card
import Mathlib.Data.List.GetD
import Mathlib.Data.List.Sort
import Mathlib.Data.Prod.Lex

/-!
# TopK — 0/1 vectors and the greatest entries of a list

Selecting entries of a list by a 0/1 vector, and the partial sort that finds the positions of the
`k` greatest entries.  A partial sort leaves open which of several equal entries it takes; `sorted`
is one that decides ties by a flag of the caller's choice.
-/

namespace TopK

/-! ### 0/1 vectors -/

/-- The positions of the ones, in order. -/
def ones (v : List Bool) : List ℕ := (List.range v.length).filter fun i => v.getD i false

/-- The vector of length `n` with ones at the positions `idx`. -/
def oneHot (n : ℕ) (idx : List ℕ) : List Bool := (List.range n).map fun i => decide (i ∈ idx)

/-- Write ones at the positions `idx`. -/
def setOnes (v : List Bool) (idx : List ℕ) : List Bool := idx.foldl (fun v i => v.set i true) v

theorem mem_ones {v : List Bool} {i : ℕ} : i ∈ ones v ↔ v.getD i false = true := by
  rw [ones, List.mem_filter, List.mem_range]
  refine ⟨And.right, fun h => ⟨?_, h⟩⟩
  by_contra hlt
  rw [List.getD_eq_default _ _ (not_lt.mp hlt)] at h
  exact Bool.false_ne_true h

theorem lt_of_mem_ones {v : List Bool} {i : ℕ} (h : i ∈ ones v) : i < v.length :=
  List.mem_range.mp (List.mem_filter.mp h).1

theorem nodup_ones (v : List Bool) : (ones v).Nodup := List.nodup_range.filter _

theorem length_ones_le (v : List Bool) : (ones v).length ≤ v.length :=
  (List.length_filter_le _ _).trans_eq List.length_range

/-- Counting ones by listing them. -/
theorem length_ones {v : List Bool} {l : List ℕ} (hl : l.Nodup) (h : ∀ i, i ∈ ones v ↔ i ∈ l) :
    (ones v).length = l.length :=
  ((List.perm_ext_iff_of_nodup (nodup_ones v) hl).mpr h).length_eq

@[simp] theorem length_oneHot (n : ℕ) (idx : List ℕ) : (oneHot n idx).length = n := by
  simp [oneHot]

theorem mem_ones_oneHot {n i : ℕ} {idx : List ℕ} : i ∈ ones (oneHot n idx) ↔ i < n ∧ i ∈ idx := by
  rw [mem_ones, oneHot, List.getD_eq_getElem?_getD, List.getElem?_map]
  by_cases hi : i < n
  · rw [List.getElem?_range hi]
    simp [hi]
  · rw [List.getElem?_eq_none (by simpa using hi)]
    simp [hi]

theorem length_ones_oneHot {n : ℕ} {idx : List ℕ} (hnodup : idx.Nodup) (hlt : ∀ i ∈ idx, i < n) :
    (ones (oneHot n idx)).length = idx.length := by
  refine length_ones hnodup fun i => mem_ones_oneHot.trans ?_
  exact ⟨And.right, fun hi => ⟨hlt i hi, hi⟩⟩

theorem mem_ones_set {v : List Bool} {i j : ℕ} (hj : j < v.length) :
    i ∈ ones (v.set j true) ↔ i = j ∨ i ∈ ones v := by
  rw [mem_ones, mem_ones, List.getD_eq_getElem?_getD, List.getElem?_set]
  by_cases h : j = i
  · subst h
    simp [hj]
  · rw [if_neg h, ← List.getD_eq_getElem?_getD, or_iff_right fun h' => h h'.symm]

/-- Setting a zero adds a one. -/
theorem length_ones_set {v : List Bool} {j : ℕ} (hj : j < v.length) (h0 : v.getD j false = false) :
    (ones (v.set j true)).length = (ones v).length + 1 := by
  have hnotin : j ∉ ones v := by
    rw [mem_ones, h0]
    exact Bool.false_ne_true
  refine length_ones (l := j :: ones v) (List.nodup_cons.mpr ⟨hnotin, nodup_ones v⟩) fun i => ?_
  rw [mem_ones_set hj, List.mem_cons]

@[simp] theorem length_setOnes (v : List Bool) (idx : List ℕ) :
    (setOnes v idx).length = v.length := by
  induction idx generalizing v with
  | nil => rfl
  | cons i idx ih => exact (ih (v.set i true)).trans List.length_set

theorem mem_ones_setOnes {v : List Bool} {idx : List ℕ} (hlt : ∀ i ∈ idx, i < v.length) {i : ℕ} :
    i ∈ ones (setOnes v idx) ↔ i ∈ ones v ∨ i ∈ idx := by
  induction idx generalizing v with
  | nil => simp [setOnes]
  | cons j idx ih =>
    have hj : j < v.length := hlt j List.mem_cons_self
    have hset : i ∈ ones (setOnes (v.set j true) idx) ↔ i ∈ ones (v.set j true) ∨ i ∈ idx :=
      ih fun k hk => by
        rw [List.length_set]
        exact hlt k (List.mem_cons_of_mem _ hk)
    show i ∈ ones (setOnes (v.set j true) idx) ↔ _
    rw [hset, mem_ones_set hj, List.mem_cons]
    tauto

theorem toFinset_ones_oneHot {n : ℕ} {idx : List ℕ} (hlt : ∀ i ∈ idx, i < n) :
    (ones (oneHot n idx)).toFinset = idx.toFinset := by
  ext i
  rw [List.mem_toFinset, List.mem_toFinset, mem_ones_oneHot]
  exact ⟨And.right, fun hi => ⟨hlt i hi, hi⟩⟩

/-- The ones after writing `idx` over a vector. -/
theorem card_ones_setOnes {v : List Bool} {idx : List ℕ} (hlt : ∀ i ∈ idx, i < v.length) :
    (ones (setOnes v idx)).length = ((ones v).toFinset ∪ idx.toFinset).card := by
  rw [← List.toFinset_card_of_nodup (nodup_ones _)]
  congr 1
  ext i
  rw [List.mem_toFinset, mem_ones_setOnes hlt, Finset.mem_union, List.mem_toFinset,
    List.mem_toFinset]

/-- Two lists together have as many members as entries if neither repeats one of its own nor of the
other. -/
theorem card_union_eq_length_iff {S D : List ℕ} (hS : S.Nodup) :
    (S.toFinset ∪ D.toFinset).card = S.length + D.length ↔
      D.Nodup ∧ ∀ i ∈ S, i ∉ D := by
  have hcard : (S ++ D).toFinset.card = (S ++ D).length ↔ (S ++ D).Nodup :=
    Multiset.toFinset_card_eq_card_iff_nodup (m := ((S ++ D : List ℕ) : Multiset ℕ))
  rw [← List.toFinset_append, ← List.length_append, hcard, List.nodup_append]
  constructor
  · exact fun ⟨_, hD, hne⟩ => ⟨hD, fun i hi hi' => hne i hi i hi' rfl⟩
  · exact fun ⟨hD, hnot⟩ => ⟨hS, hD, fun i hi j hj heq => hnot i hi (heq ▸ hj)⟩

/-! ### The greatest entries -/

variable {α κ : Type*} [LinearOrder κ] [Inhabited κ]

/-- The last `k` entries of a list, as a slice from the negative index `-k`: for `k = 0` this index
is the first one, and the slice is the whole list. -/
def lastSlice (k : ℕ) (l : List α) : List α := if k = 0 then l else l.drop (l.length - k)

/-- A partial sort: the positions of the list, such that position `kth` of the result is the one a
sort would put there, with nothing greater before it and nothing smaller behind it. -/
structure Argpartition (κ : Type*) [LinearOrder κ] [Inhabited κ] where
  run : List κ → ℕ → List ℕ
  perm : ∀ (w : List κ) (kth : ℕ), kth < w.length → (run w kth).Perm (List.range w.length)
  before : ∀ (w : List κ) (kth : ℕ), kth < w.length → ∀ i ∈ (run w kth).take kth,
    w.getD i default ≤ w.getD ((run w kth).getD kth 0) default
  behind : ∀ (w : List κ) (kth : ℕ), kth < w.length → ∀ i ∈ (run w kth).drop kth,
    w.getD ((run w kth).getD kth 0) default ≤ w.getD i default

/-- `S` are the positions of `k` greatest entries. -/
structure Greatest (w : List κ) (k : ℕ) (S : List ℕ) : Prop where
  nodup : S.Nodup
  length : S.length = k
  lt : ∀ i ∈ S, i < w.length
  le : ∀ i ∈ S, ∀ j < w.length, j ∉ S → w.getD j default ≤ w.getD i default

/-- **The last `k` positions of a partial sort** around `n - k` are those of `k` greatest. -/
theorem Argpartition.greatest (A : Argpartition κ) {w : List κ} {k : ℕ} (hk : 0 < k)
    (hkn : k ≤ w.length) : Greatest w k (lastSlice k (A.run w (w.length - k))) := by
  have hlt : w.length - k < w.length := by omega
  have hperm := A.perm w _ hlt
  have hlen : (A.run w (w.length - k)).length = w.length := by
    rw [hperm.length_eq, List.length_range]
  have hslice : lastSlice k (A.run w (w.length - k)) =
      (A.run w (w.length - k)).drop (w.length - k) := by
    rw [lastSlice, if_neg hk.ne', hlen]
  have hnodup : (A.run w (w.length - k)).Nodup := hperm.nodup_iff.mpr List.nodup_range
  rw [hslice]
  refine ⟨hnodup.sublist (List.drop_sublist _ _), ?_, fun i hi => ?_, fun i hi j hj hnotin => ?_⟩
  · rw [List.length_drop, hlen]
    omega
  · exact List.mem_range.mp (hperm.mem_iff.mp (List.mem_of_mem_drop hi))
  · have hmem : j ∈ A.run w (w.length - k) := hperm.mem_iff.mpr (List.mem_range.mpr hj)
    rw [← List.take_append_drop (w.length - k) (A.run w (w.length - k))] at hmem
    have htake := (List.mem_append.mp hmem).resolve_right hnotin
    exact (A.before w _ hlt j htake).trans (A.behind w _ hlt i hi)

/-- If there are `k` entries above `t`, then `k` greatest entries are above `t`. -/
theorem Greatest.above {w : List κ} {k : ℕ} {S : List ℕ} (h : Greatest w k S) {t : κ}
    (hcount : k ≤ ((Finset.range w.length).filter fun j => t < w.getD j default).card) :
    ∀ i ∈ S, t < w.getD i default := by
  intro i hi
  by_contra hle
  have hsub : ((Finset.range w.length).filter fun j => t < w.getD j default) ⊆
      S.toFinset.erase i := by
    intro j hj
    obtain ⟨hj, habove⟩ := Finset.mem_filter.mp hj
    have hmem : j ∈ S := by
      by_contra hnotin
      exact hle (habove.trans_le (h.le i hi j (Finset.mem_range.mp hj) hnotin))
    refine Finset.mem_erase.mpr ⟨fun heq => ?_, List.mem_toFinset.mpr hmem⟩
    exact hle (heq ▸ habove)
  have hcard := Finset.card_le_card hsub
  rw [Finset.card_erase_of_mem (List.mem_toFinset.mpr hi), List.toFinset_card_of_nodup h.nodup,
    h.length] at hcard
  have hpos : 0 < k := h.length ▸ List.length_pos_of_mem hi
  omega

/-! ### A partial sort with a choice among equals -/

/-- Position `i` goes before position `j`: its entry is smaller, or equal and its flag not above. -/
def ranked (w : List κ) (tie : ℕ → Bool) (i j : ℕ) : Bool :=
  decide (toLex (w.getD i default, tie i) ≤ toLex (w.getD j default, tie j))

omit [Inhabited κ] in
/-- A list sorted by the key `f`. -/
theorem pairwise_mergeSort_key (f : α → κ) (l : List α) :
    (l.mergeSort fun a b => decide (f a ≤ f b)).Pairwise fun a b => f a ≤ f b := by
  have hsorted : (l.mergeSort fun a b => decide (f a ≤ f b)).Pairwise
      fun a b => decide (f a ≤ f b) = true := by
    apply List.pairwise_mergeSort
    · intro a b c hab hbc
      exact decide_eq_true ((of_decide_eq_true hab).trans (of_decide_eq_true hbc))
    · intro a b
      rw [Bool.or_eq_true]
      exact (le_total _ _).imp decide_eq_true decide_eq_true
  exact hsorted.imp of_decide_eq_true

theorem pairwise_ranked (w : List κ) (tie : ℕ → Bool) :
    ((List.range w.length).mergeSort (ranked w tie)).Pairwise fun i j => ranked w tie i j :=
  (pairwise_mergeSort_key (fun i => toLex (w.getD i default, tie i)) _).imp decide_eq_true

theorem le_of_ranked {w : List κ} {tie : ℕ → Bool} {i j : ℕ} (h : ranked w tie i j = true) :
    w.getD i default ≤ w.getD j default := by
  rcases Prod.Lex.toLex_le_toLex.mp (of_decide_eq_true h) with hlt | ⟨heq, -⟩
  · exact hlt.le
  · exact heq.le

/-- Sort the positions; among equal entries those with the flag come last. -/
def sorted (tie : ℕ → Bool) : Argpartition κ where
  run w _ := (List.range w.length).mergeSort (ranked w tie)
  perm w _ _ := List.mergeSort_perm _ _
  before w kth hkth i hi := by
    have hlen : kth < ((List.range w.length).mergeSort (ranked w tie)).length := by
      simpa using hkth
    have hsorted := pairwise_ranked w tie
    rw [← List.take_append_drop kth ((List.range w.length).mergeSort (ranked w tie))] at hsorted
    refine le_of_ranked ((List.pairwise_append.mp hsorted).2.2 i hi _ ?_)
    rw [List.getD_eq_getElem _ _ hlen, List.drop_eq_getElem_cons hlen]
    exact List.mem_cons_self
  behind w kth hkth i hi := by
    have hlen : kth < ((List.range w.length).mergeSort (ranked w tie)).length := by
      simpa using hkth
    have hsorted := (pairwise_ranked w tie).drop (i := kth)
    rw [List.drop_eq_getElem_cons hlen] at hsorted hi
    rw [List.getD_eq_getElem _ _ hlen]
    rcases List.mem_cons.mp hi with rfl | hi
    · exact le_rfl
    · exact le_of_ranked ((List.pairwise_cons.mp hsorted).1 i hi)

/-- What `sorted` leaves out is smaller, or equal with a flag that is not above. -/
theorem sorted_last {w : List κ} {tie : ℕ → Bool} {k : ℕ} (hk : 0 < k) {i j : ℕ}
    (hi : i ∈ lastSlice k ((sorted tie).run w (w.length - k))) (hj : j < w.length)
    (hnotin : j ∉ lastSlice k ((sorted tie).run w (w.length - k))) : ranked w tie j i = true := by
  rw [lastSlice, if_neg hk.ne'] at hi hnotin
  have hmem : j ∈ (sorted tie).run w (w.length - k) :=
    (List.mergeSort_perm _ _).mem_iff.mpr (List.mem_range.mpr hj)
  have hsorted := pairwise_ranked w tie
  rw [← List.take_append_drop (((sorted tie).run w (w.length - k)).length - k)
    ((sorted tie).run w (w.length - k))] at hmem
  have htake := (List.mem_append.mp hmem).resolve_right hnotin
  rw [← List.take_append_drop (((sorted tie).run w (w.length - k)).length - k)
    ((List.range w.length).mergeSort (ranked w tie))] at hsorted
  exact (List.pairwise_append.mp hsorted).2.2 j htake i hi

end TopK
