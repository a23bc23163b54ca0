import Mathlib.Algebra.BigOperators.Fin
import Mathlib.Algebra.Group.Fin.Basic
import Mathlib.Analysis.Real.Sqrt
import Mathlib.LinearAlgebra.Matrix.Defs
import RoverSwarm.Lib.Dict
import RoverSwarm.Lib.TopK
import RoverSwarm.Lib.Walk

/-!
# ScanContext — matching of lidar descriptors

A descriptor has a row for every ring and a column for every sector around the lidar.  Candidates
are found by the means of the rows and compared over all shifts of the columns; a rotation of the
lidar shifts the columns, which changes neither.  Arithmetic is exact, in the reals.
-/

namespace RoverSwarm.ScanContext

open Matrix TopK

variable {rings sectors : ℕ} {ι : Type*}

noncomputable section

/-! ### scancontext_utils -/

/-- `sc2rk`: the means of the rings. -/
def sc2rk (sc : Matrix (Fin rings) (Fin sectors) ℝ) : Fin rings → ℝ :=
  fun i => (∑ j, sc i j) / sectors

/-- The norms of the columns. -/
def norm (sc : Matrix (Fin rings) (Fin sectors) ℝ) (j : Fin sectors) : ℝ := √(∑ i, sc i j ^ 2)

/-- Both columns have an entry that is not zero. -/
def Engaged (sc1 sc2 : Matrix (Fin rings) (Fin sectors) ℝ) (a b : Fin sectors) : Prop :=
  norm sc1 a > 0 ∧ norm sc2 b > 0

instance (sc1 sc2 : Matrix (Fin rings) (Fin sectors) ℝ) (a b : Fin sectors) :
    Decidable (Engaged sc1 sc2 a b) :=
  inferInstanceAs (Decidable (_ ∧ _))

/-- The cosine similarity of two columns, zero unless both are engaged. -/
def cos (sc1 sc2 : Matrix (Fin rings) (Fin sectors) ℝ) (a b : Fin sectors) : ℝ :=
  if Engaged sc1 sc2 a b then (∑ i, sc1 i a * sc2 i b) / (norm sc1 a * norm sc2 b) else 0

section Distance

variable [NeZero sectors] (sc1 sc2 : Matrix (Fin rings) (Fin sectors) ℝ)

/-- The mean similarity of the engaged columns, with `sc1` shifted to the right by `s`. -/
def simForCols (s : Fin sectors) : ℝ :=
  let counts := (Finset.univ.filter fun j => Engaged sc1 sc2 (j - s) j).card
  let sums := ∑ j, cos sc1 sc2 (j - s) j
  if counts > 0 then sums / (max counts 1 : ℕ) else 0

/-- `sim_for_each_cols`, for the shifts from 1 to the number of sectors. -/
def simForEachCols : List ℝ :=
  (List.range sectors).map fun i => simForCols sc1 sc2 (Fin.ofNat sectors (i + 1))

/-- `distance_sc`: the distance at the best shift, and the first such shift. -/
def distanceSc : ℝ × ℕ :=
  let sim := (simForEachCols sc1 sc2).max?.getD 0
  (1 - sim, (simForEachCols sc1 sc2).idxOf sim + 1)

end Distance

/-! ### The KD-tree -/

def euclidean (a b : Fin rings → ℝ) : ℝ := √(∑ i, (a i - b i) ^ 2)

/-- `scipy.spatial.KDTree` over ring keys: the positions of the `k` nearest ones.  Which of several
equally far keys it takes is left open, but fixed. -/
structure KDTree (rings : ℕ) where
  query : List (Fin rings → ℝ) → (Fin rings → ℝ) → ℕ → List ℕ
  nearest : ∀ (data : List (Fin rings → ℝ)) (x : Fin rings → ℝ) (k : ℕ), 0 < k →
    k ≤ data.length → Greatest (data.map fun key => -euclidean key x) k (query data x k)

/-- The nearest keys by sorting all of them, the nearest first. -/
def KDTree.sorting (rings : ℕ) : KDTree rings where
  query data x k :=
    let w := data.map fun key => -euclidean key x
    (lastSlice k ((sorted fun _ => false).run w (w.length - k))).reverse
  nearest data x k hk hkn := by
    have h := (sorted fun _ => false).greatest (w := data.map fun key => -euclidean key x) hk
      (by rwa [List.length_map])
    refine ⟨List.nodup_reverse.mpr h.nodup, ?_, fun i hi => ?_, fun i hi j hj hnotin => ?_⟩
    · rw [List.length_reverse, h.length]
    · exact h.lt i (List.mem_reverse.mp hi)
    · exact h.le i (List.mem_reverse.mp hi) j hj fun hmem => hnotin (List.mem_reverse.mpr hmem)

/-! ### scancontext_matching -/

/-- A flat descriptor; numpy refuses to reshape one of another size. -/
abbrev Descriptor (rings sectors : ℕ) := Fin (rings * sectors) → ℝ

/-- `reshape`, row by row. -/
def reshape (d : Descriptor rings sectors) : Matrix (Fin rings) (Fin sectors) ℝ :=
  fun i j => d (finProdFinEquiv (i, j))

/-- `ScanContextMatching`, of the shape `rings × sectors`. -/
structure ScanContextMatching (rings sectors : ℕ) (ι : Type*) where
  numCandidates : ℕ := 10
  scancontexts : List (Matrix (Fin rings) (Fin sectors) ℝ) := List.replicate 1000 0
  ringkeys : List (Fin rings → ℝ) := List.replicate 1000 0
  items : Dict ℕ ι := ∅
  nbItems : ℕ := 0

/-- `ndarray.resize` of the first dimension: what is new is zero. -/
def resize {α : Type*} [Zero α] (l : List α) (n : ℕ) : List α :=
  l.take n ++ List.replicate (n - l.length) 0

namespace ScanContextMatching

/-- Double the arrays if they are full. -/
def makeRoom (s : ScanContextMatching rings sectors ι) : ScanContextMatching rings sectors ι :=
  if s.nbItems ≥ s.ringkeys.length then
    { s with
      scancontexts := resize s.scancontexts (2 * s.scancontexts.length)
      ringkeys := resize s.ringkeys (2 * s.ringkeys.length) }
  else s

/-- `add_item`. -/
def addItem (s : ScanContextMatching rings sectors ι) (descriptor : Descriptor rings sectors)
    (item : ι) : ScanContextMatching rings sectors ι :=
  let sc := reshape descriptor
  let s := s.makeRoom
  { s with
    scancontexts := s.scancontexts.set s.nbItems sc
    ringkeys := s.ringkeys.set s.nbItems (sc2rk sc)
    items := s.items.set s.nbItems item
    nbItems := s.nbItems + 1 }

/-- The candidates with their distances. -/
def scored [NeZero sectors] (tree : KDTree rings) (s : ScanContextMatching rings sectors ι)
    (query : Descriptor rings sectors) : Option (List (ℝ × ℕ)) :=
  let nbCandidates := min s.numCandidates s.nbItems
  let ringkeyHistory := s.ringkeys.take s.nbItems
  let querySc := reshape query
  let nncandidatesIdx := tree.query ringkeyHistory (sc2rk querySc) nbCandidates
  (nncandidatesIdx.filter fun idx => idx < s.nbItems).mapM fun idx =>
    s.scancontexts[idx]?.map fun candidateSc => ((distanceSc candidateSc querySc).1, idx)

/-- `search`; `[None], [None]` without candidates, and `none` if an item is missing. -/
def search [NeZero sectors] (tree : KDTree rings) (s : ScanContextMatching rings sectors ι)
    (query : Descriptor rings sectors) (k : ℤ) : Option (List (Option ι) × List (Option ℝ)) :=
  if s.nbItems < 1 then some ([none], [none])
  else
    (s.scored tree query).bind fun scored =>
      if scored.length = 0 then some ([none], [none])
      else
        let best := (scored.mergeSort fun a b => a.1 ≤ b.1).take (max k 1).toNat
        (best.mapM fun candidate => s.items.get? candidate.2).map fun items =>
          (items.map some, best.map fun candidate => some (1 - candidate.1))

/-- The matching that items were added to. -/
def added (numCandidates : ℕ) (es : List (Descriptor rings sectors × ι)) :
    ScanContextMatching rings sectors ι :=
  es.foldl (fun s e => s.addItem e.1 e.2) { numCandidates }

end ScanContextMatching

end

/-! ### Rotation -/

section Rotation

/-- `numpy.roll` of the columns. -/
def roll (r : Fin sectors) (sc : Matrix (Fin rings) (Fin sectors) ℝ) :
    Matrix (Fin rings) (Fin sectors) ℝ :=
  fun i j => sc i (j - r)

/-- The descriptor with its columns shifted by `r` sectors. -/
def shiftColumns (r : Fin sectors) (d : Descriptor rings sectors) : Descriptor rings sectors :=
  fun n => d (finProdFinEquiv ((finProdFinEquiv.symm n).1, (finProdFinEquiv.symm n).2 - r))

theorem reshape_shiftColumns (r : Fin sectors) (d : Descriptor rings sectors) :
    reshape (shiftColumns r d) = roll r (reshape d) := by
  ext i j
  unfold reshape shiftColumns roll
  rw [Equiv.symm_apply_apply]

variable [NeZero sectors]

/-- Summing over all columns does not depend on where one starts. -/
theorem sum_sub {M : Type*} [AddCommMonoid M] (f : Fin sectors → M) (r : Fin sectors) :
    ∑ j, f (j - r) = ∑ j, f j :=
  Equiv.sum_comp (Equiv.subRight r) f

theorem sc2rk_roll (r : Fin sectors) (sc : Matrix (Fin rings) (Fin sectors) ℝ) :
    sc2rk (roll r sc) = sc2rk sc := by
  ext i
  unfold sc2rk roll
  rw [sum_sub fun j => sc i j]

/-- Pairs of columns at one shift, seen from columns that are shifted themselves. -/
theorem sum_pairs {M : Type*} [AddCommMonoid M] (f : Fin sectors → Fin sectors → M)
    (s r : Fin sectors) : ∑ j, f (j - s) (j - r) = ∑ j, f (j - (s - r)) j := by
  rw [← sum_sub (fun j => f (j - (s - r)) j) r]
  refine Finset.sum_congr rfl fun j _ => ?_
  rw [sub_sub_sub_cancel_right]

theorem simForCols_roll (sc1 sc2 : Matrix (Fin rings) (Fin sectors) ℝ) (r s : Fin sectors) :
    simForCols sc1 (roll r sc2) s = simForCols sc1 sc2 (s - r) := by
  have hcounts : (Finset.univ.filter fun j => Engaged sc1 (roll r sc2) (j - s) j).card =
      (Finset.univ.filter fun j => Engaged sc1 sc2 (j - (s - r)) j).card := by
    rw [Finset.card_filter, Finset.card_filter]
    exact sum_pairs (fun a b => if Engaged sc1 sc2 a b then 1 else 0) s r
  have hsums : ∑ j, cos sc1 (roll r sc2) (j - s) j = ∑ j, cos sc1 sc2 (j - (s - r)) j :=
    sum_pairs (cos sc1 sc2) s r
  unfold simForCols
  rw [hcounts, hsums]

theorem mem_simForEachCols {sc1 sc2 : Matrix (Fin rings) (Fin sectors) ℝ} {x : ℝ} :
    x ∈ simForEachCols sc1 sc2 ↔ ∃ s, simForCols sc1 sc2 s = x := by
  unfold simForEachCols
  rw [List.mem_map]
  constructor
  · rintro ⟨i, -, rfl⟩
    exact ⟨_, rfl⟩
  · rintro ⟨s, rfl⟩
    -- the shift by the number of sectors is the one by none
    have hpos : 0 < sectors := NeZero.pos sectors
    have hs := s.isLt
    by_cases hzero : s.val = 0
    · refine ⟨sectors - 1, List.mem_range.mpr (by omega), ?_⟩
      congr 1
      ext
      rw [Fin.val_ofNat, hzero, Nat.sub_add_cancel hpos, Nat.mod_self]
    · refine ⟨s.val - 1, List.mem_range.mpr (by omega), ?_⟩
      congr 1
      ext
      rw [Fin.val_ofNat, Nat.sub_add_cancel (by omega), Nat.mod_eq_of_lt hs]

theorem max?_congr {l l' : List ℝ} (h : ∀ x, x ∈ l ↔ x ∈ l') : l.max? = l'.max? := by
  cases hmax : l'.max? with
  | none =>
    obtain rfl := List.max?_eq_none_iff.mp hmax
    exact List.max?_eq_none_iff.mpr (List.eq_nil_iff_forall_not_mem.mpr fun x hx =>
      absurd ((h x).mp hx) List.not_mem_nil)
  | some m =>
    obtain ⟨hmem, hle⟩ := List.max?_eq_some_iff.mp hmax
    exact List.max?_eq_some_iff.mpr ⟨(h m).mpr hmem, fun x hx => hle x ((h x).mp hx)⟩

/-- **The distance does not depend on the rotation**: all shifts are tried. -/
theorem distanceSc_roll (sc1 sc2 : Matrix (Fin rings) (Fin sectors) ℝ) (r : Fin sectors) :
    (distanceSc sc1 (roll r sc2)).1 = (distanceSc sc1 sc2).1 := by
  have hmax : (simForEachCols sc1 (roll r sc2)).max? = (simForEachCols sc1 sc2).max? := by
    refine max?_congr fun x => mem_simForEachCols.trans (Iff.trans ?_ mem_simForEachCols.symm)
    constructor
    · rintro ⟨s, rfl⟩
      exact ⟨s - r, (simForCols_roll sc1 sc2 r s).symm⟩
    · rintro ⟨s, rfl⟩
      refine ⟨s + r, ?_⟩
      rw [simForCols_roll, add_sub_cancel_right]
  unfold distanceSc
  rw [hmax]

theorem ScanContextMatching.scored_shiftColumns (tree : KDTree rings)
    (s : ScanContextMatching rings sectors ι) (query : Descriptor rings sectors)
    (r : Fin sectors) : s.scored tree (shiftColumns r query) = s.scored tree query := by
  unfold scored
  simp only [reshape_shiftColumns, sc2rk_roll, distanceSc_roll]

end Rotation

namespace ScanContextMatching

/-! ### What is stored -/

theorem length_resize {α : Type*} [Zero α] (l : List α) (n : ℕ) : (resize l n).length = n := by
  unfold resize
  rw [List.length_append, List.length_take, List.length_replicate]
  omega

/-- Growing an array keeps its entries. -/
theorem getElem?_resize {α : Type*} [Zero α] {l : List α} {n i : ℕ} (hn : l.length ≤ n)
    (hi : i < l.length) : (resize l n)[i]? = l[i]? := by
  unfold resize
  rw [List.take_of_length_le hn, List.getElem?_append_left hi]

/-- The entries of the matching are those of `es`, and the arrays have room for them. -/
structure Stores (s : ScanContextMatching rings sectors ι)
    (es : List (Descriptor rings sectors × ι)) : Prop where
  nbItems : s.nbItems = es.length
  lengths : s.scancontexts.length = s.ringkeys.length
  capacity : 0 < s.ringkeys.length
  room : s.nbItems ≤ s.ringkeys.length
  entries : ∀ i e, es[i]? = some e → s.scancontexts[i]? = some (reshape e.1) ∧
    s.ringkeys[i]? = some (sc2rk (reshape e.1)) ∧ s.items.get? i = some e.2

variable {s : ScanContextMatching rings sectors ι} {es : List (Descriptor rings sectors × ι)}

theorem Stores.makeRoom (h : Stores s es) :
    Stores s.makeRoom es ∧ s.makeRoom.nbItems < s.makeRoom.ringkeys.length := by
  have hcapacity := h.capacity
  have hroom := h.room
  unfold ScanContextMatching.makeRoom
  split_ifs with hfull
  · have hlengths : (resize s.scancontexts (2 * s.scancontexts.length)).length =
        (resize s.ringkeys (2 * s.ringkeys.length)).length := by
      rw [length_resize, length_resize, h.lengths]
    have hlength := length_resize s.ringkeys (2 * s.ringkeys.length)
    refine ⟨⟨h.nbItems, hlengths, ?_, ?_, fun i e he => ?_⟩, ?_⟩
    · show 0 < (resize _ _).length
      omega
    · show s.nbItems ≤ (resize _ _).length
      omega
    · have hi : i < s.ringkeys.length := by
        have hlt := (List.getElem?_eq_some_iff.mp he).1
        rw [← h.nbItems] at hlt
        omega
      obtain ⟨hsc, hrk, hitem⟩ := h.entries i e he
      refine ⟨?_, ?_, hitem⟩
      · rw [← hsc]
        exact getElem?_resize (by omega) (h.lengths ▸ hi)
      · rw [← hrk]
        exact getElem?_resize (by omega) hi
    · show s.nbItems < (resize _ _).length
      omega
  · exact ⟨h, not_le.mp hfull⟩

/-- **Step lemma**: the new entry is stored beside those there are. -/
theorem Stores.addItem (h : Stores s es) (e : Descriptor rings sectors × ι) :
    Stores (s.addItem e.1 e.2) (es ++ [e]) := by
  obtain ⟨hroom, hlt⟩ := h.makeRoom
  have hnb := hroom.nbItems
  refine ⟨?_, ?_, ?_, ?_, fun i e' he' => ?_⟩
  · show s.makeRoom.nbItems + 1 = _
    rw [hnb, List.length_append, List.length_singleton]
  · show (s.makeRoom.scancontexts.set _ _).length = (s.makeRoom.ringkeys.set _ _).length
    rw [List.length_set, List.length_set, hroom.lengths]
  · show 0 < (s.makeRoom.ringkeys.set _ _).length
    rw [List.length_set]
    exact hroom.capacity
  · show s.makeRoom.nbItems + 1 ≤ (s.makeRoom.ringkeys.set _ _).length
    rw [List.length_set]
    exact hlt
  · show (s.makeRoom.scancontexts.set _ _)[i]? = _ ∧ (s.makeRoom.ringkeys.set _ _)[i]? = _ ∧
      (s.makeRoom.items.set _ _).get? i = _
    have hscLt : s.makeRoom.nbItems < s.makeRoom.scancontexts.length := by
      rw [hroom.lengths]
      exact hlt
    rw [Dict.get?_set]
    by_cases hi : i = s.makeRoom.nbItems
    · have hlast : (es ++ [e])[i]? = some e := by
        rw [hi, hnb, List.getElem?_concat_length]
      obtain rfl : e = e' := Option.some.inj (hlast.symm.trans he')
      rw [hi, List.getElem?_set_self hscLt, List.getElem?_set_self hlt, if_pos rfl]
      exact ⟨rfl, rfl, rfl⟩
    · have hold : es[i]? = some e' := by
        have hi' : i < es.length := by
          have hbound := (List.getElem?_eq_some_iff.mp he').1
          rw [List.length_append, List.length_singleton] at hbound
          omega
        rwa [List.getElem?_append_left hi'] at he'
      rw [List.getElem?_set_ne (Ne.symm hi), List.getElem?_set_ne (Ne.symm hi), if_neg hi]
      exact hroom.entries i e' hold

theorem addItem_numCandidates (s : ScanContextMatching rings sectors ι)
    (descriptor : Descriptor rings sectors) (item : ι) :
    (s.addItem descriptor item).numCandidates = s.numCandidates := by
  show s.makeRoom.numCandidates = s.numCandidates
  unfold makeRoom
  split_ifs
  · rfl
  · rfl

theorem added_concat (numCandidates : ℕ) (es : List (Descriptor rings sectors × ι))
    (e : Descriptor rings sectors × ι) :
    added numCandidates (es ++ [e]) = (added numCandidates es).addItem e.1 e.2 := by
  unfold added
  rw [List.foldl_append]
  rfl

/-- **Run lemma**: the matching stores what was added, across every growth of its arrays. -/
theorem stores_added (numCandidates : ℕ) (es : List (Descriptor rings sectors × ι)) :
    Stores (added numCandidates es) es := by
  induction es using List.reverseRecOn with
  | nil =>
    refine ⟨rfl, ?_, ?_, Nat.zero_le _, fun i e he => by simp at he⟩
    · show (List.replicate 1000 _).length = (List.replicate 1000 _).length
      rw [List.length_replicate, List.length_replicate]
    · show 0 < (List.replicate 1000 _).length
      rw [List.length_replicate]
      omega
  | append_singleton es e ih =>
    rw [added_concat]
    exact ih.addItem e

theorem added_numCandidates (numCandidates : ℕ) (es : List (Descriptor rings sectors × ι)) :
    (added numCandidates es).numCandidates = numCandidates := by
  induction es using List.reverseRecOn with
  | nil => rfl
  | append_singleton es e ih => rw [added_concat, addItem_numCandidates, ih]

/-! ### What is found -/

/-- The entry at a position, for a position that is one. -/
def entryAt (es : List (Descriptor rings sectors × ι)) (hne : es ≠ []) (i : ℕ) :
    Descriptor rings sectors × ι :=
  es.getD i (es.head hne)

theorem getElem?_eq_entryAt (hne : es ≠ []) {i : ℕ} (hi : i < es.length) :
    es[i]? = some (entryAt es hne i) := by
  unfold entryAt
  rw [List.getD_eq_getElem _ _ hi, List.getElem?_eq_getElem hi]

section Search

variable [NeZero sectors]

/-- The similarity of a stored entry. -/
noncomputable def similarity (query : Descriptor rings sectors)
    (e : Descriptor rings sectors × ι) : ℝ :=
  1 - (distanceSc (reshape e.1) (reshape query)).1

/-- An entry as it is scored: its distance to the query, and its position. -/
noncomputable def candidate (hne : es ≠ []) (query : Descriptor rings sectors) (i : ℕ) : ℝ × ℕ :=
  ((distanceSc (reshape (entryAt es hne i).1) (reshape query)).1, i)

/-- The KD-tree returns positions of entries, and each of them is scored. -/
theorem Stores.scored_eq (h : Stores s es) (hne : es ≠ []) (hpos : 0 < s.numCandidates)
    (tree : KDTree rings) (query : Descriptor rings sectors) :
    ∃ idxs : List ℕ, idxs.Nodup ∧ idxs.length = min s.numCandidates es.length ∧
      (∀ i ∈ idxs, i < es.length) ∧
      s.scored tree query = some (idxs.map (candidate hne query)) := by
  have hlen : 0 < es.length := List.length_pos_iff.mpr hne
  have hhistory : (s.ringkeys.take s.nbItems).length = es.length := by
    have hroom := h.room
    rw [List.length_take, ← h.nbItems]
    omega
  have hgreatest := tree.nearest (s.ringkeys.take s.nbItems) (sc2rk (reshape query))
    (min s.numCandidates s.nbItems) (by rw [h.nbItems]; omega) (by rw [hhistory, h.nbItems]; omega)
  have hlt : ∀ i ∈ tree.query (s.ringkeys.take s.nbItems) (sc2rk (reshape query))
      (min s.numCandidates s.nbItems), i < es.length := by
    intro i hi
    have hbound := hgreatest.lt i hi
    rwa [List.length_map, hhistory] at hbound
  refine ⟨_, hgreatest.nodup, hgreatest.length.trans (by rw [h.nbItems]), hlt, ?_⟩
  unfold scored
  dsimp only
  rw [List.filter_eq_self.mpr fun i hi => decide_eq_true (h.nbItems ▸ hlt i hi)]
  refine Walk.mapM_eq_some_map fun i hi => ?_
  rw [(h.entries i _ (getElem?_eq_entryAt hne (hlt i hi))).1]
  rfl

/-- What a sort of the candidates by their distance, cut after the first `n`, leaves. -/
theorem exists_best (hne : es ≠ []) (query : Descriptor rings sectors) {idxs : List ℕ}
    (hnodup : idxs.Nodup) (n : ℕ) : ∃ best : List ℕ, best.Nodup ∧ (∀ i ∈ best, i ∈ idxs) ∧
      best.length = min n idxs.length ∧
      (best.map fun i => similarity query (entryAt es hne i)).Pairwise (· ≥ ·) ∧
      ((idxs.map (candidate hne query)).mergeSort fun a b => a.1 ≤ b.1).take n =
        best.map (candidate hne query) := by
  set found := (idxs.map (candidate hne query)).mergeSort fun a b => a.1 ≤ b.1 with hfound
  have hperm : found.Perm (idxs.map (candidate hne query)) := List.mergeSort_perm _ _
  have hsnd : (found.map Prod.snd).Perm idxs := by
    have h := hperm.map Prod.snd
    rwa [List.map_map, show Prod.snd ∘ candidate hne query = id from rfl, List.map_id] at h
  -- a candidate can be read off its position
  have hself : (found.map Prod.snd).map (candidate hne query) = found := by
    rw [List.map_map]
    refine (List.map_congr_left fun c hc => ?_).trans (List.map_id found)
    obtain ⟨i, -, rfl⟩ := List.mem_map.mp (hperm.mem_iff.mp hc)
    rfl
  have hsorted : found.Pairwise fun a b => a.1 ≤ b.1 := pairwise_mergeSort_key Prod.fst _
  refine ⟨(found.map Prod.snd).take n, ?_, fun i hi => ?_, ?_, ?_, ?_⟩
  · exact (hsnd.nodup_iff.mpr hnodup).sublist (List.take_sublist _ _)
  · exact hsnd.mem_iff.mp (List.mem_of_mem_take hi)
  · rw [List.length_take, hsnd.length_eq]
  · rw [← hself, List.pairwise_map] at hsorted
    rw [List.pairwise_map]
    refine (hsorted.sublist (List.take_sublist n _)).imp fun {i j} hij => ?_
    exact sub_le_sub_left hij 1
  · rw [List.map_take, hself]

/-- **Search on what is stored**: the best candidates, with their similarities. -/
theorem Stores.search_eq (h : Stores s es) (hne : es ≠ []) (hpos : 0 < s.numCandidates)
    (tree : KDTree rings) (query : Descriptor rings sectors) {k : ℤ} (hk : 1 ≤ k) :
    ∃ best : List ℕ, best.Nodup ∧ (∀ i ∈ best, i < es.length) ∧
      best.length = min k.toNat (min s.numCandidates es.length) ∧
      (best.map fun i => similarity query (entryAt es hne i)).Pairwise (· ≥ ·) ∧
      s.search tree query k = some (best.map fun i => some (entryAt es hne i).2,
        best.map fun i => some (similarity query (entryAt es hne i))) := by
  obtain ⟨idxs, hnodup, hlength, hlt, hscored⟩ := h.scored_eq hne hpos tree query
  obtain ⟨best, hbest, hmem, hcount, hsorted, htake⟩ :=
    exists_best hne query hnodup (max k 1).toNat
  have hlen : 0 < es.length := List.length_pos_iff.mpr hne
  have hsome : ¬ (idxs.map (candidate hne query)).length = 0 := by
    rw [List.length_map]
    omega
  have hitems : ((best.map (candidate hne query)).mapM fun c => s.items.get? c.2) =
      some ((best.map (candidate hne query)).map fun c => (entryAt es hne c.2).2) := by
    refine Walk.mapM_eq_some_map fun c hc => ?_
    obtain ⟨i, hi, rfl⟩ := List.mem_map.mp hc
    exact (h.entries i _ (getElem?_eq_entryAt hne (hlt i (hmem i hi)))).2.2
  refine ⟨best, hbest, fun i hi => hlt i (hmem i hi), ?_, hsorted, ?_⟩
  · rw [hcount, hlength, max_eq_left hk]
  · unfold search
    rw [if_neg (by rw [h.nbItems]; omega), hscored, Option.bind_some, if_neg hsome, htake]
    dsimp only
    rw [hitems, Option.map_some, List.map_map, List.map_map, List.map_map]
    rfl

/-- **Search is sound and does not see rotations**: it returns the items of distinct entries with
their similarities, the most similar first, and the same ones for every shift of the query. -/
theorem search_added {numCandidates : ℕ} (hpos : 0 < numCandidates)
    {es : List (Descriptor rings sectors × ι)} (hne : es ≠ []) (tree : KDTree rings)
    (query : Descriptor rings sectors) {k : ℤ} (hk : 1 ≤ k) :
    ∃ (best : List ℕ) (entries : List (Descriptor rings sectors × ι)),
      best.Nodup ∧ best.map (es[·]?) = entries.map some ∧
      entries.length = min k.toNat (min numCandidates es.length) ∧
      (entries.map (similarity query)).Pairwise (· ≥ ·) ∧
      (added numCandidates es).search tree query k =
        some (entries.map fun e => some e.2, entries.map fun e => some (similarity query e)) ∧
      ∀ r, (added numCandidates es).search tree (shiftColumns r query) k =
        (added numCandidates es).search tree query k := by
  have hcandidates := added_numCandidates numCandidates es
  obtain ⟨best, hnodup, hlt, hlength, hsorted, hsearch⟩ :=
    (stores_added numCandidates es).search_eq hne (hpos.trans_eq hcandidates.symm) tree query
      hk
  refine ⟨best, best.map (entryAt es hne), hnodup, ?_, ?_, ?_, ?_, fun r => ?_⟩
  · rw [List.map_map]
    exact List.map_congr_left fun i hi => getElem?_eq_entryAt hne (hlt i hi)
  · rw [List.length_map, hlength, hcandidates]
  · rwa [List.map_map]
  · rw [hsearch, List.map_map, List.map_map]
    rfl
  · unfold search
    rw [scored_shiftColumns]

/-- Two scans of one ring in two sectors. -/
def twoScans : List (Descriptor 1 2 × ℕ) := [(![1, 0], 7), (![1, 1], 8)]

/-- The first of the scans, turned by a sector. -/
def turned : Descriptor 1 2 := ![0, 1]

theorem search_added_twoScans :
    ∃ (best : List ℕ) (entries : List (Descriptor 1 2 × ℕ)),
      best.Nodup ∧ best.map (twoScans[·]?) = entries.map some ∧ entries.length = 2 ∧
      (entries.map (similarity turned)).Pairwise (· ≥ ·) ∧
      (added 10 twoScans).search (KDTree.sorting 1) turned 5 =
        some (entries.map fun e => some e.2, entries.map fun e => some (similarity turned e)) ∧
      ∀ r, (added 10 twoScans).search (KDTree.sorting 1) (shiftColumns r turned) 5 =
        (added 10 twoScans).search (KDTree.sorting 1) turned 5 := by
  have hne : twoScans ≠ [] := List.cons_ne_nil _ _
  obtain ⟨best, entries, hnodup, hentries, hlength, hsearch⟩ :=
    search_added (show 0 < 10 by decide) hne (KDTree.sorting 1) turned (k := 5) (by decide)
  exact ⟨best, entries, hnodup, hentries, hlength, hsearch⟩

end Search

end ScanContextMatching

end RoverSwarm.ScanContext
