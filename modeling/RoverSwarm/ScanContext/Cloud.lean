import Mathlib.Analysis.SpecialFunctions.Complex.Arctan
import Mathlib.Data.EReal.Operations
import RoverSwarm.Lib.Grouping
import RoverSwarm.ScanContext

/-!
# ScanContext/Cloud — from point clouds to descriptors

`pt2rs` assigns a ring and a sector to a point, by four quadrants.  `ptcloud2sc` computes them for
all points at once, with `arctan2`, and finds the first points of every bin by a stable sort.
Arithmetic is exact; the height of a point may be infinite, and any coordinate may be missing (NaN).
-/

namespace RoverSwarm.ScanContext

open Real

noncomputable section

/-! ### pt2rs -/

def xy2theta (x y : ℝ) : ℝ :=
  if x ≥ 0 ∧ y ≥ 0 then 180 / π * arctan (y / x)
  else if x < 0 ∧ y ≥ 0 then 180 - 180 / π * arctan (y / -x)
  else if x < 0 ∧ y < 0 then 180 + 180 / π * arctan (y / x)
  else 360 - 180 / π * arctan (-y / x)

/-- A zero coordinate is replaced by a thousandth. -/
def offAxis (c : ℝ) : ℝ := if c = 0 then 1 / 1000 else c

/-- `pt2rs`: the ring and the sector of a point. -/
def pt2rs (x y gapRing gapSector : ℝ) (numRing : ℕ) : ℤ × ℤ :=
  let x := offAxis x
  let y := offAxis y
  let theta := xy2theta x y
  let faraway := √(x * x + y * y)
  let idxRing := ⌊faraway / gapRing⌋
  let idxSector := ⌊theta / gapSector⌋
  (if idxRing ≥ numRing then (numRing : ℤ) - 1 else idxRing, idxSector)

/-! ### ptcloud2sc -/

/-- A row of the array; `none` is a NaN. -/
structure Point where
  x : Option ℝ
  y : Option ℝ
  z : Option EReal

/-- A point without NaN. -/
structure ValidPoint where
  x : ℝ
  y : ℝ
  z : EReal

instance : Inhabited ValidPoint := ⟨0, 0, 0⟩

/-- The height of a point, set so that the ground is roughly zero. -/
def ValidPoint.height (p : ValidPoint) : EReal := p.z + ((2 : ℕ) : EReal)

def Point.valid? (p : Point) : Option ValidPoint :=
  p.x.bind fun x => p.y.bind fun y => p.z.map fun z => ⟨x, y, z⟩

def ENOUGH_LARGE : ℕ := 500

/-- `numpy.arctan2`. -/
def arctan2 (y x : ℝ) : ℝ := Complex.arg ⟨x, y⟩

/-- The remainder `a % b`, of the sign of `b`. -/
def pyMod (a b : ℝ) : ℝ := a - b * ⌊a / b⌋

/-- `numpy.clip` of an index between zero and `n - 1`. -/
def clip (v : ℤ) (n : ℕ) : ℕ := (min (max v 0) ((n : ℤ) - 1)).toNat

/-- The index of the bin of a point. -/
def flatIndex (numRing numSector : ℕ) (maxLength : ℝ) (p : ValidPoint) : ℕ :=
  let gapRing := maxLength / numRing
  let gapSector := (360 : ℝ) / numSector
  let x := offAxis p.x
  let y := offAxis p.y
  let theta := pyMod (180 / π * arctan2 y x) 360
  let faraway := √(x * x + y * y)
  let idxRing := clip ⌊faraway / gapRing⌋ numRing
  let idxSector := clip ⌊theta / gapSector⌋ numSector
  idxRing * numSector + idxSector

end

/-- `numpy.argsort` with a stable sort. -/
def argsort (flat : List ℕ) : List ℕ :=
  (List.range flat.length).mergeSort fun i j => flat.getD i 0 ≤ flat.getD j 0

/-- `numpy.bincount`. -/
def bincount (flat : List ℕ) (minlength : ℕ) : List ℕ :=
  (List.range (flat.foldr (fun b n => max (b + 1) n) minlength)).map fun b => flat.count b

/-- `numpy.cumsum`. -/
def cumsum (l : List ℕ) : List ℕ := (List.range l.length).map fun i => (l.take (i + 1)).sum

/-- `l[keep]` for a mask. -/
def mask {α : Type*} (keep : List Bool) (l : List α) : List α :=
  ((l.zip keep).filter fun e => e.2).map Prod.fst

/-- The points among the first of their bin, for the sorted bins. -/
def keepMask (flatS counts : List ℕ) : List Bool :=
  let starts := 0 :: (cumsum counts).dropLast
  let rank := (List.range flatS.length).map fun (k : ℕ) =>
    (k : ℤ) - (starts.getD (flatS.getD k 0) 0 : ℕ)
  rank.map fun r => decide (r < (ENOUGH_LARGE : ℤ))

noncomputable section

/-- `numpy.maximum.at`. -/
def maximumAt (sc : List EReal) (idx : List ℕ) (vals : List EReal) : List EReal :=
  (idx.zip vals).foldl (fun sc e => sc.modify e.1 fun v => max v e.2) sc

/-- The bins of points that are not none. -/
def scBins (nbins : ℕ) (flat : List ℕ) (heights : List EReal) : List EReal :=
  let order := argsort flat
  let flatS := order.map fun i => flat.getD i 0
  let hS := order.map fun i => heights.getD i 0
  let counts := bincount flatS nbins
  let keep := keepMask flatS counts
  let sc := maximumAt (List.replicate nbins ⊥) (mask keep flatS) (mask keep hS)
  List.zipWith (fun count v => if count < ENOUGH_LARGE then max v 0 else v) counts sc

/-- `ptcloud2sc`. -/
def ptcloud2sc (cloud : List Point) (numRing numSector : ℕ) (maxLength : ℝ) :
    Matrix (Fin numRing) (Fin numSector) EReal :=
  let pts := cloud.filterMap Point.valid?
  if pts.length = 0 then 0
  else
    let heights := pts.map ValidPoint.height
    let flat := pts.map (flatIndex numRing numSector maxLength)
    let sc := scBins (numRing * numSector) flat heights
    Matrix.of fun i j => sc.getD (i * numSector + j) 0

end

/-! ### Angles -/

theorem offAxis_ne_zero (c : ℝ) : offAxis c ≠ 0 := by
  unfold offAxis
  split_ifs with h
  · norm_num
  · exact h

theorem arctan2_of_pos {x : ℝ} (y : ℝ) (hx : 0 < x) : arctan2 y x = arctan (y / x) := by
  have habs : |Complex.arg ⟨x, y⟩| < π / 2 := Complex.abs_arg_lt_pi_div_two_iff.mpr (Or.inl hx)
  obtain ⟨hlo, hhi⟩ := abs_lt.mp habs
  have htan := Complex.tan_arg ⟨x, y⟩
  unfold arctan2
  rw [← arctan_tan hlo hhi, htan]

theorem neg_mk (x y : ℝ) : (-(⟨-x, -y⟩ : ℂ)) = ⟨x, y⟩ := by
  apply Complex.ext
  · exact neg_neg x
  · exact neg_neg y

theorem arctan2_of_neg_of_pos {x y : ℝ} (hx : x < 0) (hy : 0 < y) :
    arctan2 y x = π - arctan (y / -x) := by
  have h := Complex.arg_neg_eq_arg_add_pi_of_im_neg (x := ⟨-x, -y⟩) (neg_neg_of_pos hy)
  rw [neg_mk] at h
  have hpos := arctan2_of_pos (-y) (neg_pos.mpr hx)
  unfold arctan2 at hpos ⊢
  rw [h, hpos, neg_div, arctan_neg]
  ring

theorem arctan2_of_neg_of_neg {x y : ℝ} (hx : x < 0) (hy : y < 0) :
    arctan2 y x = arctan (y / x) - π := by
  have h := Complex.arg_neg_eq_arg_sub_pi_of_im_pos (x := ⟨-x, -y⟩) (neg_pos.mpr hy)
  rw [neg_mk] at h
  have hpos := arctan2_of_pos (-y) (neg_pos.mpr hx)
  unfold arctan2 at hpos ⊢
  rw [h, hpos, neg_div_neg_eq]

/-- The remainder is what is left of whole turns. -/
theorem pyMod_eq {a b r : ℝ} {k : ℤ} (ha : a = r + b * k) (hr : 0 ≤ r) (hlt : r < b) :
    pyMod a b = r := by
  have hb : 0 < b := hr.trans_lt hlt
  have hfloor : ⌊a / b⌋ = k := by
    rw [ha, add_div, mul_div_cancel_left₀ _ hb.ne', Int.floor_add_intCast]
    rw [Int.floor_eq_zero_iff.mpr ⟨div_nonneg hr hb.le, (div_lt_one hb).mpr hlt⟩, zero_add]
  unfold pyMod
  rw [hfloor, ha]
  ring

/-- The angle of a quadrant, in degrees. -/
theorem degrees_arctan_mem {t : ℝ} (ht : 0 < t) :
    0 < 180 / π * arctan t ∧ 180 / π * arctan t < 90 := by
  have hpi := pi_pos
  have hpos : 0 < arctan t := arctan_pos.mpr ht
  have hlt := arctan_lt_pi_div_two t
  refine ⟨mul_pos (div_pos (by norm_num) hpi) hpos, ?_⟩
  calc 180 / π * arctan t < 180 / π * (π / 2) :=
        mul_lt_mul_of_pos_left hlt (div_pos (by norm_num) hpi)
    _ = 90 := by field_simp; norm_num

/-- **The four quadrants are `arctan2` in [0, 360)**, off the axes. -/
theorem pyMod_arctan2 {x y : ℝ} (hx : x ≠ 0) (hy : y ≠ 0) :
    pyMod (180 / π * arctan2 y x) 360 = xy2theta x y ∧ 0 ≤ xy2theta x y ∧ xy2theta x y < 360 := by
  have hturn : 180 / π * π = 180 := div_mul_cancel₀ _ pi_ne_zero
  unfold xy2theta
  rcases lt_or_gt_of_ne hx with hxneg | hxpos
  · rcases lt_or_gt_of_ne hy with hyneg | hypos
    · obtain ⟨hlo, hhi⟩ := degrees_arctan_mem (div_pos_of_neg_of_neg hyneg hxneg)
      rw [if_neg (by rintro ⟨h, -⟩; linarith), if_neg (by rintro ⟨-, h⟩; linarith),
        if_pos ⟨hxneg, hyneg⟩, arctan2_of_neg_of_neg hxneg hyneg]
      refine ⟨pyMod_eq (k := -1) ?_ (by linarith) (by linarith), by linarith, by linarith⟩
      rw [mul_sub, hturn]
      push_cast
      ring
    · obtain ⟨hlo, hhi⟩ := degrees_arctan_mem (div_pos hypos (neg_pos.mpr hxneg))
      rw [if_neg (by rintro ⟨h, -⟩; linarith), if_pos ⟨hxneg, hypos.le⟩,
        arctan2_of_neg_of_pos hxneg hypos]
      refine ⟨pyMod_eq (k := 0) ?_ (by linarith) (by linarith), by linarith, by linarith⟩
      rw [mul_sub, hturn]
      push_cast
      ring
  · rcases lt_or_gt_of_ne hy with hyneg | hypos
    · obtain ⟨hlo, hhi⟩ := degrees_arctan_mem (div_pos (neg_pos.mpr hyneg) hxpos)
      rw [if_neg (by rintro ⟨-, h⟩; linarith), if_neg (by rintro ⟨h, -⟩; linarith),
        if_neg (by rintro ⟨h, -⟩; linarith), arctan2_of_pos y hxpos]
      refine ⟨pyMod_eq (k := -1) ?_ (by linarith) (by linarith), by linarith, by linarith⟩
      rw [neg_div, arctan_neg]
      push_cast
      ring
    · obtain ⟨hlo, hhi⟩ := degrees_arctan_mem (div_pos hypos hxpos)
      rw [if_pos ⟨hxpos.le, hypos.le⟩, arctan2_of_pos y hxpos]
      refine ⟨pyMod_eq (k := 0) ?_ (by linarith) (by linarith), by linarith, by linarith⟩
      push_cast
      ring

/-! ### Bins -/

theorem length_bincount {flat : List ℕ} {n : ℕ} (h : ∀ b ∈ flat, b < n) :
    (bincount flat n).length = n := by
  have hmax : flat.foldr (fun b n => max (b + 1) n) n = n := by
    induction flat with
    | nil => rfl
    | cons b flat ih =>
      have hb := h b List.mem_cons_self
      rw [List.foldr_cons, ih fun c hc => h c (List.mem_cons_of_mem b hc)]
      omega
  unfold bincount
  rw [List.length_map, List.length_range, hmax]

theorem getD_bincount {flat : List ℕ} {n b : ℕ} (h : ∀ b ∈ flat, b < n) (hb : b < n) :
    (bincount flat n).getD b 0 = flat.count b := by
  have hlen := length_bincount h
  rw [List.getD_eq_getElem _ _ (by omega)]
  unfold bincount
  rw [List.getElem_map, List.getElem_range]

/-- Where a bin starts: behind the points of the bins before it. -/
theorem getD_starts {flat : List ℕ} {n b : ℕ} (h : ∀ b ∈ flat, b < n) (hb : b < n) :
    (0 :: (cumsum (bincount flat n)).dropLast).getD b 0 = flat.countP fun c => c < b := by
  have hlen := length_bincount h
  have htake : ((bincount flat n).take b).sum = flat.countP fun c => c < b := by
    rw [← Grouping.sum_count_range]
    congr 1
    refine List.ext_getElem (by simp; omega) fun i hi _ => ?_
    have hib : i < b := by
      rw [List.length_take] at hi
      omega
    rw [List.getElem_take, List.getElem_map, List.getElem_range,
      ← List.getD_eq_getElem _ 0 (by omega), getD_bincount h (by omega)]
  cases b with
  | zero => exact (List.countP_eq_zero.mpr fun c _ => by simp).symm
  | succ b =>
    have hcumsum : (cumsum (bincount flat n)).length = n := by
      unfold cumsum
      rw [List.length_map, List.length_range, hlen]
    rw [List.getD_cons_succ, List.getD_eq_getElem _ _ (by rw [List.length_dropLast]; omega),
      List.getElem_dropLast, ← htake]
    unfold cumsum
    rw [List.getElem_map, List.getElem_range]

theorem mask_map {α β : Type*} (f : α → β) (keep : List Bool) (l : List α) :
    mask keep (l.map f) = (mask keep l).map f := by
  unfold mask
  rw [List.zip_map_left, List.filter_map, List.map_map, List.map_map]
  rfl

/-- **The mask keeps the first points of every bin**, if the bins are sorted. -/
theorem mask_keepMask (key : ℕ → ℕ) (order : List ℕ) {n : ℕ}
    (hsorted : order.Pairwise fun i j => key i ≤ key j) (h : ∀ i ∈ order, key i < n) :
    mask (keepMask (order.map key) (bincount (order.map key) n)) order =
      Grouping.firsts key ENOUGH_LARGE order := by
  have hlt : ∀ b ∈ order.map key, b < n := by
    intro b hb
    obtain ⟨i, hi, rfl⟩ := List.mem_map.mp hb
    exact h i hi
  have hkeep : keepMask (order.map key) (bincount (order.map key) n) =
      order.zipIdx.map fun e => decide (Grouping.rank key order e.2 e.1 < ENOUGH_LARGE) := by
    unfold keepMask
    refine List.ext_getElem (by simp) fun k hk _ => ?_
    have hklt : k < order.length := by simpa using hk
    have hpos := Grouping.position_eq hsorted (List.getElem?_eq_getElem hklt)
    have hcount : (order.map key).countP (fun c => c < key order[k]) =
        order.countP fun i => key i < key order[k] := List.countP_map
    have hget : (order.map key).getD k 0 = key order[k] := by
      rw [List.getD_eq_getElem _ _ (by rwa [List.length_map]), List.getElem_map]
    simp only [List.getElem_map, List.getElem_range, List.getElem_zipIdx, Nat.zero_add]
    rw [hget, getD_starts hlt (h _ (List.getElem_mem hklt)), hcount]
    exact decide_eq_decide.mpr (by omega)
  unfold mask Grouping.firsts
  rw [hkeep]
  have hzip : order.zip (order.zipIdx.map fun e =>
      decide (Grouping.rank key order e.2 e.1 < ENOUGH_LARGE)) =
      order.zipIdx.map fun e => (e.1, decide (Grouping.rank key order e.2 e.1 < ENOUGH_LARGE)) := by
    refine List.ext_getElem (by simp) fun k hk _ => ?_
    simp
  rw [hzip, List.filter_map, List.map_map]
  rfl

/-- What `maximum.at` leaves in a bin. -/
theorem getElem?_maximumAt (es : List (ℕ × EReal)) (sc : List EReal) (b : ℕ) :
    (es.foldl (fun sc e => sc.modify e.1 fun v => max v e.2) sc)[b]? =
      sc[b]?.map fun v => ((es.filter fun e => e.1 = b).map Prod.snd).foldl max v := by
  induction es generalizing sc with
  | nil => simp
  | cons e es ih =>
    rw [List.foldl_cons, ih, List.getElem?_modify]
    cases sc[b]? with
    | none => rfl
    | some v =>
      by_cases hb : e.1 = b
      · simp [hb]
      · simp [hb]

theorem argsort_eq (flat : List ℕ) :
    argsort flat = Grouping.sortByKey (fun i => flat.getD i 0) (List.range flat.length) := rfl

theorem getD_lt {flat : List ℕ} {n : ℕ} (h : ∀ b ∈ flat, b < n) {i : ℕ}
    (hi : i ∈ argsort flat) : flat.getD i 0 < n := by
  have hlt := List.mem_range.mp ((Grouping.perm_sortByKey _).mem_iff.mp hi)
  rw [List.getD_eq_getElem _ _ hlt]
  exact h _ (List.getElem_mem hlt)

/-- The points of a bin, in the order of the points. -/
def group (flat : List ℕ) (b : ℕ) : List ℕ :=
  (List.range flat.length).filter fun i => flat.getD i 0 = b

/-- The sort does not change how many points a bin has. -/
theorem count_argsort (flat : List ℕ) (b : ℕ) :
    ((argsort flat).map fun i => flat.getD i 0).count b = (group flat b).length := by
  unfold group
  rw [← Grouping.filter_sortByKey, ← List.countP_eq_length_filter, List.count_eq_countP,
    List.countP_map, argsort_eq]
  exact List.countP_congr fun i _ => by simp

theorem scBins_eq {nbins : ℕ} {flat : List ℕ} (heights : List EReal)
    (h : ∀ b ∈ flat, b < nbins) :
    scBins nbins flat heights = List.zipWith
      (fun count v => if count < ENOUGH_LARGE then max v 0 else v)
      (bincount ((argsort flat).map fun i => flat.getD i 0) nbins)
      (maximumAt (List.replicate nbins ⊥)
        ((Grouping.firsts (fun i => flat.getD i 0) ENOUGH_LARGE (argsort flat)).map
          fun i => flat.getD i 0)
        ((Grouping.firsts (fun i => flat.getD i 0) ENOUGH_LARGE (argsort flat)).map
          fun i => heights.getD i 0)) := by
  have hmask := mask_keepMask (fun i => flat.getD i 0) (argsort flat)
    (Grouping.pairwise_sortByKey _) fun i hi => getD_lt h hi
  unfold scBins
  dsimp only
  rw [mask_map, mask_map, hmask]

/-- What the bins hold: the greatest of the first heights of the bin, and zero if there is room. -/
theorem getElem?_scBins {nbins : ℕ} {flat : List ℕ} (heights : List EReal)
    (h : ∀ b ∈ flat, b < nbins) {b : ℕ} (hb : b < nbins) :
    (scBins nbins flat heights)[b]? = some (if (group flat b).length < ENOUGH_LARGE
      then max (List.foldl max ⊥
        (((group flat b).take ENOUGH_LARGE).map fun i => heights.getD i 0)) 0
      else List.foldl max ⊥
        (((group flat b).take ENOUGH_LARGE).map fun i => heights.getD i 0)) := by
  have hlt : ∀ c ∈ (argsort flat).map fun i => flat.getD i 0, c < nbins := by
    intro c hc
    obtain ⟨i, hi, rfl⟩ := List.mem_map.mp hc
    exact getD_lt h hi
  have hcounts : (bincount ((argsort flat).map fun i => flat.getD i 0) nbins)[b]? =
      some (group flat b).length := by
    have hlen := length_bincount hlt
    rw [List.getElem?_eq_getElem (by omega), ← List.getD_eq_getElem _ 0 (by omega),
      getD_bincount hlt hb, count_argsort]
  have hmax := getElem?_maximumAt
    ((Grouping.firsts (fun i => flat.getD i 0) ENOUGH_LARGE (argsort flat)).map
      fun i => (flat.getD i 0, heights.getD i 0)) (List.replicate nbins ⊥) b
  rw [List.filter_map, List.map_map, List.getElem?_replicate, if_pos hb, Option.map_some] at hmax
  have hfirsts := Grouping.filter_firsts_sortByKey (fun i => flat.getD i 0) ENOUGH_LARGE b
    (List.range flat.length)
  rw [scBins_eq heights h, List.getElem?_zipWith, hcounts]
  unfold maximumAt
  rw [List.zip_map', hmax]
  unfold group
  rw [← hfirsts]
  rfl

/-! ### Heights -/

theorem isGreatest_foldl_max (l : List EReal) (a : EReal) :
    IsGreatest {h | h ∈ a :: l} (l.foldl max a) := by
  induction l generalizing a with
  | nil => exact ⟨List.mem_singleton.mpr rfl, fun h hh => (List.mem_singleton.mp hh).le⟩
  | cons b l ih =>
    obtain ⟨hmem, hle⟩ := ih (max a b)
    refine ⟨?_, fun h hh => ?_⟩
    · show l.foldl max (max a b) ∈ a :: b :: l
      rcases List.mem_cons.mp hmem with heq | hmem
      · rw [heq]
        rcases max_choice a b with hm | hm
        · rw [hm]
          exact List.mem_cons_self
        · rw [hm]
          exact List.mem_cons_of_mem a List.mem_cons_self
      · exact List.mem_cons_of_mem a (List.mem_cons_of_mem b hmem)
    · have hm : max a b ≤ l.foldl max (max a b) := hle List.mem_cons_self
      rcases List.mem_cons.mp hh with rfl | hh
      · exact (le_max_left h b).trans hm
      · rcases List.mem_cons.mp hh with rfl | hh
        · exact (le_max_right a h).trans hm
        · exact hle (List.mem_cons_of_mem _ hh)

/-- The greatest of the first heights, with the floor of the slots that are left. -/
theorem isGreatest_floor (l : List EReal) {m : ℕ} (hm : 0 < m) :
    IsGreatest {h | h ∈ l.take m ∨ l.length < m ∧ h = 0}
      (if l.length < m then max ((l.take m).foldl max ⊥) 0 else (l.take m).foldl max ⊥) := by
  obtain ⟨hmem, hle⟩ := isGreatest_foldl_max (l.take m) ⊥
  split_ifs with hlt
  · refine ⟨?_, fun h hh => ?_⟩
    · show max ((l.take m).foldl max ⊥) 0 ∈ l.take m ∨ _
      rcases List.mem_cons.mp hmem with hbot | hmem
      · rw [hbot, bot_sup_eq]
        exact Or.inr ⟨hlt, rfl⟩
      · rcases max_choice ((l.take m).foldl max ⊥) 0 with hmax | hmax
        · rw [hmax]
          exact Or.inl hmem
        · rw [hmax]
          exact Or.inr ⟨hlt, rfl⟩
    · rcases hh with hh | ⟨-, rfl⟩
      · exact (hle (List.mem_cons_of_mem _ hh)).trans (le_max_left _ _)
      · exact le_max_right _ _
  · refine ⟨?_, fun h hh => ?_⟩
    · show (l.take m).foldl max ⊥ ∈ l.take m ∨ _
      rcases List.mem_cons.mp hmem with hbot | hmem
      · -- a full bin whose heights are all minus infinity
        have hne : l.take m ≠ [] := by
          intro hnil
          have hlen := congrArg List.length hnil
          rw [List.length_take, List.length_nil] at hlen
          omega
        have hhead := hle (List.mem_cons_of_mem _ (List.head_mem hne))
        rw [hbot] at hhead ⊢
        rw [← le_bot_iff.mp hhead]
        exact Or.inl (List.head_mem hne)
      · exact Or.inl hmem
    · rcases hh with hh | ⟨hlen, -⟩
      · exact hle (List.mem_cons_of_mem _ hh)
      · exact absurd hlen hlt

/-! ### The descriptor -/

theorem clip_eq {v : ℤ} {n : ℕ} (hv : 0 ≤ v) (hn : 0 < n) :
    (clip v n : ℤ) = (if v ≥ n then (n : ℤ) - 1 else v) ∧ clip v n < n := by
  unfold clip
  split_ifs with h <;> omega

/-- The bin of a point is the one of `pt2rs`. -/
theorem flatIndex_eq {numRing numSector : ℕ} (hring : 0 < numRing) (hsector : 0 < numSector)
    {maxLength : ℝ} (hlength : 0 < maxLength) (p : ValidPoint) :
    ∃ r s, r < numRing ∧ s < numSector ∧
      pt2rs p.x p.y (maxLength / numRing) (360 / numSector) numRing = ((r : ℤ), (s : ℤ)) ∧
      flatIndex numRing numSector maxLength p = r * numSector + s := by
  obtain ⟨htheta, hlo, hhi⟩ := pyMod_arctan2 (offAxis_ne_zero p.x) (offAxis_ne_zero p.y)
  have hringR : (0 : ℝ) < numRing := by exact_mod_cast hring
  have hsectorR : (0 : ℝ) < numSector := by exact_mod_cast hsector
  have hgap : (0 : ℝ) < 360 / numSector := div_pos (by norm_num) hsectorR
  have hfar : 0 ≤ ⌊√(offAxis p.x * offAxis p.x + offAxis p.y * offAxis p.y) /
      (maxLength / numRing)⌋ :=
    Int.floor_nonneg.mpr (div_nonneg (Real.sqrt_nonneg _) (div_pos hlength hringR).le)
  have hnonneg : 0 ≤ ⌊xy2theta (offAxis p.x) (offAxis p.y) / (360 / (numSector : ℝ))⌋ :=
    Int.floor_nonneg.mpr (div_nonneg hlo hgap.le)
  have hlt : ⌊xy2theta (offAxis p.x) (offAxis p.y) / (360 / (numSector : ℝ))⌋ < numSector := by
    refine Int.floor_lt.mpr ((div_lt_iff₀ hgap).mpr ?_)
    push_cast
    rwa [mul_div_cancel₀ _ hsectorR.ne']
  obtain ⟨hclipRing, hrlt⟩ := clip_eq hfar hring
  obtain ⟨hclipSector, hslt⟩ := clip_eq hnonneg hsector
  rw [if_neg (not_le.mpr hlt)] at hclipSector
  refine ⟨_, _, hrlt, hslt, ?_, ?_⟩
  · unfold pt2rs
    rw [hclipRing, hclipSector]
  · unfold flatIndex
    dsimp only
    rw [htheta]

/-- The heights of the points of a bin, in the order of the points. -/
noncomputable def arrivals (cloud : List Point) {numRing numSector : ℕ} (maxLength : ℝ)
    (i : Fin numRing) (j : Fin numSector) : List EReal :=
  ((cloud.filterMap Point.valid?).filter fun p =>
    pt2rs p.x p.y (maxLength / numRing) (360 / numSector) numRing = ((i : ℤ), (j : ℤ))).map
      ValidPoint.height

/-- Places of an array, row after row. -/
theorem rowMajor_inj {n r s i j : ℕ} (hs : s < n) (hj : j < n) :
    r * n + s = i * n + j ↔ r = i ∧ s = j := by
  constructor
  · intro h
    rw [Nat.mul_comm r, Nat.mul_comm i] at h
    have hdiv : (n * r + s) / n = (n * i + j) / n := by rw [h]
    have hmod : (n * r + s) % n = (n * i + j) % n := by rw [h]
    rw [Nat.mul_add_div (by omega), Nat.mul_add_div (by omega), Nat.div_eq_of_lt hs,
      Nat.div_eq_of_lt hj] at hdiv
    rw [Nat.mul_add_mod, Nat.mul_add_mod, Nat.mod_eq_of_lt hs, Nat.mod_eq_of_lt hj] at hmod
    exact ⟨hdiv, hmod⟩
  · rintro ⟨rfl, rfl⟩
    rfl

theorem rowMajor_lt {m n i j : ℕ} (hi : i < m) (hj : j < n) : i * n + j < m * n := by
  nlinarith

theorem flatIndex_eq_iff {numRing numSector : ℕ} {maxLength : ℝ} (hlength : 0 < maxLength)
    (p : ValidPoint) (i : Fin numRing) (j : Fin numSector) :
    flatIndex numRing numSector maxLength p = i * numSector + j ↔
      pt2rs p.x p.y (maxLength / numRing) (360 / numSector) numRing = ((i : ℤ), (j : ℤ)) := by
  obtain ⟨r, s, -, hs, hpt, hflat⟩ := flatIndex_eq (Fin.pos i) (Fin.pos j) hlength p
  rw [hpt, hflat, Prod.mk.injEq, Nat.cast_inj, Nat.cast_inj]
  exact rowMajor_inj hs j.isLt

theorem flatIndex_lt {numRing numSector : ℕ} {maxLength : ℝ} (hlength : 0 < maxLength)
    (p : ValidPoint) (i : Fin numRing) (j : Fin numSector) :
    flatIndex numRing numSector maxLength p < numRing * numSector := by
  obtain ⟨r, s, hr, hs, -, hflat⟩ := flatIndex_eq (Fin.pos i) (Fin.pos j) hlength p
  rw [hflat]
  exact rowMajor_lt hr hs

/-- The points of a bin are those with its index. -/
theorem arrivals_eq (cloud : List Point) {numRing numSector : ℕ} {maxLength : ℝ}
    (hlength : 0 < maxLength) (i : Fin numRing) (j : Fin numSector) :
    ((cloud.filterMap Point.valid?).filter fun p =>
      flatIndex numRing numSector maxLength p = i * numSector + j).map ValidPoint.height =
        arrivals cloud maxLength i j := by
  unfold arrivals
  congr 1
  exact List.filter_congr fun p _ => decide_eq_decide.mpr (flatIndex_eq_iff hlength p i j)

theorem map_getD_range (pts : List ValidPoint) :
    ((List.range pts.length).map fun i => pts.getD i default) = pts := by
  refine List.ext_getElem (by simp) fun i hi hi' => ?_
  rw [List.getElem_map, List.getElem_range, List.getD_eq_getElem _ _ hi']

/-- The indices of a bin stand for its points. -/
theorem map_group (f : ValidPoint → ℕ) (g : ValidPoint → EReal) (pts : List ValidPoint) (b : ℕ) :
    (group (pts.map f) b).map (fun i => (pts.map g).getD i 0) =
      (pts.filter fun p => f p = b).map g := by
  have hget : ∀ {β : Type} (h : ValidPoint → β) (d : β), ∀ i ∈ List.range pts.length,
      (pts.map h).getD i d = h (pts.getD i default) := by
    intro β h d i hi
    have hlt := List.mem_range.mp hi
    rw [List.getD_eq_getElem _ _ (by rwa [List.length_map]), List.getElem_map,
      List.getD_eq_getElem _ _ hlt]
  conv_rhs => rw [← map_getD_range pts, List.filter_map, List.map_map]
  unfold group
  rw [List.length_map]
  have hfilter : (List.range pts.length).filter (fun i => (pts.map f).getD i 0 = b) =
      (List.range pts.length).filter ((fun p => decide (f p = b)) ∘ fun i => pts.getD i default) :=
    List.filter_congr fun i hi => decide_eq_decide.mpr (by rw [hget f 0 i hi])
  rw [hfilter]
  exact List.map_congr_left fun i hi => hget g 0 i (List.mem_filter.mp hi).1

/-- **The batch computation is the sequential one**: a bin holds the greatest `z + 2` of the first
500 points that `pt2rs` puts into it, and zero if that is greater and the bin has fewer points. -/
theorem ptcloud2sc_isGreatest (cloud : List Point) (numRing numSector : ℕ) {maxLength : ℝ}
    (hlength : 0 < maxLength) (i : Fin numRing) (j : Fin numSector) :
    IsGreatest {h | h ∈ (arrivals cloud maxLength i j).take 500 ∨
        (arrivals cloud maxLength i j).length < 500 ∧ h = 0}
      (ptcloud2sc cloud numRing numSector maxLength i j) := by
  have hgreatest := isGreatest_floor (arrivals cloud maxLength i j) (m := 500) (by omega)
  convert hgreatest using 1
  set pts := cloud.filterMap Point.valid? with hpts
  have hgroup := map_group (flatIndex numRing numSector maxLength) ValidPoint.height pts
    (i * numSector + j)
  have harrivals := arrivals_eq cloud hlength i j
  rw [← hpts] at harrivals
  rw [harrivals] at hgroup
  by_cases hnone : pts.length = 0
  · -- a cloud without points
    have hempty : arrivals cloud maxLength i j = [] := by
      rw [← harrivals, List.length_eq_zero_iff.mp hnone]
      rfl
    unfold ptcloud2sc
    dsimp only
    rw [← hpts, if_pos hnone, hempty]
    simp
  · have hlt : ∀ b ∈ pts.map (flatIndex numRing numSector maxLength), b < numRing * numSector := by
      intro b hb
      obtain ⟨p, -, rfl⟩ := List.mem_map.mp hb
      exact flatIndex_lt hlength p i j
    have hb : (i : ℕ) * numSector + j < numRing * numSector := rowMajor_lt i.isLt j.isLt
    have hbin := getElem?_scBins (pts.map ValidPoint.height) hlt hb
    rw [List.map_take, hgroup] at hbin
    have hlen : (group (pts.map (flatIndex numRing numSector maxLength))
        (i * numSector + j)).length = (arrivals cloud maxLength i j).length := by
      rw [← hgroup, List.length_map]
    rw [hlen] at hbin
    unfold ptcloud2sc
    dsimp only
    rw [← hpts, if_neg hnone, Matrix.of_apply, List.getD_eq_getElem?_getD, hbin]
    rfl

/-- Points on an axis, with a missing coordinate and far away, in the shape of the handler. -/
theorem ptcloud2sc_isGreatest_three :
    IsGreatest {h | h ∈ (arrivals [⟨some 0, some 1, some 3⟩, ⟨none, some 1, some 7⟩,
          ⟨some 1, some (-500), some ⊤⟩] 80 (0 : Fin 20) (14 : Fin 60)).take 500 ∨
        (arrivals [⟨some 0, some 1, some 3⟩, ⟨none, some 1, some 7⟩,
          ⟨some 1, some (-500), some ⊤⟩] 80 (0 : Fin 20) (14 : Fin 60)).length < 500 ∧ h = 0}
      (ptcloud2sc [⟨some 0, some 1, some 3⟩, ⟨none, some 1, some 7⟩,
        ⟨some 1, some (-500), some ⊤⟩] 20 60 80 0 14) :=
  ptcloud2sc_isGreatest _ 20 60 (by norm_num) 0 14

end RoverSwarm.ScanContext
