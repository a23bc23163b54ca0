import RoverSwarm.Lib.FirstBest
import RoverSwarm.IkdTree.Contents

/-!
# IkdTree.Calls — what the mapping thread asks of the tree

`Add_Points` with downsampling keeps one point in each voxel: of the new point and those that the
voxel holds, the one closest to its middle.  It does so in two steps, since the points of the voxel
are deleted before that point is added.
-/

namespace RoverSwarm.IkdTree

open KdTree

variable {P : Type} [PointType P]

/-! ### The calls -/

section Definitions

variable (params : Params P)

/-- One point of `Add_Points` without downsampling.  `none` is an access through a null root. -/
def addPoint (point : P) (t : KdTree P) (s : Shared P) : Option (KdTree P × Shared P) :=
  match t with
  | .nullptr => none
  | .node n l r =>
    let added := addByPoint params point (KdTree.node n l r).height (s.allows [] true)
      n.divisionAxis [] (.node n l r) s
    some (added.1, added.2.logAt [] s (.addPoint point))

/-- One point of `Delete_Points`. -/
def deletePoint (point : P) (t : KdTree P) (s : Shared P) : KdTree P × Shared P :=
  let deleted := deleteByPoint params point t.height (s.allows [] true) [] t s
  (deleted.1, deleted.2.logAt [] s (.deletePoint point))

/-- One box of `Delete_Point_Boxes`. -/
def deletePointBox (box : BoxPointType) (t : KdTree P) (s : Shared P) : Deleted P :=
  let deleted := deleteByRange params box false t.height (s.allows [] true) [] t s
  ⟨deleted.tree, deleted.count, deleted.shared.logAt [] s (.deleteBox box)⟩

def deletePointBoxes (boxes : List BoxPointType) (t : KdTree P) (s : Shared P) : Deleted P :=
  boxes.foldl (fun deleted box =>
    let next := deletePointBox params box deleted.tree deleted.shared
    ⟨next.tree, deleted.count + next.count, next.shared⟩) ⟨t, 0, s⟩

/-- `Box_of_Point` -/
def voxel (size : ℚ) (p : P) : BoxPointType where
  vertexMin i := fl P (⌊fl P (xyz p i / size)⌋ * size)
  vertexMax i := fl P (fl P (⌊fl P (xyz p i / size)⌋ * size) + size)

variable (P) in
/-- `mid_point`; the division by `2.0` and the sum are those of doubles. -/
def BoxPointType.mid (box : BoxPointType) (i : Fin 3) : ℚ :=
  fl P (dbl P (box.vertexMin i + dbl P (fl P (box.vertexMax i - box.vertexMin i) / 2)))

/-- The point `a` is closer to `mid` than `b`. -/
def Closer (mid : Fin 3 → ℚ) (a b : P) : Prop := calcDist P (xyz a) mid < calcDist P (xyz b) mid

instance (mid : Fin 3 → ℚ) : DecidableRel (Closer mid : P → P → Prop) :=
  fun a b => inferInstanceAs (Decidable (calcDist P (xyz a) mid < calcDist P (xyz b) mid))

/-- What `Add_Points` has found out about a point when it comes to add one. -/
structure Adding (P : Type) where
  /-- `downsample_result` -/
  point : P
  box : BoxPointType
  /-- There were points in the voxel, which have been deleted. -/
  occupied : Bool
  /-- `*Rebuild_Ptr` was the root, and the working flag mutex is held. -/
  whole : Bool

structure Downsampled (P : Type) where
  tree : KdTree P
  shared : Shared P
  adding : Option (Adding P)

/-- One point of `Add_Points` with downsampling, up to `Add_by_point`. -/
def beginAdd (point : P) (t : KdTree P) (s : Shared P) : Downsampled P :=
  let box := voxel params.downsampleSize point
  let found := searchByRange box t.height [] t s
  let result := FirstBest.firstBest (Closer (box.mid P)) point found.1
  let whole := found.2.2.isAt []
  if 1 < found.1.length || samePoint point result then
    let occupied := decide (0 < found.1.length)
    let deleted :=
      if occupied then deleteByRange params box true found.2.1.height (!whole) [] found.2.1 found.2.2
      else ⟨found.2.1, 0, found.2.2⟩
    ⟨deleted.tree, deleted.shared, some ⟨result, box, occupied, whole⟩⟩
  else ⟨found.2.1, found.2.2, none⟩

/-- The rest of it. -/
def endAdd (adding : Adding P) (t : KdTree P) (s : Shared P) : Option (KdTree P × Shared P) :=
  match t with
  | .nullptr => none
  | .node n l r =>
    let added := addByPoint params adding.point (KdTree.node n l r).height (!adding.whole)
      n.divisionAxis [] (.node n l r) s
    let s :=
      if adding.whole then
        (if adding.occupied then added.2.log (.downsampleDelete adding.box) else added.2).log
          (.addPoint adding.point)
      else added.2
    some (added.1, s)

end Definitions

/-! ### What they do to the points -/

variable {params : Params P} {point : P} {t t' : KdTree P} {s s' : Shared P}

theorem addPoint_spec (h : WellFormed t) (hadd : addPoint params point t s = some (t', s')) :
    WellFormed t' ∧ t'.live = point ::ₘ t.live := by
  cases t with
  | nullptr => cases hadd
  | node n l r =>
    obtain ⟨hwf, hlive, -⟩ := addByPoint_spec params point (le_refl _) h (s.allows [] true)
      n.divisionAxis [] s
    obtain ⟨rfl, -⟩ := Prod.mk.inj (Option.some.inj hadd)
    exact ⟨hwf, hlive⟩

theorem endAdd_spec {adding : Adding P} (h : WellFormed t)
    (hadd : endAdd params adding t s = some (t', s')) :
    WellFormed t' ∧ t'.live = adding.point ::ₘ t.live := by
  cases t with
  | nullptr => cases hadd
  | node n l r =>
    obtain ⟨hwf, hlive, -⟩ := addByPoint_spec params adding.point (le_refl _) h (!adding.whole)
      n.divisionAxis [] s
    obtain ⟨rfl, -⟩ := Prod.mk.inj (Option.some.inj hadd)
    exact ⟨hwf, hlive⟩

theorem deletePointBox_spec (params : Params P) (box : BoxPointType) (h : WellFormed t)
    (s : Shared P) : WellFormed (deletePointBox params box t s).tree ∧
      (deletePointBox params box t s).tree.live = outside box t.live ∧
      (deletePointBox params box t s).count + (outside box t.live).card = t.live.card := by
  obtain ⟨hwf, hlive, hcount, -⟩ := deleteByRange_spec params box false (le_refl _) h
    (s.allows [] true) [] s
  exact ⟨hwf, hlive, hcount⟩

/-- The points that are in none of the boxes. -/
def outsideAll (boxes : List BoxPointType) (points : Multiset P) : Multiset P :=
  points.filter fun p => ∀ box ∈ boxes, box.contains p = false

/-- `Delete_Point_Boxes` deletes the points that are in one of the boxes and counts them. -/
theorem deletePointBoxes_spec (params : Params P) (boxes : List BoxPointType) (h : WellFormed t)
    (s : Shared P) : WellFormed (deletePointBoxes params boxes t s).tree ∧
      (deletePointBoxes params boxes t s).tree.live = outsideAll boxes t.live ∧
      (deletePointBoxes params boxes t s).count + (outsideAll boxes t.live).card = t.live.card := by
  induction boxes using List.reverseRecOn with
  | nil => exact ⟨h, by simp [deletePointBoxes, outsideAll], by simp [deletePointBoxes, outsideAll]⟩
  | append_singleton boxes box ih =>
    obtain ⟨hwf, hlive, hcount⟩ := ih
    have hall : outsideAll (boxes ++ [box]) t.live = outside box (outsideAll boxes t.live) := by
      rw [outside, outsideAll, outsideAll, Multiset.filter_filter]
      refine Multiset.filter_congr fun p _ => ?_
      rw [List.forall_mem_append, List.forall_mem_singleton, and_comm]
    unfold deletePointBoxes at hwf hlive hcount ⊢
    rw [List.foldl_append, hall]
    generalize boxes.foldl _ _ = deleted at hwf hlive hcount ⊢
    obtain ⟨hwf', hlive', hcount'⟩ := deletePointBox_spec params box hwf deleted.shared
    rw [hlive] at hlive' hcount'
    refine ⟨hwf', hlive', ?_⟩
    show deleted.count + (deletePointBox params box deleted.tree deleted.shared).count + _ = _
    omega

/-! ### Downsampling -/

instance (mid : Fin 3 → ℚ) : IsStrictOrder P (Closer mid) where
  irrefl a := lt_irrefl (calcDist P (xyz a) mid)
  trans _ _ _ hab hbc := lt_trans (α := ℚ) hab hbc

/-- The voxels tile the space: every point lies in its own, as it is computed, and in no other. -/
structure Tiles (P : Type) [PointType P] (size : ℚ) : Prop where
  contains : ∀ p : P, (voxel size p).contains p = true
  eq : ∀ p q : P, (voxel size q).contains p = true → voxel size p = voxel size q

/-- They do if no corner has to be rounded, as for a size that is a power of two and coordinates that
are not too large. -/
theorem tiles_of_exact {size : ℚ} (hsize : 0 < size)
    (hquotient : ∀ (p : P) i, fl P (xyz p i / size) = xyz p i / size)
    (hmin : ∀ (p : P) i, fl P (⌊xyz p i / size⌋ * size) = ⌊xyz p i / size⌋ * size)
    (hmax : ∀ (p : P) i, fl P (⌊xyz p i / size⌋ * size + size) = ⌊xyz p i / size⌋ * size + size) :
    Tiles P size := by
  have hvoxel : ∀ q : P, voxel size q =
      ⟨fun i => ⌊xyz q i / size⌋ * size, fun i => ⌊xyz q i / size⌋ * size + size⟩ := by
    intro q
    unfold voxel
    simp only [hquotient, hmin, hmax]
  have hiff : ∀ p q : P, (voxel size q).contains p = true ↔
      ∀ i, ⌊xyz p i / size⌋ = ⌊xyz q i / size⌋ := by
    intro p q
    rw [hvoxel]
    refine decide_eq_true_iff.trans (forall_congr' fun i => ?_)
    rw [Int.floor_eq_iff, le_div_iff₀ hsize, div_lt_iff₀ hsize, add_mul, one_mul]
  refine ⟨fun p => (hiff p p).mpr fun _ => rfl, fun p q h => ?_⟩
  rw [hvoxel, hvoxel]
  simp only [(hiff p q).mp h]

/-- What `beginAdd` has decided: to leave the voxel as it is, or to put a point into it. -/
def Decided (point : P) (box : BoxPointType) (before after : Multiset P) : Option (Adding P) → Prop
  | none => after = before ∧ ∃ x, inside box before = {x} ∧ Closer (box.mid P) x point
  | some adding => adding.box = box ∧ after = outside box before ∧
      adding.point ∈ point ::ₘ inside box before ∧
      ∀ y ∈ point ::ₘ inside box before, ¬Closer (box.mid P) y adding.point

theorem samePoint_self (p : P) : samePoint p p = true := by
  refine decide_eq_true fun i => ?_
  rw [sub_self, (fl P).round_zero, abs_zero]
  norm_num [EPSS]

theorem outside_of_inside_eq_zero {box : BoxPointType} {points : Multiset P}
    (h : inside box points = 0) : outside box points = points := by
  refine Multiset.filter_eq_self.mpr fun p hp => eq_false_of_ne_true fun hin => ?_
  exact Multiset.filter_eq_nil.mp h p hp hin

theorem beginAdd_spec (params : Params P) (point : P) (h : WellFormed t) (s : Shared P) :
    WellFormed (beginAdd params point t s).tree ∧
      Decided point (voxel params.downsampleSize point) t.live (beginAdd params point t s).tree.live
        (beginAdd params point t s).adding := by
  have hfound := searchByRange_spec (voxel params.downsampleSize point) (le_refl _) h [] s
  have hkept := (searchByRange_handed (voxel params.downsampleSize point) t.height [] t s).kept h
  unfold beginAdd
  dsimp only
  generalize searchByRange (voxel params.downsampleSize point) t.height [] t s = found
    at hfound hkept
  generalize voxel params.downsampleSize point = box at hfound
  have hmem : FirstBest.firstBest (Closer (box.mid P)) point found.1 ∈ point :: found.1 :=
    FirstBest.firstBest_mem found.1
  have hbest : ∀ y ∈ point :: found.1,
      ¬Closer (box.mid P) y (FirstBest.firstBest (Closer (box.mid P)) point found.1) :=
    fun y hy => FirstBest.not_beats_firstBest hy
  by_cases hadd : 1 < found.1.length ∨
      samePoint point (FirstBest.firstBest (Closer (box.mid P)) point found.1) = true
  · rw [if_pos (by simpa using hadd)]
    have hdecided : FirstBest.firstBest (Closer (box.mid P)) point found.1 ∈
          point ::ₘ inside box t.live ∧
        ∀ y ∈ point ::ₘ inside box t.live,
          ¬Closer (box.mid P) y (FirstBest.firstBest (Closer (box.mid P)) point found.1) := by
      rw [← hfound, Multiset.cons_coe]
      exact ⟨hmem, hbest⟩
    cases hlen : decide (0 < found.1.length) with
    | true =>
      obtain ⟨hwf, hlive, -, -⟩ := deleteByRange_spec params box true (le_refl _) hkept.wellFormed
        (!found.2.2.isAt []) [] found.2.2
      exact ⟨hwf, rfl, hlive.trans (by rw [hkept.live]), hdecided⟩
    | false =>
      have hnil : found.1 = [] := List.eq_nil_of_length_eq_zero (by simpa using hlen)
      have hnone : inside box t.live = 0 := by rw [← hfound, hnil]; rfl
      exact ⟨hkept.wellFormed, rfl, hkept.live.trans (outside_of_inside_eq_zero hnone).symm,
        hdecided⟩
  · rw [if_neg (by simpa using hadd)]
    rw [not_or] at hadd
    have hne : FirstBest.firstBest (Closer (box.mid P)) point found.1 ≠ point := by
      intro heq
      rw [heq] at hadd
      exact hadd.2 (samePoint_self point)
    obtain ⟨x, hx, hcloser⟩ := FirstBest.firstBest_ne_start_iff.mp hne
    refine ⟨hkept.wellFormed, hkept.live, x, ?_, hcloser⟩
    obtain ⟨y, hy⟩ := List.length_eq_one_iff.mp
      (le_antisymm (not_lt.mp hadd.1) (List.length_pos_of_mem hx))
    rw [hy] at hx hfound
    obtain rfl := List.mem_singleton.mp hx
    exact hfound.symm

theorem inside_cons_outside {box : BoxPointType} {x : P} (hx : box.contains x = true)
    (points : Multiset P) : inside box (x ::ₘ outside box points) = {x} ∧
      outside box (x ::ₘ outside box points) = outside box points := by
  unfold inside outside
  refine ⟨?_, ?_⟩
  · have hnone : (points.filter fun p => box.contains p = false).filter
        (fun p => box.contains p = true) = 0 := by
      refine Multiset.filter_eq_nil.mpr fun p hp hin => ?_
      rw [(Multiset.mem_filter.mp hp).2] at hin
      cases hin
    rw [Multiset.filter_cons_of_pos (p := fun p => box.contains p = true) _ hx, hnone]
    rfl
  · rw [Multiset.filter_cons_of_neg (p := fun p => box.contains p = false) _ (by simp [hx])]
    exact Multiset.filter_eq_self.mpr fun p hp => (Multiset.mem_filter.mp hp).2

end RoverSwarm.IkdTree
