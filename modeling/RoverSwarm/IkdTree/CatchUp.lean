import RoverSwarm.IkdTree.Runs
import RoverSwarm.IkdTree.Replay

/-!
# IkdTree.CatchUp — the mapping thread at work on a tree that is partly being rebuilt

Every call on the whole tree does to the subtree of the rebuild thread what `Watched` allows, at
whatever path it lies: what is done in other parts of the tree is not logged, and a tree with a
subtree as large as this is not rebuilt by the mapping thread.
-/

namespace RoverSwarm.IkdTree

open KdTree

variable {P : Type} {params : Params P} {n : KdTreeNode P} {l r t t' u : KdTree P}
  {here rel : Path} {side : Side} {s s' : Shared P} {op : Operation P} {depth : ℕ}

/-! ### Away from the subtree -/

/-- `Points_deleted` after a tree was rebuilt. -/
def Shared.noting (s : Shared P) (points : List P) : Shared P := { s with pointsDeleted := points }

theorem Away.noting (h : Away s here) (points : List P) : Away (s.noting points) here := h

/-- While the rebuild thread is at work no other subtree is asked for. -/
theorem request_of_locked (hlocked : s.locked = true) (path : Path) (treeSize : ℕ) :
    s.request path treeSize = s := by
  unfold Shared.request
  rw [if_pos hlocked]

theorem log_rebuildPtr (s : Shared P) (ptr : Option (Path × ℕ)) (op : Operation P) :
    ({ s with rebuildPtr := ptr } : Shared P).log op = { s.log op with rebuildPtr := ptr } := by
  unfold Shared.log
  split_ifs <;> rfl

section Points

variable [PointType P] {bag : Multiset P}

theorem Watched.noting (h : Watched params here bag t s) (points : List P) :
    Watched params here bag t (s.noting points) :=
  ⟨h.wellFormed, h.large, h.pointer, h.locked, h.flag, h.logged⟩

theorem finish_locked (hlocked : s.locked = true) (haway : Away s here) (allow : Bool)
    (n : KdTreeNode P) (l r : KdTree P) :
    ∃ points, (finish params allow here n l r s).2 = s.noting points := by
  unfold finish
  dsimp only
  rw [resize_of_away haway]
  split_ifs
  · unfold rebuild
    split_ifs
    · exact ⟨_, request_of_locked hlocked _ _⟩
    · dsimp only
      rw [(flatten_handed _ _ _ _).shared_eq haway.son]
      exact ⟨_, rfl⟩
  · exact ⟨_, rfl⟩

theorem addByPoint_locked (point : P) (allow : Bool) (axis : Fin 3) (t : KdTree P)
    (hlocked : s.locked = true) (h : Away s here) :
    ∃ points, (addByPoint params point depth allow axis here t s).2 = s.noting points := by
  induction depth generalizing allow axis here t s with
  | zero => cases t <;> exact ⟨_, rfl⟩
  | succ depth ih =>
    cases t with
    | nullptr => exact ⟨_, rfl⟩
    | node n l r =>
      unfold addByPoint
      dsimp only
      rw [pushDown_of_away h.son]
      split_ifs
      · obtain ⟨points, hpoints⟩ := ih (s.allows (here ++ [.left]) allow) n.divisionAxis
          (n.pushLeft l) hlocked (h.son .left)
        rw [hpoints, logAt_of_away (h.son .left)]
        exact finish_locked (s := s.noting points) hlocked h _ _ _ _
      · obtain ⟨points, hpoints⟩ := ih (s.allows (here ++ [.right]) allow) n.divisionAxis
          (n.pushRight r) hlocked (h.son .right)
        rw [hpoints, logAt_of_away (h.son .right)]
        exact finish_locked (s := s.noting points) hlocked h _ _ _ _

theorem deleteByRange_locked (box : BoxPointType) (isDownsample allow : Bool) (t : KdTree P)
    (hlocked : s.locked = true) (h : Away s here) :
    ∃ points, (deleteByRange params box isDownsample depth allow here t s).shared =
      s.noting points := by
  induction depth generalizing allow here t s with
  | zero => cases t <;> exact ⟨_, rfl⟩
  | succ depth ih =>
    cases t with
    | nullptr => exact ⟨_, rfl⟩
    | node n l r =>
      unfold deleteByRange
      dsimp only
      rw [pushDown_of_away h.son]
      obtain ⟨points, hpoints⟩ := ih (s.allows (here ++ [.left]) allow) (n.pushLeft l) hlocked
        (h.son .left)
      have hright := ih ((s.noting points).allows (here ++ [.right]) allow) (n.pushRight r)
        (s := s.noting points) hlocked (h.son .right)
      obtain ⟨points', hpoints'⟩ := hright
      split_ifs
      · exact ⟨_, rfl⟩
      · exact ⟨_, rfl⟩
      · exact ⟨_, rfl⟩
      all_goals
        rw [hpoints, logAt_of_away (h.son .left), hpoints',
          logAt_of_away ((h.son .right).noting points)]
        exact finish_locked (s := s.noting points') hlocked h _ _ _ _

/-! ### Above the subtree -/

/-- The pointer leads further down. -/
theorem Watched.isAt_above (h : Watched params (here ++ side :: rel) bag u s) :
    s.isAt here = false := by
  refine eq_false_of_ne_true fun hat => ?_
  obtain ⟨size, hsize⟩ := isAt_iff.mp hat
  rw [h.pointer] at hsize
  have hpath : here ++ side :: rel = here := (Prod.mk.inj (Option.some.inj hsize)).1
  have hlength := congrArg List.length hpath
  simp at hlength

/-- A node above a large subtree is updated, but not rebuilt. -/
theorem finish_of_large (hlarge : params.multiThreadRebuildPointNum ≤ l.treeSize + r.treeSize + 1)
    (hlocked : s.locked = true) (hat : s.isAt here = false) (allow : Bool) (n : KdTreeNode P) :
    IkdTree.finish params allow here n l r s = (.node (n.update l r).idle l r, s) := by
  have hsize : params.multiThreadRebuildPointNum ≤ (n.update l r).idle.treeSize := hlarge
  have hresize : s.resize params here (n.update l r).idle.treeSize = s := by
    unfold Shared.resize
    rw [hat]
    rfl
  unfold IkdTree.finish
  dsimp only
  rw [hresize]
  split_ifs
  · unfold rebuild
    rw [if_pos hsize, request_of_locked hlocked]
  · rfl

theorem Watched.finish (allow : Bool) (hl : WellFormed l) (hr : WellFormed r)
    (h : Watched params (here ++ side :: rel) bag ((KdTree.node n l r).sub (side :: rel)) s) :
    Watched params (here ++ side :: rel) bag
      ((IkdTree.finish params allow here n l r s).1.sub (side :: rel))
      (IkdTree.finish params allow here n l r s).2 := by
  have hsize : params.multiThreadRebuildPointNum ≤ l.treeSize + r.treeSize + 1 := by
    have hlarge := h.large
    have hleft := hl.nodeCount_le
    have hright := hr.nodeCount_le
    cases side with
    | left =>
      have hsub : ((KdTree.node n l r).sub (.left :: rel)).nodeCount ≤ l.nodeCount :=
        nodeCount_sub_le l rel
      omega
    | right =>
      have hsub : ((KdTree.node n l r).sub (.right :: rel)).nodeCount ≤ r.nodeCount :=
        nodeCount_sub_le r rel
      omega
  rw [finish_of_large hsize h.locked h.isAt_above]
  cases side <;> exact h

theorem Watched.push (hlarge : 2 ≤ params.multiThreadRebuildPointNum) (n' : KdTreeNode P)
    (hwf : WellFormed (.node n l r))
    (h : Watched params (here ++ side :: rel) bag ((KdTree.node n l r).sub (side :: rel)) s) :
    Watched params (here ++ side :: rel) bag
      ((KdTree.node n' (n.pushLeft l) (n.pushRight r)).sub (side :: rel)) (s.pushDown here n l r) := by
  cases side with
  | left =>
    have hright : s.isAt (here ++ [.right]) = false := (away_other (by simp) h.pointer).isAt_eq
    cases rel with
    | nil =>
      simp only [KdTree.sub, sub_nil] at h ⊢
      rw [pushDown_at_left h.pointer (h.not_isNull hlarge)]
      exact h.receive hlarge hwf.pushLeft.wellFormed hwf.1.stale_left
    | cons side rel =>
      rw [List.append_cons] at h ⊢
      rw [pushDown_eq h.isAt_above hright]
      simp only [KdTree.sub, sub_pushLeft] at h ⊢
      exact h
  | right =>
    have hleft : s.isAt (here ++ [.left]) = false := (away_other (by simp) h.pointer).isAt_eq
    cases rel with
    | nil =>
      simp only [KdTree.sub, sub_nil] at h ⊢
      rw [pushDown_at_right h.pointer (h.not_isNull hlarge)]
      exact h.receive hlarge hwf.pushRight.wellFormed hwf.1.stale_right
    | cons side rel =>
      rw [List.append_cons] at h ⊢
      rw [pushDown_eq hleft h.isAt_above]
      simp only [KdTree.sub, sub_pushRight] at h ⊢
      exact h

/-- An operation on the left son. -/
theorem Watched.leftSon (n' : KdTreeNode P) (op : Operation P)
    (h : Watched params (here ++ side :: rel) bag ((KdTree.node n l r).sub (side :: rel)) s)
    (hat : Watched params (here ++ [.left]) bag l s →
      Watched params (here ++ [.left]) bag t' (s'.logAt (here ++ [.left]) s op))
    (hin : ∀ side rel, Watched params (here ++ [.left] ++ side :: rel) bag (l.sub (side :: rel)) s →
      Watched params (here ++ [.left] ++ side :: rel) bag (t'.sub (side :: rel)) s')
    (hout : s.locked = true → Away s (here ++ [.left]) → ∃ points, s' = s.noting points) :
    Watched params (here ++ side :: rel) bag ((KdTree.node n' t' r).sub (side :: rel))
      (s'.logAt (here ++ [.left]) s op) := by
  cases side with
  | left =>
    cases rel with
    | nil =>
      simp only [KdTree.sub, sub_nil] at h ⊢
      exact hat h
    | cons side rel =>
      rw [List.append_cons] at h ⊢
      unfold Shared.logAt
      rw [h.isAt_above]
      exact hin side rel h
  | right =>
    have haway : Away s (here ++ [.left]) := away_other (by simp) h.pointer
    obtain ⟨points, rfl⟩ := hout h.locked haway
    rw [logAt_of_away haway]
    exact h.noting points

theorem Watched.rightSon (n' : KdTreeNode P) (op : Operation P)
    (h : Watched params (here ++ side :: rel) bag ((KdTree.node n l r).sub (side :: rel)) s)
    (hat : Watched params (here ++ [.right]) bag r s →
      Watched params (here ++ [.right]) bag t' (s'.logAt (here ++ [.right]) s op))
    (hin : ∀ side rel, Watched params (here ++ [.right] ++ side :: rel) bag (r.sub (side :: rel)) s →
      Watched params (here ++ [.right] ++ side :: rel) bag (t'.sub (side :: rel)) s')
    (hout : s.locked = true → Away s (here ++ [.right]) → ∃ points, s' = s.noting points) :
    Watched params (here ++ side :: rel) bag ((KdTree.node n' l t').sub (side :: rel))
      (s'.logAt (here ++ [.right]) s op) := by
  cases side with
  | left =>
    have haway : Away s (here ++ [.right]) := away_other (by simp) h.pointer
    obtain ⟨points, rfl⟩ := hout h.locked haway
    rw [logAt_of_away haway]
    exact h.noting points
  | right =>
    cases rel with
    | nil =>
      simp only [KdTree.sub, sub_nil] at h ⊢
      exact hat h
    | cons side rel =>
      rw [List.append_cons] at h ⊢
      unfold Shared.logAt
      rw [h.isAt_above]
      exact hin side rel h

/-! ### Operations on the tree around the subtree -/

theorem addByPoint_watched (hlarge : 2 ≤ params.multiThreadRebuildPointNum) (point : P)
    (hdepth : t.height ≤ depth) (hwf : WellFormed t) (allow : Bool) (axis : Fin 3)
    (h : Watched params (here ++ side :: rel) bag (t.sub (side :: rel)) s) :
    Watched params (here ++ side :: rel) bag
      ((addByPoint params point depth allow axis here t s).1.sub (side :: rel))
      (addByPoint params point depth allow axis here t s).2 := by
  induction depth generalizing t here side rel allow axis s with
  | zero =>
    cases t with
    | nullptr => exact absurd (h.pos hlarge) (lt_irrefl 0)
    | node n l r => simp [KdTree.height] at hdepth
  | succ depth ih =>
    cases t with
    | nullptr => exact absurd (h.pos hlarge) (lt_irrefl 0)
    | node n l r =>
      have hpush := h.push hlarge (n.afterPush l r) hwf
      have hl := hwf.pushLeft.wellFormed
      have hr := hwf.pushRight.wellFormed
      unfold addByPoint
      dsimp only
      split_ifs
      · refine Watched.finish allow
          (addByPoint_spec params point (height_left_le hdepth) hl _ _ _ _).1 hr ?_
        refine hpush.leftSon _ _ (fun hat => ?_) (fun side rel hin => ?_) (fun hlocked haway => ?_)
        · rw [hat.allows]
          exact hat.addByPoint hlarge point (height_left_le hdepth) n.divisionAxis
        · exact ih (height_left_le hdepth) hl _ _ hin
        · exact addByPoint_locked point _ _ _ hlocked haway
      · refine Watched.finish allow hl
          (addByPoint_spec params point (height_right_le hdepth) hr _ _ _ _).1 ?_
        refine hpush.rightSon _ _ (fun hat => ?_) (fun side rel hin => ?_) (fun hlocked haway => ?_)
        · rw [hat.allows]
          exact hat.addByPoint hlarge point (height_right_le hdepth) n.divisionAxis
        · exact ih (height_right_le hdepth) hr _ _ hin
        · exact addByPoint_locked point _ _ _ hlocked haway

theorem deleteByRange_watched (hlarge : 2 ≤ params.multiThreadRebuildPointNum) (box : BoxPointType)
    (isDownsample : Bool) (hdepth : t.height ≤ depth) (hwf : WellFormed t) (allow : Bool)
    (h : Watched params (here ++ side :: rel) bag (t.sub (side :: rel)) s) :
    Watched params (here ++ side :: rel) bag
      ((deleteByRange params box isDownsample depth allow here t s).tree.sub (side :: rel))
      (deleteByRange params box isDownsample depth allow here t s).shared := by
  induction depth generalizing t here side rel allow s with
  | zero =>
    cases t with
    | nullptr => exact absurd (h.pos hlarge) (lt_irrefl 0)
    | node n l r => simp [KdTree.height] at hdepth
  | succ depth ih =>
    cases t with
    | nullptr => exact absurd (h.pos hlarge) (lt_irrefl 0)
    | node n l r =>
      have hpush := fun n' => h.push hlarge n' hwf
      have hl := hwf.pushLeft.wellFormed
      have hr := hwf.pushRight.wellFormed
      unfold deleteByRange
      by_cases htree : n.treeDeleted = true
      · rw [if_pos htree]
        exact h
      rw [if_neg htree]
      dsimp only
      by_cases hmisses : box.misses n.nodeRange = true
      · rw [if_pos hmisses]
        exact hpush _
      rw [if_neg hmisses]
      by_cases hcovers : box.covers n.nodeRange = true
      · rw [if_pos hcovers]
        exact hpush _
      rw [if_neg hcovers]
      refine Watched.finish allow
        (deleteByRange_spec params box isDownsample (height_left_le hdepth) hl _ _ _).1
        (deleteByRange_spec params box isDownsample (height_right_le hdepth) hr _ _ _).1 ?_
      -- the right son finds what the left one has left
      refine Watched.rightSon _ _ (Watched.leftSon n _ (hpush n) (fun hat => ?_)
        (fun side rel hin => ?_) (fun hlocked haway => ?_)) (fun hat => ?_) (fun side rel hin => ?_)
        (fun hlocked haway => ?_)
      · rw [hat.allows]
        exact hat.deleteByRange box isDownsample (height_left_le hdepth)
      · exact ih (height_left_le hdepth) hl _ hin
      · exact deleteByRange_locked box isDownsample _ _ hlocked haway
      · rw [hat.allows]
        exact hat.deleteByRange box isDownsample (height_right_le hdepth)
      · exact ih (height_right_le hdepth) hr _ hin
      · exact deleteByRange_locked box isDownsample _ _ hlocked haway

theorem Handed.watched (h : Handed here t s t' s') (hlarge : 2 ≤ params.multiThreadRebuildPointNum)
    (hwf : WellFormed t) (hw : Watched params (here ++ rel) bag (t.sub rel) s) :
    Watched params (here ++ rel) bag (t'.sub rel) s' := by
  induction h generalizing rel with
  | refl => exact hw
  | trans h _ ih ih' => exact ih' (h.kept hwf).wellFormed (ih hwf hw)
  | push here n l r s =>
    cases rel with
    | nil =>
      simp only [List.append_nil, sub_nil] at hw ⊢
      exact hw.handed (.push here n l r s)
    | cons side rel => exact hw.push hlarge _ hwf
  | @left here n l l' r s s' h ih =>
    cases rel with
    | nil =>
      simp only [List.append_nil, sub_nil] at hw ⊢
      exact hw.handed (.left h)
    | cons side rel =>
      cases side with
      | left =>
        rw [List.append_cons] at hw ⊢
        exact ih hwf.2.1 hw
      | right =>
        have haway : Away s (here ++ [.left]) := away_other (by simp) hw.pointer
        rw [h.shared_eq haway.son]
        exact hw
  | @right here n l r r' s s' h ih =>
    cases rel with
    | nil =>
      simp only [List.append_nil, sub_nil] at hw ⊢
      exact hw.handed (.right h)
    | cons side rel =>
      cases side with
      | left =>
        have haway : Away s (here ++ [.right]) := away_other (by simp) hw.pointer
        rw [h.shared_eq haway.son]
        exact hw
      | right =>
        rw [List.append_cons] at hw ⊢
        exact ih hwf.2.2 hw

/-! ### The calls -/

theorem addPoint_watched {point : P} (hlarge : 2 ≤ params.multiThreadRebuildPointNum)
    (hwf : WellFormed t) (h : Watched params rel bag (t.sub rel) s)
    (hadd : addPoint params point t s = some (t', s')) : Watched params rel bag (t'.sub rel) s' := by
  cases t with
  | nullptr => cases hadd
  | node n l r =>
    obtain ⟨rfl, rfl⟩ := Prod.mk.inj (Option.some.inj hadd)
    cases rel with
    | nil =>
      rw [sub_nil] at h ⊢
      rw [h.allows]
      exact h.addByPoint hlarge point (le_refl _) n.divisionAxis
    | cons side rel =>
      have h : Watched params ([] ++ side :: rel) bag _ s := h
      unfold Shared.logAt
      rw [h.isAt_above]
      exact addByPoint_watched hlarge point (le_refl _) hwf _ _ h

theorem deletePointBox_watched (hlarge : 2 ≤ params.multiThreadRebuildPointNum) (box : BoxPointType)
    (hwf : WellFormed t) (h : Watched params rel bag (t.sub rel) s) :
    Watched params rel bag ((deletePointBox params box t s).tree.sub rel)
      (deletePointBox params box t s).shared := by
  unfold deletePointBox
  dsimp only
  cases rel with
  | nil =>
    rw [sub_nil] at h ⊢
    rw [h.allows]
    exact h.deleteByRange box false (le_refl _)
  | cons side rel =>
    have h : Watched params ([] ++ side :: rel) bag _ s := h
    unfold Shared.logAt
    rw [h.isAt_above]
    exact deleteByRange_watched hlarge box false (le_refl _) hwf _ h

/-- What `beginAdd` has done to the tree. -/
theorem beginAdd_cases (params : Params P) (point : P) (t : KdTree P) (s : Shared P) :
    ∃ t₁ s₁, Handed [] t s t₁ s₁ ∧
      (((beginAdd params point t s).adding = none ∧ (beginAdd params point t s).tree = t₁ ∧
        (beginAdd params point t s).shared = s₁) ∨
      ∃ adding, (beginAdd params point t s).adding = some adding ∧ adding.whole = s₁.isAt [] ∧
        ((adding.occupied = false ∧ (beginAdd params point t s).tree = t₁ ∧
          (beginAdd params point t s).shared = s₁) ∨
        (adding.occupied = true ∧
          (beginAdd params point t s).tree =
            (deleteByRange params adding.box true t₁.height (!adding.whole) [] t₁ s₁).tree ∧
          (beginAdd params point t s).shared =
            (deleteByRange params adding.box true t₁.height (!adding.whole) [] t₁ s₁).shared))) := by
  refine ⟨_, _, searchByRange_handed (voxel params.downsampleSize point) t.height [] t s, ?_⟩
  unfold beginAdd
  dsimp only
  generalize searchByRange (voxel params.downsampleSize point) t.height [] t s = found
  split_ifs with hadd hlen
  · exact Or.inr ⟨_, rfl, rfl, Or.inr ⟨hlen, rfl, rfl⟩⟩
  · exact Or.inr ⟨_, rfl, rfl, Or.inl ⟨eq_false_of_ne_true hlen, rfl, rfl⟩⟩
  · exact Or.inl ⟨rfl, rfl, rfl⟩

/-- Where the rebuild thread has a part of the tree, `Add_by_point` has logged the point. -/
theorem endAdd_around {adding : Adding P} (hlarge : 2 ≤ params.multiThreadRebuildPointNum)
    (hwhole : adding.whole = false) (hwf : WellFormed t)
    (h : Watched params (side :: rel) bag (t.sub (side :: rel)) s)
    (hadd : endAdd params adding t s = some (t', s')) :
    Watched params (side :: rel) bag (t'.sub (side :: rel)) s' := by
  cases t with
  | nullptr => cases hadd
  | node n l r =>
    obtain ⟨rfl, rfl⟩ := Prod.mk.inj (Option.some.inj hadd)
    have h : Watched params ([] ++ side :: rel) bag _ s := h
    rw [hwhole]
    exact addByPoint_watched hlarge adding.point (le_refl _) hwf _ _ h

/-- Where it has the whole tree, the point is logged at the end. -/
theorem Watched.endAdd {adding : Adding P} (hlarge : 2 ≤ params.multiThreadRebuildPointNum)
    (hwhole : adding.whole = true) (hoccupied : adding.occupied = false)
    (h : Watched params [] bag t s) (hadd : IkdTree.endAdd params adding t s = some (t', s')) :
    Watched params [] bag t' s' := by
  cases t with
  | nullptr => cases hadd
  | node n l r =>
    obtain ⟨rfl, rfl⟩ := Prod.mk.inj (Option.some.inj hadd)
    rw [hwhole, hoccupied, if_pos rfl]
    have hadded := h.addByPoint hlarge adding.point (le_refl _) n.divisionAxis
    unfold Shared.logAt at hadded
    rw [if_pos h.isAt] at hadded
    exact hadded

/-- And so are the points of the voxel that have been deleted. -/
theorem Watched.endAdd_occupied {adding : Adding P}
    (hlarge : 2 ≤ params.multiThreadRebuildPointNum) (hwhole : adding.whole = true)
    (hoccupied : adding.occupied = true) (h : Watched params [] bag u s)
    (htree : t = (IkdTree.deleteByRange params adding.box true u.height false [] u s).tree)
    (hadd : IkdTree.endAdd params adding t
      (IkdTree.deleteByRange params adding.box true u.height false [] u s).shared = some (t', s')) :
    Watched params [] bag t' s' := by
  have hdeleted := h.deleteByRange adding.box true (le_refl _)
  have hcount := nodeCount_deleteByRange params adding.box true u.height [] u s
  have hbig := h.large.trans (hcount.ge.trans hdeleted.wellFormed.nodeCount_le)
  rw [deleteByRange_at h.pointer adding.box true hbig] at hadd
  rw [deleteByRange_at h.pointer adding.box true hbig, ← htree] at hdeleted
  rw [← htree] at hadd hcount
  unfold Shared.logAt at hdeleted
  rw [if_pos h.isAt] at hdeleted
  have hpos := hdeleted.pos hlarge
  cases t with
  | nullptr => cases hadd
  | node n l r =>
    obtain ⟨rfl, rfl⟩ := Prod.mk.inj (Option.some.inj hadd)
    rw [hwhole, hoccupied, if_pos rfl, if_pos rfl]
    generalize hs₁ : ({ s with rebuildPtr := some ([], (KdTree.node n l r).treeSize) } : Shared P) =
      s₁ at hdeleted
    have hptr : s₁.rebuildPtr = some ([], (KdTree.node n l r).treeSize) := by
      rw [← hs₁]
    obtain ⟨hwf, hlive, -⟩ := addByPoint_spec params adding.point (le_refl _) hdeleted.wellFormed
      false n.divisionAxis [] s₁
    have hadded := nodeCount_addByPoint params adding.point
      (le_refl (KdTree.node n l r).height) n.divisionAxis [] s₁
    have hbig' := hdeleted.large.trans ((Nat.le_succ _).trans (hadded.ge.trans hwf.nodeCount_le))
    have hlogged := hdeleted.log (.addPoint adding.point) hwf
      ((Nat.le_succ _).trans hadded.ge) trivial hlive
    rw [← log_rebuildPtr, ← addByPoint_at hptr adding.point hpos (le_refl _) n.divisionAxis hbig']
      at hlogged
    exact hlogged

theorem add_watched {point : P} {adding : Adding P}
    (hlarge : 2 ≤ params.multiThreadRebuildPointNum) (hwf : WellFormed t)
    (h : Watched params rel bag (t.sub rel) s)
    (hbegin : (beginAdd params point t s).adding = some adding)
    (hend : endAdd params adding (beginAdd params point t s).tree
      (beginAdd params point t s).shared = some (t', s')) :
    Watched params rel bag (t'.sub rel) s' := by
  obtain ⟨t₁, s₁, hand, ⟨hnone, -, -⟩ | ⟨adding', hsome, hwhole, hcases⟩⟩ :=
    beginAdd_cases params point t s
  · rw [hbegin] at hnone
    cases hnone
  obtain rfl : adding = adding' := Option.some.inj (hbegin.symm.trans hsome)
  have h₁ : Watched params rel bag (t₁.sub rel) s₁ := hand.watched hlarge hwf h
  have hwf₁ := (hand.kept hwf).wellFormed
  cases rel with
  | nil =>
    rw [sub_nil] at h₁ ⊢
    rw [h₁.isAt] at hwhole
    obtain ⟨hoccupied, htree, hshared⟩ | ⟨hoccupied, htree, hshared⟩ := hcases
    · rw [htree, hshared] at hend
      exact h₁.endAdd hlarge hwhole hoccupied hend
    · rw [hwhole] at htree hshared
      rw [hshared] at hend
      exact h₁.endAdd_occupied hlarge hwhole hoccupied htree hend
  | cons side rel =>
    have h₁ : Watched params ([] ++ side :: rel) bag _ s₁ := h₁
    rw [h₁.isAt_above] at hwhole
    obtain ⟨-, htree, hshared⟩ | ⟨-, htree, hshared⟩ := hcases
    · rw [htree, hshared] at hend
      exact endAdd_around hlarge hwhole hwf₁ h₁ hend
    · rw [htree, hshared] at hend
      have hdeleted := deleteByRange_watched hlarge adding.box true (le_refl _) hwf₁
        (!adding.whole) h₁
      exact endAdd_around hlarge hwhole (deleteByRange_spec params adding.box true (le_refl _) hwf₁
        _ _ _).1 hdeleted hend

/-- A call of the mapping thread; the two halves of `Add_Points` are one call here, since the copy is
taken between calls. -/
inductive MapStep (params : Params P) : KdTree P × Shared P → KdTree P × Shared P → Prop
  | addPoint {point : P} {t t' : KdTree P} {s s' : Shared P} :
      addPoint params point t s = some (t', s') → MapStep params (t, s) (t', s')
  | skip {point : P} {t : KdTree P} {s : Shared P} : (beginAdd params point t s).adding = none →
      MapStep params (t, s) ((beginAdd params point t s).tree, (beginAdd params point t s).shared)
  | add {point : P} {adding : Adding P} {t t' : KdTree P} {s s' : Shared P} :
      (beginAdd params point t s).adding = some adding →
      endAdd params adding (beginAdd params point t s).tree (beginAdd params point t s).shared =
        some (t', s') → MapStep params (t, s) (t', s')
  | deletePointBox (box : BoxPointType) (t : KdTree P) (s : Shared P) :
      MapStep params (t, s)
        ((deletePointBox params box t s).tree, (deletePointBox params box t s).shared)
  | nearestSearch (point : P) (kNearest : ℕ) (maxDist : WithTop ℚ) (t : KdTree P) (s : Shared P) :
      MapStep params (t, s) ((nearestSearch point kNearest maxDist t s).tree,
        (nearestSearch point kNearest maxDist t s).shared)
  | boxSearch (box : BoxPointType) (t : KdTree P) (s : Shared P) :
      MapStep params (t, s) (searchByRange box t.height [] t s).2

variable {x y : KdTree P × Shared P}

theorem MapStep.watched (hlarge : 2 ≤ params.multiThreadRebuildPointNum) (hwf : WellFormed x.1)
    (h : Watched params rel bag (x.1.sub rel) x.2) (hstep : MapStep params x y) :
    WellFormed y.1 ∧ Watched params rel bag (y.1.sub rel) y.2 := by
  cases hstep with
  | addPoint hadd => exact ⟨(addPoint_spec hwf hadd).1, addPoint_watched hlarge hwf h hadd⟩
  | @skip point t s hnone =>
    refine ⟨(beginAdd_spec params point hwf s).1, ?_⟩
    obtain ⟨t₁, s₁, hand, ⟨-, htree, hshared⟩ | ⟨adding, hsome, -⟩⟩ := beginAdd_cases params point t s
    · rw [htree, hshared]
      exact hand.watched hlarge hwf h
    · rw [hnone] at hsome
      cases hsome
  | @add point adding t t' s s' hbegin hend =>
    exact ⟨(endAdd_spec (beginAdd_spec params point hwf s).1 hend).1,
      add_watched hlarge hwf h hbegin hend⟩
  | deletePointBox box t s =>
    exact ⟨(deletePointBox_spec params box hwf s).1, deletePointBox_watched hlarge box hwf h⟩
  | nearestSearch point kNearest maxDist t s =>
    have hand := nearestSearch_handed point kNearest maxDist t s
    exact ⟨(hand.kept hwf).wellFormed, hand.watched hlarge hwf h⟩
  | boxSearch box t s =>
    have hand := searchByRange_handed box t.height [] t s
    exact ⟨(hand.kept hwf).wellFormed, hand.watched hlarge hwf h⟩

end Points

/-! ### A map with a large subtree -/

section Example

end Example

end RoverSwarm.IkdTree
