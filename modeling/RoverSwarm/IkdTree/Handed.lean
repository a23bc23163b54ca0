import RoverSwarm.IkdTree.WellFormed

/-!
# IkdTree.Handed — what reading the tree does to it

`flatten` and the searches hand pending deletions down on their way and change nothing else.  That
is all that is proved about the tree they leave: `Handed` relates the tree and the log before and
after, and everything that survives a `Push_Down` survives them.
-/

namespace RoverSwarm.IkdTree

open KdTree

variable {P : Type} {n : KdTreeNode P} {l r t t' : KdTree P} {here : Path} {s s' : Shared P}

/-- The tree `t` at `here` and what is shared, before and after some deletions were handed down. -/
inductive Handed : Path → KdTree P → Shared P → KdTree P → Shared P → Prop
  | refl (here : Path) (t : KdTree P) (s : Shared P) : Handed here t s t s
  | trans {here : Path} {t t' t'' : KdTree P} {s s' s'' : Shared P} :
      Handed here t s t' s' → Handed here t' s' t'' s'' → Handed here t s t'' s''
  | push (here : Path) (n : KdTreeNode P) (l r : KdTree P) (s : Shared P) :
      Handed here (.node n l r) s (.node (n.afterPush l r) (n.pushLeft l) (n.pushRight r))
        (s.pushDown here n l r)
  | left {here : Path} {n : KdTreeNode P} {l l' r : KdTree P} {s s' : Shared P} :
      Handed (here ++ [.left]) l s l' s' → Handed here (.node n l r) s (.node n l' r) s'
  | right {here : Path} {n : KdTreeNode P} {l r r' : KdTree P} {s s' : Shared P} :
      Handed (here ++ [.right]) r s r' s' → Handed here (.node n l r) s (.node n l r') s'

/-! ### flatten and the searches -/

theorem flatten_handed (depth : ℕ) (here : Path) (t : KdTree P) (s : Shared P) :
    Handed here t s (flatten depth here t s).tree (flatten depth here t s).shared := by
  induction depth generalizing here t s with
  | zero => cases t <;> exact .refl _ _ _
  | succ depth ih =>
    cases t with
    | nullptr => exact .refl _ _ _
    | node n l r =>
      exact (Handed.push here n l r s).trans ((Handed.left (ih _ _ _)).trans (.right (ih _ _ _)))

section Points

variable [PointType P]

theorem searchSons_handed {kNearest : ℕ} {q : Fin 3 → ℚ}
    {left right : List (PointCmp P) → Shared P → Searched P}
    (hleft : ∀ heap s, Handed (here ++ [.left]) l s (left heap s).tree (left heap s).shared)
    (hright : ∀ heap s, Handed (here ++ [.right]) r s (right heap s).tree (right heap s).shared)
    (heap : List (PointCmp P)) (s : Shared P) :
    Handed here (.node n l r) s
      (.node n (searchSons kNearest q l r left right heap s).leftSon
        (searchSons kNearest q l r left right heap s).rightSon)
      (searchSons kNearest q l r left right heap s).shared := by
  unfold searchSons
  dsimp only
  split_ifs
  · exact (Handed.left (hleft _ _)).trans (.right (hright _ _))
  · exact .left (hleft _ _)
  · exact (Handed.right (hright _ _)).trans (.left (hleft _ _))
  · exact .right (hright _ _)
  · exact (Handed.left (hleft _ _)).trans (.right (hright _ _))
  · exact .left (hleft _ _)
  · exact .right (hright _ _)
  · exact .refl _ _ _

theorem searchByRange_handed (box : BoxPointType) (depth : ℕ) (here : Path) (t : KdTree P)
    (s : Shared P) :
    Handed here t s (searchByRange box depth here t s).2.1 (searchByRange box depth here t s).2.2 := by
  induction depth generalizing here t s with
  | zero => cases t <;> exact .refl _ _ _
  | succ depth ih =>
    cases t with
    | nullptr => exact .refl _ _ _
    | node n l r =>
      have hpush := Handed.push here n l r s
      rw [searchByRange]
      dsimp only
      by_cases hmisses : box.misses n.nodeRange = true
      · rw [if_pos hmisses]
        exact hpush
      rw [if_neg hmisses]
      by_cases hcovers : box.covers n.nodeRange = true
      · rw [if_pos hcovers]
        exact hpush.trans (flatten_handed _ _ _ _)
      · rw [if_neg hcovers]
        exact hpush.trans ((Handed.left (ih _ _ _)).trans (.right (ih _ _ _)))

theorem search_handed (kNearest : ℕ) (maxDistSqr : WithTop ℚ) (q : Fin 3 → ℚ) (depth : ℕ)
    (here : Path) (t : KdTree P) (heap : List (PointCmp P)) (s : Shared P) :
    Handed here t s (search kNearest maxDistSqr q depth here t heap s).tree
      (search kNearest maxDistSqr q depth here t heap s).shared := by
  induction depth generalizing here t heap s with
  | zero => cases t <;> exact .refl _ _ _
  | succ depth ih =>
    cases t with
    | nullptr => exact .refl _ _ _
    | node n l r =>
      rw [search]
      dsimp only
      split_ifs
      · exact .refl _ _ _
      · exact (Handed.push here n l r s).trans
          (searchSons_handed (fun _ _ => ih _ _ _ _) (fun _ _ => ih _ _ _ _) _ _)
      · exact (Handed.push here n l r s).trans
          (searchSons_handed (fun _ _ => ih _ _ _ _) (fun _ _ => ih _ _ _ _) _ _)

end Points

/-! ### What is kept -/

/-- A node that was just added stays as it is. -/
theorem Handed.null (h : Handed here t s t' s') : t = .nullptr → t' = .nullptr := by
  induction h with
  | refl => exact id
  | trans _ _ ih ih' => exact ih' ∘ ih
  | push => rintro ⟨⟩
  | left => rintro ⟨⟩
  | right => rintro ⟨⟩

theorem Handed.fresh (h : Handed here t s t' s') : t.Fresh → t'.Fresh := by
  induction h with
  | refl => exact id
  | trans _ _ ih ih' => exact ih' ∘ ih
  | push here n l r s =>
    rintro ⟨htree, hpoint, hdown, hpdown, hsize, hinvalid, hdel, rfl, rfl⟩
    refine ⟨htree, hpoint, hdown, hpdown, hsize, hinvalid, hdel, ?_, ?_⟩
    · unfold KdTreeNode.pushLeft
      split_ifs <;> rfl
    · unfold KdTreeNode.pushRight
      split_ifs <;> rfl
  | left hl =>
    rintro ⟨htree, hpoint, hdown, hpdown, hsize, hinvalid, hdel, rfl, rfl⟩
    exact ⟨htree, hpoint, hdown, hpdown, hsize, hinvalid, hdel, hl.null rfl, rfl⟩
  | right hr =>
    rintro ⟨htree, hpoint, hdown, hpdown, hsize, hinvalid, hdel, rfl, rfl⟩
    exact ⟨htree, hpoint, hdown, hpdown, hsize, hinvalid, hdel, rfl, hr.null rfl⟩

section Points

variable [PointType P]

/-- The tree `t'` is `t` with some of its deletions handed down. -/
structure Kept (t t' : KdTree P) : Prop where
  wellFormed : WellFormed t'
  live : t'.live = t.live
  treeSize : t'.treeSize = t.treeSize
  treeDeleted : t'.treeDeleted = t.treeDeleted
  height : t'.height = t.height

theorem Kept.refl (h : WellFormed t) : Kept t t := ⟨h, rfl, rfl, rfl, rfl⟩

theorem Kept.trans {t'' : KdTree P} (h : Kept t t') (h' : Kept t' t'') : Kept t t'' where
  wellFormed := h'.wellFormed
  live := h'.live.trans h.live
  treeSize := h'.treeSize.trans h.treeSize
  treeDeleted := h'.treeDeleted.trans h.treeDeleted
  height := h'.height.trans h.height

/-- `Push_Down` keeps a tree. -/
theorem kept_push (h : WellFormed (.node n l r)) :
    Kept (.node n l r) (.node (n.afterPush l r) (n.pushLeft l) (n.pushRight r)) := by
  obtain ⟨hwf, hlive⟩ := h.push
  refine ⟨hwf, hlive, rfl, rfl, ?_⟩
  simp [KdTree.height]

/-- Sons that were kept. -/
theorem kept_sons {l' r' : KdTree P} (h : WellFormed (.node n l r)) (hl : Kept l l') (hr : Kept r r')
    (hfl : l.Fresh → l'.Fresh) (hfr : r.Fresh → r'.Fresh) :
    Kept (.node n l r) (.node n l' r') := by
  obtain ⟨hn, -, -⟩ := h
  have hlive : (KdTree.node n l' r').live = (KdTree.node n l r).live := by
    rw [live_node, live_node, hl.live, hr.live]
  refine ⟨⟨?_, hl.wellFormed, hr.wellFormed⟩, hlive, rfl, rfl, ?_⟩
  · constructor
    · exact hn.point_of_tree
    · exact hn.tree_of_down
    · exact hn.point_of_down
    · rw [hl.treeDeleted, hr.treeDeleted]
      exact hn.pending
    · intro htree hneed
      exact hfl (hn.stale_left htree hneed)
    · intro htree hneed
      exact hfr (hn.stale_right htree hneed)
    · rw [hlive]
      exact hn.alive
    · rw [hlive]
      exact hn.count
    · rw [hl.treeSize, hr.treeSize]
      exact hn.size
    · rw [hlive]
      exact hn.range
  · simp [KdTree.height, hl.height, hr.height]

/-- **Handing deletions down keeps a tree**: its points, its size and its shape. -/
theorem Handed.kept (h : Handed here t s t' s') (hwf : WellFormed t) : Kept t t' := by
  induction h with
  | refl => exact .refl hwf
  | trans _ _ ih ih' =>
    have hkept := ih hwf
    exact hkept.trans (ih' hkept.wellFormed)
  | push => exact kept_push hwf
  | left hl ih => exact kept_sons hwf (ih hwf.2.1) (.refl hwf.2.2) hl.fresh id
  | right hr ih => exact kept_sons hwf (.refl hwf.2.1) (ih hwf.2.2) id hr.fresh

end Points

end RoverSwarm.IkdTree
