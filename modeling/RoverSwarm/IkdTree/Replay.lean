import Mathlib.Logic.Relation
import RoverSwarm.IkdTree.Queue
import RoverSwarm.IkdTree.Search

/-!
# IkdTree.Replay — the rebuild thread catches up

The rebuild thread builds a new tree from the points of the subtree that `Rebuild_Ptr` leads to and
runs the logged operations on it, while the mapping thread goes on with the old one.  Whatever the
mapping thread does to the subtree meanwhile, the new tree has its points in the end; only
`Delete_by_point`, which deletes the first point that it finds, is left out.
-/

namespace RoverSwarm.IkdTree

open KdTree

variable {P : Type}

/-! ### Where Rebuild_Ptr leads -/

/-- `Rebuild_Ptr` does not lead into the tree at `here`. -/
def Away (s : Shared P) (here : Path) : Prop :=
  ∀ rel size, s.rebuildPtr ≠ some (here ++ rel, size)

variable {params : Params P} {n : KdTreeNode P} {l r t t' u : KdTree P} {here : Path}
  {s s' : Shared P} {op : Operation P} {ops : List (Operation P)} {depth : ℕ}

theorem isAt_iff {path : Path} : s.isAt path = true ↔ ∃ size, s.rebuildPtr = some (path, size) := by
  unfold Shared.isAt
  rw [decide_eq_true_eq]
  cases s.rebuildPtr with
  | none => simp
  | some p =>
    obtain ⟨path', size⟩ := p
    simp

theorem Away.isAt_eq (h : Away s here) : s.isAt here = false := by
  refine eq_false_of_ne_true fun hat => ?_
  obtain ⟨size, hsize⟩ := isAt_iff.mp hat
  exact h [] size (by rwa [List.append_nil])

theorem Away.son (h : Away s here) (side : Side) : Away s (here ++ [side]) := by
  intro rel size
  rw [List.append_assoc]
  exact h _ size

/-- The pointer that leads to a tree leads into none of its sons. -/
theorem away_son {size : ℕ} (hptr : s.rebuildPtr = some (here, size)) (side : Side) :
    Away s (here ++ [side]) := by
  intro rel size' hptr'
  rw [hptr, List.append_assoc] at hptr'
  have hpath : here = here ++ ([side] ++ rel) := (Prod.mk.inj (Option.some.inj hptr')).1
  have hlength := congrArg List.length hpath
  simp at hlength

/-- The pointer leads to one of two sons. -/
theorem away_other {side other : Side} {rel : Path} {size : ℕ} (hne : side ≠ other)
    (hptr : s.rebuildPtr = some (here ++ side :: rel, size)) : Away s (here ++ [other]) := by
  intro rel' size' hptr'
  rw [hptr, List.append_assoc] at hptr'
  have hpath := List.append_cancel_left (Prod.mk.inj (Option.some.inj hptr')).1
  exact hne (List.cons.inj hpath).1

theorem isAt_log (s : Shared P) (op : Operation P) (path : Path) :
    (s.log op).isAt path = s.isAt path := by
  unfold Shared.log
  split_ifs <;> rfl

/-- Nothing is logged if neither son is the tree of the rebuild thread. -/
theorem pushDown_eq (hleft : s.isAt (here ++ [.left]) = false)
    (hright : s.isAt (here ++ [.right]) = false) : s.pushDown here n l r = s := by
  unfold Shared.pushDown
  simp [hleft, hright]

theorem pushDown_of_away (h : ∀ side, Away s (here ++ [side])) : s.pushDown here n l r = s :=
  pushDown_eq (h .left).isAt_eq (h .right).isAt_eq

/-- The son that `Rebuild_Ptr` leads to is the one whose deletion is logged. -/
theorem pushDown_at_left {size : ℕ} (hptr : s.rebuildPtr = some (here ++ [.left], size))
    (hnull : l.isNull = false) (n : KdTreeNode P) (r : KdTree P) :
    s.pushDown here n l r =
      if n.needPushDownToLeft then s.log (.pushDown n.treeDeleted n.treeDownsampleDeleted)
      else s := by
  have hleft : s.isAt (here ++ [.left]) = true := isAt_iff.mpr ⟨size, hptr⟩
  have hright : s.isAt (here ++ [.right]) = false := (away_other (by simp) hptr).isAt_eq
  unfold Shared.pushDown
  cases n.needPushDownToLeft <;> simp [hleft, hright, hnull, isAt_log]

theorem pushDown_at_right {size : ℕ} (hptr : s.rebuildPtr = some (here ++ [.right], size))
    (hnull : r.isNull = false) (n : KdTreeNode P) (l : KdTree P) :
    s.pushDown here n l r =
      if n.needPushDownToRight then s.log (.pushDown n.treeDeleted n.treeDownsampleDeleted)
      else s := by
  have hleft : s.isAt (here ++ [.left]) = false := (away_other (by simp) hptr).isAt_eq
  have hright : s.isAt (here ++ [.right]) = true := isAt_iff.mpr ⟨size, hptr⟩
  unfold Shared.pushDown
  simp [hleft, hright, hnull]

theorem Handed.shared_eq (h : Handed here t s t' s') (haway : ∀ side, Away s (here ++ [side])) :
    s' = s := by
  induction h with
  | refl => rfl
  | trans _ _ ih ih' =>
    obtain rfl := ih haway
    exact ih' haway
  | push => exact pushDown_of_away haway
  | left _ ih => exact ih fun side => (haway .left).son side
  | right _ ih => exact ih fun side => (haway .right).son side

/-- What is left of `Rebuild_Ptr` by an operation that was not left early. -/
theorem resize_of_large {size treeSize : ℕ} (hptr : s.rebuildPtr = some (here, size))
    (hlarge : params.multiThreadRebuildPointNum ≤ treeSize) :
    s.resize params here treeSize = { s with rebuildPtr := some (here, treeSize) } := by
  unfold Shared.resize
  rw [if_pos (isAt_iff.mpr ⟨size, hptr⟩), if_neg (Nat.not_lt.mpr hlarge)]

theorem resize_of_away (h : Away s here) (treeSize : ℕ) : s.resize params here treeSize = s := by
  unfold Shared.resize
  rw [h.isAt_eq]
  rfl

theorem logAt_of_away (h : Away s here) (op : Operation P) : s'.logAt here s op = s' := by
  unfold Shared.logAt
  rw [h.isAt_eq]
  rfl

theorem allows_false (s : Shared P) (son : Path) : s.allows son false = false := rfl

/-! ### The number of nodes -/

namespace KdTree

def nodeCount : KdTree P → ℕ
  | .nullptr => 0
  | .node _ l r => l.nodeCount + r.nodeCount + 1

end KdTree

@[simp] theorem nodeCount_receive (t : KdTree P) (d e : Bool) :
    (t.receive d e).nodeCount = t.nodeCount := by
  cases t <;> rfl

@[simp] theorem nodeCount_pushLeft (n : KdTreeNode P) (l : KdTree P) :
    (n.pushLeft l).nodeCount = l.nodeCount := by
  unfold KdTreeNode.pushLeft
  split_ifs <;> simp

@[simp] theorem nodeCount_pushRight (n : KdTreeNode P) (r : KdTree P) :
    (n.pushRight r).nodeCount = r.nodeCount := by
  unfold KdTreeNode.pushRight
  split_ifs <;> simp

theorem Handed.nodeCount (h : Handed here t s t' s') : t'.nodeCount = t.nodeCount := by
  induction h with
  | refl => rfl
  | trans _ _ ih ih' => exact ih'.trans ih
  | push => simp [KdTree.nodeCount]
  | left _ ih => simp [KdTree.nodeCount, ih]
  | right _ ih => simp [KdTree.nodeCount, ih]

namespace KdTree

/-- The tree that a path leads to. -/
def sub : KdTree P → Path → KdTree P
  | t, [] => t
  | .nullptr, _ :: _ => .nullptr
  | .node _ l _, .left :: path => l.sub path
  | .node _ _ r, .right :: path => r.sub path

/-- The tree with another one where a path leads to. -/
def replaceAt : KdTree P → Path → KdTree P → KdTree P
  | _, [], u => u
  | .nullptr, _ :: _, _ => .nullptr
  | .node n l r, .left :: path, u => .node n (l.replaceAt path u) r
  | .node n l r, .right :: path, u => .node n l (r.replaceAt path u)

end KdTree

@[simp] theorem sub_nil (t : KdTree P) : t.sub [] = t := by
  cases t <;> rfl

theorem sub_receive (t : KdTree P) (d e : Bool) (side : Side) (rel : Path) :
    (t.receive d e).sub (side :: rel) = t.sub (side :: rel) := by
  cases t with
  | nullptr => rfl
  | node n l r => cases side <;> rfl

theorem sub_pushLeft (n : KdTreeNode P) (l : KdTree P) (side : Side) (rel : Path) :
    (n.pushLeft l).sub (side :: rel) = l.sub (side :: rel) := by
  unfold KdTreeNode.pushLeft
  split_ifs
  · exact sub_receive _ _ _ _ _
  · rfl

theorem sub_pushRight (n : KdTreeNode P) (r : KdTree P) (side : Side) (rel : Path) :
    (n.pushRight r).sub (side :: rel) = r.sub (side :: rel) := by
  unfold KdTreeNode.pushRight
  split_ifs
  · exact sub_receive _ _ _ _ _
  · rfl

theorem nodeCount_sub_le (t : KdTree P) (rel : Path) : (t.sub rel).nodeCount ≤ t.nodeCount := by
  induction rel generalizing t with
  | nil => rw [sub_nil]
  | cons side rel ih =>
    cases t with
    | nullptr => exact le_refl _
    | node n l r =>
      cases side with
      | left =>
        have hle := ih l
        simp only [KdTree.sub, KdTree.nodeCount]
        omega
      | right =>
        have hle := ih r
        simp only [KdTree.sub, KdTree.nodeCount]
        omega

/-- Deletions that were handed down in a part of the tree. -/
theorem Handed.replaceAt {rel : Path} (hpos : 0 < (t.sub rel).nodeCount)
    (h : Handed (here ++ rel) (t.sub rel) s u s') : Handed here t s (t.replaceAt rel u) s' := by
  induction rel generalizing t here with
  | nil =>
    rw [List.append_nil, sub_nil] at h
    cases t <;> exact h
  | cons side rel ih =>
    cases t with
    | nullptr => cases hpos
    | node n l r =>
      rw [List.append_cons] at h
      cases side with
      | left => exact .left (ih hpos h)
      | right => exact .right (ih hpos h)

section Points

variable [PointType P]

theorem WellFormed.nodeCount_le (h : WellFormed t) : t.nodeCount ≤ t.treeSize := by
  induction t with
  | nullptr => exact le_refl _
  | node n l r ihl ihr =>
    obtain ⟨hn, hl, hr⟩ := h
    have hleft := ihl hl
    have hright := ihr hr
    have hsize := hn.size
    change l.nodeCount + r.nodeCount + 1 ≤ n.treeSize
    omega

theorem WellFormed.sub (h : WellFormed t) (rel : Path) : WellFormed (t.sub rel) := by
  induction rel generalizing t with
  | nil => rwa [sub_nil]
  | cons side rel ih =>
    cases t with
    | nullptr => exact h
    | node n l r =>
      cases side with
      | left => exact ih h.2.1
      | right => exact ih h.2.2

/-! ### Operations on the subtree of the rebuild thread -/

theorem finish_false (here : Path) (n : KdTreeNode P) (l r : KdTree P) (s : Shared P) :
    finish params false here n l r s =
      (.node (n.update l r).idle l r, s.resize params here (n.update l r).treeSize) := by
  unfold finish
  simp
  rfl

/-- Away from `Rebuild_Ptr` nothing is logged, and what is not allowed is not asked for. -/
theorem addByPoint_away (point : P) (axis : Fin 3) (t : KdTree P) (h : Away s here) :
    (addByPoint params point depth false axis here t s).2 = s := by
  induction depth generalizing axis here t with
  | zero => cases t <;> rfl
  | succ depth ih =>
    cases t with
    | nullptr => rfl
    | node n l r =>
      unfold addByPoint
      dsimp only
      rw [pushDown_of_away h.son, allows_false, allows_false]
      split_ifs
      · rw [ih _ _ (h.son .left), logAt_of_away (h.son .left), finish_false]
        exact resize_of_away h _
      · rw [ih _ _ (h.son .right), logAt_of_away (h.son .right), finish_false]
        exact resize_of_away h _

theorem deleteByRange_away (box : BoxPointType) (isDownsample : Bool) (t : KdTree P)
    (h : Away s here) : (deleteByRange params box isDownsample depth false here t s).shared = s := by
  induction depth generalizing here t with
  | zero => cases t <;> rfl
  | succ depth ih =>
    cases t with
    | nullptr => rfl
    | node n l r =>
      unfold deleteByRange
      dsimp only
      rw [pushDown_of_away h.son, allows_false]
      split_ifs
      · rfl
      · rfl
      · rfl
      all_goals
        rw [ih _ (h.son .left), logAt_of_away (h.son .left), allows_false, ih _ (h.son .right),
          logAt_of_away (h.son .right), finish_false]
        exact resize_of_away h _

theorem nodeCount_addByPoint (params : Params P) (point : P) (hdepth : t.height ≤ depth)
    (axis : Fin 3) (here : Path) (s : Shared P) :
    (addByPoint params point depth false axis here t s).1.nodeCount = t.nodeCount + 1 := by
  induction depth generalizing t axis here s with
  | zero =>
    cases t with
    | nullptr => rfl
    | node n l r => simp [KdTree.height] at hdepth
  | succ depth ih =>
    cases t with
    | nullptr => rfl
    | node n l r =>
      unfold addByPoint
      dsimp only
      rw [allows_false, allows_false]
      split_ifs
      · rw [finish_false]
        simp only [KdTree.nodeCount, ih (height_left_le hdepth), nodeCount_pushLeft,
          nodeCount_pushRight]
        omega
      · rw [finish_false]
        simp only [KdTree.nodeCount, ih (height_right_le hdepth), nodeCount_pushLeft,
          nodeCount_pushRight]
        omega

theorem nodeCount_deleteByRange (params : Params P) (box : BoxPointType) (isDownsample : Bool)
    (depth : ℕ) (here : Path) (t : KdTree P) (s : Shared P) :
    (deleteByRange params box isDownsample depth false here t s).tree.nodeCount = t.nodeCount := by
  induction depth generalizing t here s with
  | zero => cases t <;> rfl
  | succ depth ih =>
    cases t with
    | nullptr => rfl
    | node n l r =>
      unfold deleteByRange
      dsimp only
      simp only [allows_false]
      split_ifs
      · rfl
      · simp [KdTree.nodeCount]
      · simp [KdTree.nodeCount]
      all_goals
        rw [finish_false]
        simp [KdTree.nodeCount, ih]

theorem addByPoint_at {size : ℕ} (hptr : s.rebuildPtr = some (here, size)) (point : P)
    (hpos : 0 < t.nodeCount) (hdepth : t.height ≤ depth) (axis : Fin 3)
    (hlarge : params.multiThreadRebuildPointNum ≤
      (addByPoint params point depth false axis here t s).1.treeSize) :
    (addByPoint params point depth false axis here t s).2 = { s with
      rebuildPtr := some (here, (addByPoint params point depth false axis here t s).1.treeSize) } := by
  cases t with
  | nullptr => cases hpos
  | node n l r =>
    cases depth with
    | zero => simp [KdTree.height] at hdepth
    | succ depth =>
      unfold addByPoint at hlarge ⊢
      dsimp only at hlarge ⊢
      rw [pushDown_of_away (away_son hptr), allows_false, allows_false] at hlarge ⊢
      split_ifs at hlarge ⊢
      · rw [finish_false] at hlarge ⊢
        rw [addByPoint_away _ _ _ (away_son hptr .left), logAt_of_away (away_son hptr .left)]
        exact resize_of_large hptr hlarge
      · rw [finish_false] at hlarge ⊢
        rw [addByPoint_away _ _ _ (away_son hptr .right), logAt_of_away (away_son hptr .right)]
        exact resize_of_large hptr hlarge

theorem deleteByRange_at (hptr : s.rebuildPtr = some (here, t.treeSize)) (box : BoxPointType)
    (isDownsample : Bool)
    (hlarge : params.multiThreadRebuildPointNum ≤
      (deleteByRange params box isDownsample depth false here t s).tree.treeSize) :
    (deleteByRange params box isDownsample depth false here t s).shared = { s with
      rebuildPtr := some (here,
        (deleteByRange params box isDownsample depth false here t s).tree.treeSize) } := by
  have hsame : s = { s with rebuildPtr := some (here, t.treeSize) } := by
    rw [← hptr]
  cases t with
  | nullptr => cases depth <;> exact hsame
  | node n l r =>
    cases depth with
    | zero => exact hsame
    | succ depth =>
      unfold deleteByRange at hlarge ⊢
      dsimp only at hlarge ⊢
      rw [pushDown_of_away (away_son hptr), allows_false] at hlarge ⊢
      split_ifs at hlarge ⊢
      · exact hsame
      · exact hsame
      · exact hsame
      all_goals
        rw [finish_false] at hlarge ⊢
        rw [deleteByRange_away _ _ _ (away_son hptr .left), logAt_of_away (away_son hptr .left),
          allows_false] at hlarge ⊢
        rw [deleteByRange_away _ _ _ (away_son hptr .right), logAt_of_away (away_son hptr .right)]
        exact resize_of_large hptr hlarge

/-! ### The log -/

namespace Operation

/-- What an operation does to the points of a tree. -/
def effect : Operation P → Multiset P → Multiset P
  | .addPoint point, bag => point ::ₘ bag
  | .deletePoint _, bag => bag
  | .deleteBox box, bag => outside box bag
  | .downsampleDelete box, bag => outside box bag
  | .pushDown _ _, _ => 0

/-- The operation does the same to any two trees with the same points. -/
def Exact : Operation P → Prop
  | .deletePoint _ => False
  | .pushDown treeDeleted _ => treeDeleted = true
  | _ => True

end Operation

/-- The subtree while the rebuild thread works on the points in `bag`: the log turns them into its
own, and `Rebuild_Ptr` still leads to it. -/
structure Watched (params : Params P) (here : Path) (bag : Multiset P) (t : KdTree P)
    (s : Shared P) : Prop where
  wellFormed : WellFormed t
  large : params.multiThreadRebuildPointNum ≤ t.nodeCount
  pointer : s.rebuildPtr = some (here, t.treeSize)
  locked : s.locked = true
  flag : s.rebuildFlag = true
  logged : ∃ ops, s.rebuildLogger.Pushed ops ∧ (∀ op ∈ ops, op.Exact) ∧
    ops.foldl (fun bag op => op.effect bag) bag = t.live

variable {bag : Multiset P}

theorem Watched.isAt (h : Watched params here bag t s) : s.isAt here = true :=
  isAt_iff.mpr ⟨t.treeSize, h.pointer⟩

theorem Watched.allows (h : Watched params here bag t s) (allow : Bool) :
    s.allows here allow = false := by
  unfold Shared.allows
  rw [h.isAt]
  simp

theorem Watched.pos (hlarge : 2 ≤ params.multiThreadRebuildPointNum)
    (h : Watched params here bag t s) : 0 < t.nodeCount :=
  Nat.lt_of_lt_of_le Nat.two_pos (hlarge.trans h.large)

theorem Watched.not_isNull (hlarge : 2 ≤ params.multiThreadRebuildPointNum)
    (h : Watched params here bag t s) : t.isNull = false := by
  have hpos := h.pos hlarge
  cases t with
  | nullptr => cases hpos
  | node n l r => rfl

/-- What was done is logged. -/
theorem Watched.log (op : Operation P) (h : Watched params here bag t s) (hwf : WellFormed t')
    (hcount : t.nodeCount ≤ t'.nodeCount) (hop : op.Exact) (hlive : t'.live = op.effect t.live) :
    Watched params here bag t' ({ s with rebuildPtr := some (here, t'.treeSize) }.log op) := by
  have hlog : ({ s with rebuildPtr := some (here, t'.treeSize) }.log op) =
      { s with
        rebuildPtr := some (here, t'.treeSize)
        rebuildLogger := s.rebuildLogger.push op } := by
    unfold Shared.log
    rw [if_pos h.flag]
  rw [hlog]
  obtain ⟨ops, hpushed, hexact, hreplays⟩ := h.logged
  refine ⟨hwf, h.large.trans hcount, rfl, h.locked, h.flag, ops ++ [op], hpushed.push op, ?_, ?_⟩
  · intro o ho
    rcases List.mem_append.mp ho with ho | ho
    · exact hexact o ho
    · obtain rfl := List.mem_singleton.mp ho
      exact hop
  · rw [List.foldl_append, hreplays, hlive]
    rfl

/-- The father hands a deletion down; towards a subtree as large as this no flag is left over. -/
theorem Watched.receive (hlarge : 2 ≤ params.multiThreadRebuildPointNum)
    (h : Watched params here bag t s) {need treeDeleted e : Bool}
    (hwf : WellFormed (if need then t.receive treeDeleted e else t))
    (hstale : treeDeleted = false → need = true → t.Fresh) :
    Watched params here bag (if need then t.receive treeDeleted e else t)
      (if need then s.log (.pushDown treeDeleted e) else s) := by
  cases need with
  | false => exact h
  | true =>
    rw [if_pos rfl] at hwf ⊢
    cases treeDeleted with
    | false =>
      have hfresh := hstale rfl rfl
      have hle := h.wellFormed.nodeCount_le
      have hcount := h.large
      cases t with
      | nullptr =>
        simp only [KdTree.nodeCount] at hcount
        omega
      | node n l r =>
        have hsize : n.treeSize = 1 := hfresh.2.2.2.2.1
        simp only [KdTree.treeSize, hsize] at hle
        omega
    | true =>
      have hlog := h.log (.pushDown true e) hwf (nodeCount_receive t true e).ge rfl
        (live_of_treeDeleted (treeDeleted_receive t e))
      rw [treeSize_receive, ← h.pointer] at hlog
      exact hlog

theorem Watched.handed (h : Watched params here bag t s) (hand : Handed here t s t' s') :
    Watched params here bag t' s' := by
  obtain rfl := hand.shared_eq (away_son h.pointer)
  have hkept := hand.kept h.wellFormed
  refine ⟨hkept.wellFormed, ?_, ?_, h.locked, h.flag, ?_⟩
  · rw [hand.nodeCount]
    exact h.large
  · rw [hkept.treeSize]
    exact h.pointer
  · rw [hkept.live]
    exact h.logged

theorem Watched.addByPoint (hlarge : 2 ≤ params.multiThreadRebuildPointNum)
    (h : Watched params here bag t s) (point : P) (hdepth : t.height ≤ depth) (axis : Fin 3) :
    Watched params here bag (IkdTree.addByPoint params point depth false axis here t s).1
      ((IkdTree.addByPoint params point depth false axis here t s).2.logAt here s
        (.addPoint point)) := by
  obtain ⟨hwf, hlive, -⟩ := addByPoint_spec params point hdepth h.wellFormed false axis here s
  have hcount := nodeCount_addByPoint params point hdepth axis here s
  have hbig := h.large.trans ((Nat.le_succ _).trans (hcount.ge.trans hwf.nodeCount_le))
  rw [addByPoint_at h.pointer point (h.pos hlarge) hdepth axis hbig]
  unfold Shared.logAt
  rw [if_pos h.isAt]
  exact h.log _ hwf ((Nat.le_succ _).trans hcount.ge) trivial hlive

/-- What `Delete_by_range` logs. -/
def rangeOperation (box : BoxPointType) (isDownsample : Bool) : Operation P :=
  if isDownsample then .downsampleDelete box else .deleteBox box

theorem Watched.deleteByRange (h : Watched params here bag t s) (box : BoxPointType)
    (isDownsample : Bool) (hdepth : t.height ≤ depth) :
    Watched params here bag
      (IkdTree.deleteByRange params box isDownsample depth false here t s).tree
      ((IkdTree.deleteByRange params box isDownsample depth false here t s).shared.logAt here s
        (rangeOperation box isDownsample)) := by
  obtain ⟨hwf, hlive, -⟩ := deleteByRange_spec params box isDownsample hdepth h.wellFormed false
    here s
  have hcount := nodeCount_deleteByRange params box isDownsample depth here t s
  have hbig := h.large.trans (hcount.ge.trans hwf.nodeCount_le)
  rw [deleteByRange_at h.pointer box isDownsample hbig]
  unfold Shared.logAt
  rw [if_pos h.isAt]
  refine h.log _ hwf hcount.ge ?_ ?_
  · cases isDownsample <;> trivial
  · cases isDownsample <;> exact hlive

end Points

end RoverSwarm.IkdTree
