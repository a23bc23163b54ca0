import Mathlib.Algebra.Order.Ring.Rat
import Mathlib.Data.Fin.VecNotation
import Mathlib.Data.List.Sort
import Mathlib.Data.Rat.Floor
import Mathlib.Order.WithBot
import RoverSwarm.Lib.MaxHeap
import RoverSwarm.Lib.Rounding

/-!
# IkdTree — the map of FAST-LIO, an incremental k-d tree

Points are added and boxes of points deleted in place; a deletion that covers a whole subtree is
only noted at its root and handed down when somebody passes (`receive`).  A subtree that holds too
many deleted points or leans too much is rebuilt: a small one at once, a large one by a second
thread, which copies its points, builds a new tree from them and then applies the operations that
were logged meanwhile.  The pointer to the subtree it is to rebuild is the path to it from the root.

Coordinates are floats, and the result of every operation on them is rounded; comparisons and the
least and greatest of two are exact.  Overflow is left out.
-/

namespace RoverSwarm.IkdTree

/-! ### Points, boxes and nodes -/

/-- What the template asks of a point: the members `x`, `y` and `z`, and the arithmetic of their
type `float` and of `double`. -/
class PointType (P : Type) where
  xyz : P → Fin 3 → ℚ
  fl : Rounding ℚ
  dbl : Rounding ℚ

export PointType (xyz fl dbl)

structure BoxPointType where
  vertexMin : Fin 3 → ℚ
  vertexMax : Fin 3 → ℚ

/-- `node_range_x`, `node_range_y` and `node_range_z`. -/
structure NodeRange where
  min : Fin 3 → ℚ
  max : Fin 3 → ℚ

structure KdTreeNode (P : Type) where
  point : P
  divisionAxis : Fin 3
  treeSize : ℕ
  invalidPointNum : ℕ
  downDelNum : ℕ
  pointDeleted : Bool
  treeDeleted : Bool
  pointDownsampleDeleted : Bool
  treeDownsampleDeleted : Bool
  needPushDownToLeft : Bool
  needPushDownToRight : Bool
  workingFlag : Bool
  nodeRange : NodeRange

inductive KdTree (P : Type)
  | nullptr
  | node (n : KdTreeNode P) (leftSon rightSon : KdTree P)

inductive Side
  | left
  | right
deriving DecidableEq

/-- The way from the root to a node. -/
abbrev Path := List Side

inductive Operation (P : Type)
  | addPoint (point : P)
  | deletePoint (point : P)
  | deleteBox (box : BoxPointType)
  | downsampleDelete (box : BoxPointType)
  | pushDown (treeDeleted treeDownsampleDeleted : Bool)

/-- `std::nth_element` on a part of the storage; only that it permutes matters here. -/
structure NthElement (P : Type) where
  run : Fin 3 → ℕ → List P → List P
  perm : ∀ axis mid storage, (run axis mid storage).Perm storage

structure Params (P : Type) where
  deleteCriterionParam : ℚ
  balanceCriterionParam : ℚ
  downsampleSize : ℚ
  /-- `#define Multi_Thread_Rebuild_Point_Num 1500` -/
  multiThreadRebuildPointNum : ℕ
  nthElement : NthElement P

/-- `1e-6`, as a double. -/
def EPSS : ℚ := 4722366482869645 / 2 ^ 72

def minimalUnbalancedTreeSize : ℕ := 10

@[irreducible] def Q_LEN : ℕ := 1000000

/-- `MANUAL_Q`, a ring that does not look whether a slot is free; a slot that was never written is
`none`. -/
structure ManualQ (α : Type) where
  head : ℕ
  tail : ℕ
  counter : ℕ
  q : List (Option α)
  isEmpty : Bool

namespace ManualQ

variable {α : Type} (x : ManualQ α)

def pop : ManualQ α :=
  if x.counter = 0 then x
  else
    { x with
      head := (x.head + 1) % Q_LEN
      counter := x.counter - 1
      isEmpty := if x.counter - 1 = 0 then true else x.isEmpty }

def front : Option α := (x.q[x.head]?).join

def push (op : α) : ManualQ α :=
  { x with
    q := x.q.set x.tail (some op)
    counter := x.counter + 1
    isEmpty := false
    tail := (x.tail + 1) % Q_LEN }

/-- The queue after `clear()`. -/
def cleared : ManualQ α := ⟨0, 0, 0, List.replicate Q_LEN none, true⟩

end ManualQ

/-- What the tree shares with the rebuild thread. -/
structure Shared (P : Type) where
  /-- `Rebuild_Ptr` and the `TreeSize` of the node it leads to. -/
  rebuildPtr : Option (Path × ℕ)
  /-- The rebuild thread holds `rebuild_ptr_mutex_lock`. -/
  locked : Bool
  rebuildFlag : Bool
  rebuildLogger : ManualQ (Operation P)
  pointsDeleted : List P

variable {P : Type}

namespace Shared

/-- `*Rebuild_Ptr` is the node at the path. -/
def isAt (s : Shared P) (path : Path) : Bool := s.rebuildPtr.map Prod.fst = some path

def log (s : Shared P) (op : Operation P) : Shared P :=
  if s.rebuildFlag then { s with rebuildLogger := s.rebuildLogger.push op } else s

/-- What is done at the node at `path` when the operation on it is over. -/
def logAt (s : Shared P) (path : Path) (before : Shared P) (op : Operation P) : Shared P :=
  if before.isAt path then s.log op else s

/-- The new size of the node at `path`; a subtree that has become small is not the thread's. -/
def resize (s : Shared P) (params : Params P) (path : Path) (treeSize : ℕ) : Shared P :=
  if s.isAt path then
    { s with
      rebuildPtr :=
        if treeSize < params.multiThreadRebuildPointNum then none else some (path, treeSize) }
  else s

/-- The part of `Rebuild` for a large subtree. -/
def request (s : Shared P) (path : Path) (treeSize : ℕ) : Shared P :=
  if s.locked then s
  else
    match s.rebuildPtr with
    | none => { s with rebuildPtr := some (path, treeSize) }
    | some (_, other) => if other < treeSize then { s with rebuildPtr := some (path, treeSize) } else s

end Shared

/-! ### Update and Push_Down -/

namespace KdTree

def isNull : KdTree P → Bool
  | .nullptr => true
  | .node .. => false

def treeSize : KdTree P → ℕ
  | .nullptr => 0
  | .node n _ _ => n.treeSize

def invalidPointNum : KdTree P → ℕ
  | .nullptr => 0
  | .node n _ _ => n.invalidPointNum

def downDelNum : KdTree P → ℕ
  | .nullptr => 0
  | .node n _ _ => n.downDelNum

/-- Nothing is left of the tree; a null pointer has nothing left either. -/
def treeDeleted : KdTree P → Bool
  | .nullptr => true
  | .node n _ _ => n.treeDeleted

def treeDownsampleDeleted : KdTree P → Bool
  | .nullptr => true
  | .node n _ _ => n.treeDownsampleDeleted

def height : KdTree P → ℕ
  | .nullptr => 0
  | .node _ l r => max l.height r.height + 1

/-- The ranges that `Update` joins, each with whether all of it is deleted. -/
def ranges : KdTree P → List (NodeRange × Bool)
  | .nullptr => []
  | .node n _ _ => [(n.nodeRange, n.treeDeleted)]

end KdTree

namespace NodeRange

def join (a b : NodeRange) : NodeRange :=
  ⟨fun i => Min.min (a.min i) (b.min i), fun i => Max.max (a.max i) (b.max i)⟩

def joinAll (own : NodeRange) : List NodeRange → NodeRange
  | [] => own
  | r :: rs => rs.foldl join r

end NodeRange

section Points

variable [PointType P]

def NodeRange.ofPoint (p : P) : NodeRange := ⟨xyz p, xyz p⟩

/-- `Update`.  The range is that of the parts that are not deleted, and of all of them if all are. -/
def KdTreeNode.update (n : KdTreeNode P) (l r : KdTree P) : KdTreeNode P :=
  let treeDeleted := l.treeDeleted && r.treeDeleted && n.pointDeleted
  let parts := (NodeRange.ofPoint n.point, n.pointDeleted) :: (l.ranges ++ r.ranges)
  { n with
    treeSize := l.treeSize + r.treeSize + 1
    invalidPointNum := l.invalidPointNum + r.invalidPointNum + if n.pointDeleted then 1 else 0
    downDelNum := l.downDelNum + r.downDelNum + if n.pointDownsampleDeleted then 1 else 0
    treeDownsampleDeleted :=
      l.treeDownsampleDeleted && r.treeDownsampleDeleted && n.pointDownsampleDeleted
    treeDeleted := treeDeleted
    nodeRange := NodeRange.joinAll (NodeRange.ofPoint n.point)
      ((parts.filter fun part => treeDeleted || !part.2).map Prod.fst) }

end Points

namespace KdTreeNode

/-- The deletion of a whole tree that its father hands to the root of it. -/
def receive (n : KdTreeNode P) (treeDeleted treeDownsampleDeleted : Bool) : KdTreeNode P :=
  let treeDownsampleDeleted' := n.treeDownsampleDeleted || treeDownsampleDeleted
  let pointDownsampleDeleted' := n.pointDownsampleDeleted || treeDownsampleDeleted
  let treeDeleted' := treeDeleted || treeDownsampleDeleted'
  let downDelNum' := if treeDownsampleDeleted then n.treeSize else n.downDelNum
  { n with
    treeDownsampleDeleted := treeDownsampleDeleted'
    pointDownsampleDeleted := pointDownsampleDeleted'
    treeDeleted := treeDeleted'
    pointDeleted := treeDeleted' || pointDownsampleDeleted'
    downDelNum := downDelNum'
    invalidPointNum := if treeDeleted then n.treeSize else downDelNum'
    needPushDownToLeft := true
    needPushDownToRight := true }

end KdTreeNode

def KdTree.receive (t : KdTree P) (treeDeleted treeDownsampleDeleted : Bool) : KdTree P :=
  match t with
  | .nullptr => .nullptr
  | .node n l r => .node (n.receive treeDeleted treeDownsampleDeleted) l r

namespace KdTreeNode

/-- The left son after `Push_Down`. -/
def pushLeft (n : KdTreeNode P) (l : KdTree P) : KdTree P :=
  if n.needPushDownToLeft then l.receive n.treeDeleted n.treeDownsampleDeleted else l

def pushRight (n : KdTreeNode P) (r : KdTree P) : KdTree P :=
  if n.needPushDownToRight then r.receive n.treeDeleted n.treeDownsampleDeleted else r

/-- The node after `Push_Down`; towards a son that does not exist the flag stays. -/
def afterPush (n : KdTreeNode P) (l r : KdTree P) : KdTreeNode P :=
  { n with
    needPushDownToLeft := n.needPushDownToLeft && l.isNull
    needPushDownToRight := n.needPushDownToRight && r.isNull }

/-- The node while an operation is under way, and after it was left early. -/
def working (n : KdTreeNode P) : KdTreeNode P := { n with workingFlag := true }

/-- The node after an operation that was not left early. -/
def idle (n : KdTreeNode P) : KdTreeNode P := { n with workingFlag := false }

/-- The point of the node is deleted by `Delete_by_point`. -/
def deletePoint (n : KdTreeNode P) : KdTreeNode P :=
  { n with
    pointDeleted := true
    invalidPointNum := n.invalidPointNum + 1
    treeDeleted := n.invalidPointNum + 1 = n.treeSize }

/-- A box covers the whole range of the node. -/
def deleteTree (n : KdTreeNode P) (isDownsample : Bool) : KdTreeNode P :=
  { n with
    treeDeleted := true
    pointDeleted := true
    needPushDownToLeft := true
    needPushDownToRight := true
    invalidPointNum := n.treeSize
    treeDownsampleDeleted := n.treeDownsampleDeleted || isDownsample
    pointDownsampleDeleted := n.pointDownsampleDeleted || isDownsample
    downDelNum := if isDownsample then n.treeSize else n.downDelNum }

end KdTreeNode

/-- What `Push_Down` logs. -/
def Shared.pushDown (s : Shared P) (here : Path) (n : KdTreeNode P) (l r : KdTree P) : Shared P :=
  let op := Operation.pushDown n.treeDeleted n.treeDownsampleDeleted
  let s := if n.needPushDownToLeft && !l.isNull && s.isAt (here ++ [.left]) then s.log op else s
  if n.needPushDownToRight && !r.isNull && s.isAt (here ++ [.right]) then s.log op else s

/-! ### flatten, BuildTree and Rebuild -/

structure Flattened (P : Type) where
  storage : List P
  /-- The points deleted for good, for `Points_deleted` or `Multithread_Points_deleted`. -/
  deleted : List P
  tree : KdTree P
  shared : Shared P

/-- The first argument bounds the depth; the height of the tree is enough. -/
def flatten : ℕ → Path → KdTree P → Shared P → Flattened P
  | _, _, .nullptr, s => ⟨[], [], .nullptr, s⟩
  | 0, _, t, s => ⟨[], [], t, s⟩
  | depth + 1, here, .node n l r, s =>
    let left := flatten depth (here ++ [.left]) (n.pushLeft l) (s.pushDown here n l r)
    let right := flatten depth (here ++ [.right]) (n.pushRight r) left.shared
    { storage := (if n.pointDeleted then [] else [n.point]) ++ left.storage ++ right.storage
      deleted := left.deleted ++ right.deleted ++
        if n.pointDeleted && !n.pointDownsampleDeleted then [n.point] else []
      tree := .node (n.afterPush l r) left.tree right.tree
      shared := right.shared }

section Points

variable [PointType P]

/-- `dim_range` of the points. -/
def dimRange (first : P) (others : List P) (i : Fin 3) : ℚ :=
  fl P (others.foldl (fun m p => max m (xyz p i)) (xyz first i) -
    others.foldl (fun m p => min m (xyz p i)) (xyz first i))

/-- The longest dimension. -/
def divAxis (first : P) (others : List P) : Fin 3 :=
  let axis := if dimRange first others 0 < dimRange first others 1 then 1 else 0
  if dimRange first others axis < dimRange first others 2 then 2 else axis

def initTreeNode (point : P) (divisionAxis : Fin 3) : KdTreeNode P where
  point := point
  divisionAxis := divisionAxis
  treeSize := 0
  invalidPointNum := 0
  downDelNum := 0
  pointDeleted := false
  treeDeleted := false
  pointDownsampleDeleted := false
  treeDownsampleDeleted := false
  needPushDownToLeft := false
  needPushDownToRight := false
  workingFlag := false
  nodeRange := .ofPoint point

/-- A node that was just made and updated. -/
def KdTree.fresh (point : P) (divisionAxis : Fin 3) (l r : KdTree P) : KdTree P :=
  .node ((initTreeNode point divisionAxis).update l r) l r

/-- `BuildTree` on a part of the storage; the number of points bounds the depth. -/
def buildTree (nth : NthElement P) : ℕ → List P → KdTree P
  | 0, _ => .nullptr
  | _, [] => .nullptr
  | depth + 1, first :: others =>
    let axis := divAxis first others
    -- ((l + r) >> 1) - l
    let mid := others.length / 2
    let storage := nth.run axis mid (first :: others)
    match storage[mid]? with
    | some point => .fresh point axis (buildTree nth depth (storage.take mid))
        (buildTree nth depth (storage.drop (mid + 1)))
    | none => .nullptr

def build (nth : NthElement P) (storage : List P) : KdTree P := buildTree nth storage.length storage

variable (params : Params P)

def criterionCheck (n : KdTreeNode P) (l r : KdTree P) : Bool :=
  if n.treeSize ≤ minimalUnbalancedTreeSize then false
  else
    let son := if l.isNull then r else l
    let deleteEvaluation : ℚ := fl P (fl P n.invalidPointNum / fl P n.treeSize)
    let balanceEvaluation : ℚ := fl P (fl P son.treeSize / fl P (n.treeSize - 1))
    params.deleteCriterionParam < deleteEvaluation ||
      (params.balanceCriterionParam < balanceEvaluation ||
        balanceEvaluation < fl P (1 - params.balanceCriterionParam))

def rebuild (here : Path) (n : KdTreeNode P) (l r : KdTree P) (s : Shared P) :
    KdTree P × Shared P :=
  if params.multiThreadRebuildPointNum ≤ n.treeSize then (.node n l r, s.request here n.treeSize)
  else
    let flat := flatten (KdTree.node n l r).height here (.node n l r) s
    (build params.nthElement flat.storage,
      { flat.shared with pointsDeleted := flat.shared.pointsDeleted ++ flat.deleted })

/-- The end of an operation at a node that was not left early. -/
def finish (allowRebuild : Bool) (here : Path) (n : KdTreeNode P) (l r : KdTree P) (s : Shared P) :
    KdTree P × Shared P :=
  let n := (n.update l r).idle
  let s := s.resize params here n.treeSize
  if allowRebuild && criterionCheck params n l r then rebuild params here n l r s
  else (.node n l r, s)

/-! ### Points and boxes -/

def BoxPointType.contains (box : BoxPointType) (p : P) : Bool :=
  decide (∀ i, box.vertexMin i ≤ xyz p i ∧ xyz p i < box.vertexMax i)

def BoxPointType.misses (box : BoxPointType) (range : NodeRange) : Bool :=
  decide (∃ i, box.vertexMax i ≤ range.min i ∨ range.max i < box.vertexMin i)

def BoxPointType.covers (box : BoxPointType) (range : NodeRange) : Bool :=
  decide (∀ i, box.vertexMin i ≤ range.min i ∧ range.max i < box.vertexMax i)

def samePoint (a b : P) : Bool := decide (∀ i, |fl P (xyz a i - xyz b i)| < EPSS)

variable (P) in
/-- The square of the distance. -/
def calcDist (a b : Fin 3 → ℚ) : ℚ :=
  (fl P).addSq ((fl P).addSq ((fl P).sqDiff (a 0) (b 0)) (a 1) (b 1)) (a 2) (b 2)

/-! ### Adding and deleting -/

/-- A son that is `*Rebuild_Ptr` is not rebuilt by this thread. -/
def Shared.allows (s : Shared P) (son : Path) (allowRebuild : Bool) : Bool :=
  allowRebuild && !s.isAt son

def addByPoint (point : P) : ℕ → Bool → Fin 3 → Path → KdTree P → Shared P → KdTree P × Shared P
  | _, _, fatherAxis, _, .nullptr, s => (.fresh point (fatherAxis + 1) .nullptr .nullptr, s)
  | 0, _, _, _, t, s => (t, s)
  | depth + 1, allowRebuild, _, here, .node n l r, s =>
    let s := s.pushDown here n l r
    if xyz point n.divisionAxis < xyz n.point n.divisionAxis then
      let son := here ++ [Side.left]
      let left := addByPoint point depth (s.allows son allowRebuild) n.divisionAxis son
        (n.pushLeft l) s
      finish params allowRebuild here (n.afterPush l r) left.1 (n.pushRight r)
        (left.2.logAt son s (.addPoint point))
    else
      let son := here ++ [Side.right]
      let right := addByPoint point depth (s.allows son allowRebuild) n.divisionAxis son
        (n.pushRight r) s
      finish params allowRebuild here (n.afterPush l r) (n.pushLeft l) right.1
        (right.2.logAt son s (.addPoint point))

def deleteByPoint (point : P) : ℕ → Bool → Path → KdTree P → Shared P → KdTree P × Shared P
  | _, _, _, .nullptr, s => (.nullptr, s)
  | 0, _, _, t, s => (t, s)
  | depth + 1, allowRebuild, here, .node n l r, s =>
    if n.treeDeleted then (.node n l r, s)
    else
      let s := s.pushDown here n l r
      if samePoint n.point point && !n.pointDeleted then
        (.node (n.afterPush l r).working.deletePoint (n.pushLeft l) (n.pushRight r), s)
      else if xyz point n.divisionAxis < xyz n.point n.divisionAxis then
        let son := here ++ [Side.left]
        let left := deleteByPoint point depth (s.allows son allowRebuild) son (n.pushLeft l) s
        finish params allowRebuild here (n.afterPush l r) left.1 (n.pushRight r)
          (left.2.logAt son s (.deletePoint point))
      else
        let son := here ++ [Side.right]
        let right := deleteByPoint point depth (s.allows son allowRebuild) son (n.pushRight r) s
        finish params allowRebuild here (n.afterPush l r) (n.pushLeft l) right.1
          (right.2.logAt son s (.deletePoint point))

/-- The point of the node is in the box and not deleted yet. -/
def KdTreeNode.hit (n : KdTreeNode P) (box : BoxPointType) : Bool :=
  !n.pointDeleted && box.contains n.point

def KdTreeNode.deleteHit (n : KdTreeNode P) (box : BoxPointType) (isDownsample : Bool) :
    KdTreeNode P :=
  { n with
    pointDeleted := n.pointDeleted || n.hit box
    pointDownsampleDeleted := n.pointDownsampleDeleted || (n.hit box && isDownsample) }

structure Deleted (P : Type) where
  tree : KdTree P
  count : ℕ
  shared : Shared P

def deleteByRange (box : BoxPointType) (isDownsample : Bool) :
    ℕ → Bool → Path → KdTree P → Shared P → Deleted P
  | _, _, _, .nullptr, s => ⟨.nullptr, 0, s⟩
  | 0, _, _, t, s => ⟨t, 0, s⟩
  | depth + 1, allowRebuild, here, .node n l r, s =>
    if n.treeDeleted then ⟨.node n l r, 0, s⟩
    else
      let s := s.pushDown here n l r
      let pushed := (n.afterPush l r).working
      if box.misses n.nodeRange then ⟨.node pushed (n.pushLeft l) (n.pushRight r), 0, s⟩
      else if box.covers n.nodeRange then
        ⟨.node (pushed.deleteTree isDownsample) (n.pushLeft l) (n.pushRight r),
          n.treeSize - n.invalidPointNum, s⟩
      else
        let op := if isDownsample then Operation.downsampleDelete box else .deleteBox box
        let left := deleteByRange box isDownsample depth (s.allows (here ++ [.left]) allowRebuild)
          (here ++ [.left]) (n.pushLeft l) s
        let s := left.shared.logAt (here ++ [.left]) s op
        let right := deleteByRange box isDownsample depth (s.allows (here ++ [.right]) allowRebuild)
          (here ++ [.right]) (n.pushRight r) s
        let s := right.shared.logAt (here ++ [.right]) s op
        let done := finish params allowRebuild here (pushed.deleteHit box isDownsample) left.tree
          right.tree s
        ⟨done.1, (if n.hit box then 1 else 0) + left.count + right.count, done.2⟩

/-! ### Searching -/

def searchByRange (box : BoxPointType) : ℕ → Path → KdTree P → Shared P → List P × KdTree P × Shared P
  | _, _, .nullptr, s => ([], .nullptr, s)
  | 0, _, t, s => ([], t, s)
  | depth + 1, here, .node n l r, s =>
    let s₁ := s.pushDown here n l r
    let l₁ := n.pushLeft l
    let r₁ := n.pushRight r
    if box.misses n.nodeRange then ([], .node (n.afterPush l r) l₁ r₁, s₁)
    else if box.covers n.nodeRange then
      let flat := flatten (depth + 1) here (.node (n.afterPush l r) l₁ r₁) s₁
      (flat.storage, flat.tree, flat.shared)
    else
      let left := searchByRange box depth (here ++ [.left]) l₁ s₁
      let right := searchByRange box depth (here ++ [.right]) r₁ left.2.2
      ((if box.contains n.point && !n.pointDeleted then [n.point] else []) ++ left.1 ++ right.1,
        .node (n.afterPush l r) left.2.1 right.2.1, right.2.2)

/-- `PointType_CMP` -/
structure PointCmp (P : Type) where
  point : P
  dist : ℚ

/-- `1e-10`, as a double. -/
def distTolerance : ℚ := 7737125245533627 / 2 ^ 86

def PointCmp.lt (a b : PointCmp P) : Bool :=
  if |fl P (a.dist - b.dist)| < distTolerance then xyz a.point 0 < xyz b.point 0
  else a.dist < b.dist

variable (P) in
/-- What is added for one axis of a range. -/
def axisDist (lo hi x minDist : ℚ) : ℚ :=
  let minDist := if x < lo then (fl P).addSq minDist x lo else minDist
  if hi < x then (fl P).addSq minDist x hi else minDist

/-- The square of the distance to the range of a node, infinite for a null pointer. -/
def calcBoxDist (t : KdTree P) (q : Fin 3 → ℚ) : WithTop ℚ :=
  match t with
  | .nullptr => ⊤
  | .node n _ _ =>
    let add (i : Fin 3) : ℚ → ℚ := axisDist P (n.nodeRange.min i) (n.nodeRange.max i) (q i)
    ((add 2 (add 1 (add 0 0)) : ℚ) : WithTop ℚ)

/-- `q.top().dist`, which is read of a full heap only. -/
def topDist (heap : List (PointCmp P)) : ℚ :=
  match heap[0]? with
  | some a => a.dist
  | none => 0

/-- Offer a point to the heap, which has room for `2 * kNearest`. -/
def offer (kNearest : ℕ) (maxDistSqr : WithTop ℚ) (q : Fin 3 → ℚ) (p : P)
    (heap : List (PointCmp P)) : List (PointCmp P) :=
  let dist := calcDist P q (xyz p)
  if dist ≤ maxDistSqr ∧ (heap.length < kNearest ∨ dist < topDist heap) then
    let heap := if kNearest ≤ heap.length then MaxHeap.pop PointCmp.lt heap else heap
    if 2 * kNearest ≤ heap.length then heap else MaxHeap.push PointCmp.lt heap ⟨p, dist⟩
  else heap

structure Searched (P : Type) where
  heap : List (PointCmp P)
  tree : KdTree P
  shared : Shared P

structure SearchedSons (P : Type) where
  heap : List (PointCmp P)
  leftSon : KdTree P
  rightSon : KdTree P
  shared : Shared P

/-- The part of `Search` that goes on to the sons: to the closer one first, as long as there is room
in the heap or both are closer than its top, and else to those that are. -/
def searchSons (kNearest : ℕ) (q : Fin 3 → ℚ) (l r : KdTree P)
    (left right : List (PointCmp P) → Shared P → Searched P) (heap : List (PointCmp P))
    (s : Shared P) : SearchedSons P :=
  let close (t : KdTree P) (heap : List (PointCmp P)) : Prop :=
    calcBoxDist t q < (topDist heap : WithTop ℚ)
  let room (heap : List (PointCmp P)) : Prop := heap.length < kNearest
  if room heap ∨ (close l heap ∧ close r heap) then
    if calcBoxDist l q ≤ calcBoxDist r q then
      let a := left heap s
      if room a.heap ∨ close r a.heap then
        let b := right a.heap a.shared
        ⟨b.heap, a.tree, b.tree, b.shared⟩
      else ⟨a.heap, a.tree, r, a.shared⟩
    else
      let b := right heap s
      if room b.heap ∨ close l b.heap then
        let a := left b.heap b.shared
        ⟨a.heap, a.tree, b.tree, a.shared⟩
      else ⟨b.heap, l, b.tree, b.shared⟩
  else
    let a := if close l heap then left heap s else ⟨heap, l, s⟩
    let b := if close r a.heap then right a.heap a.shared else ⟨a.heap, r, a.shared⟩
    ⟨b.heap, a.tree, b.tree, b.shared⟩

def search (kNearest : ℕ) (maxDistSqr : WithTop ℚ) (q : Fin 3 → ℚ) :
    ℕ → Path → KdTree P → List (PointCmp P) → Shared P → Searched P
  | _, _, .nullptr, heap, s => ⟨heap, .nullptr, s⟩
  | 0, _, t, heap, s => ⟨heap, t, s⟩
  | depth + 1, here, .node n l r, heap, s =>
    if n.treeDeleted || maxDistSqr < calcBoxDist (.node n l r) q then ⟨heap, .node n l r, s⟩
    else
      let l₁ := n.pushLeft l
      let r₁ := n.pushRight r
      let sons := searchSons kNearest q l₁ r₁
        (search kNearest maxDistSqr q depth (here ++ [.left]) l₁)
        (search kNearest maxDistSqr q depth (here ++ [.right]) r₁)
        (if n.pointDeleted then heap else offer kNearest maxDistSqr q n.point heap)
        (s.pushDown here n l r)
      ⟨sons.heap, .node (n.afterPush l r) sons.leftSon sons.rightSon, sons.shared⟩

/-- `Nearest_Points`, `Point_Distance` and the tree that the search leaves. -/
structure Nearest (P : Type) where
  points : List P
  distances : List ℚ
  tree : KdTree P
  shared : Shared P

def nearestSearch (q : P) (kNearest : ℕ) (maxDist : WithTop ℚ) (t : KdTree P) (s : Shared P) :
    Nearest P :=
  let found := search kNearest (maxDist.map fun d => fl P (d * d)) (xyz q) t.height [] t [] s
  let nearest := MaxHeap.drain PointCmp.lt (min kNearest found.heap.length) found.heap []
  ⟨nearest.map PointCmp.point, nearest.map PointCmp.dist, found.tree, found.shared⟩

end Points

end RoverSwarm.IkdTree
