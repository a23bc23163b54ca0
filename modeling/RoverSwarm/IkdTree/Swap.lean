import RoverSwarm.IkdTree.CatchUp

/-!
# IkdTree.Swap — the new subtree in the place of the old one

The rebuild thread updates the nodes above the new subtree, up to one that an operation works on or
that is about to get a deletion from its father.  It does not look at a deletion that a node has yet
to hand down itself, and `Update` of such a node brings the points below it back.  Where the nodes
above are neither deleted nor worked on the replacement keeps the points of the map.
-/

namespace RoverSwarm.IkdTree

open KdTree

variable {P : Type} {n : KdTreeNode P} {l r t t' u : KdTree P} {rel : Path} {s s' : Shared P}

section Points

variable [PointType P] {params : Params P}

/-- One round of the loop over the nodes above: whether it comes to the node at all, and whether its
father has something to hand down to it. -/
def updateAbove (goesOn pending : Bool) (n : KdTreeNode P) (l r : KdTree P) : KdTree P × Bool :=
  if goesOn && !n.workingFlag && !pending then (.node (n.update l r) l r, true)
  else (.node n l r, false)

/-- The end of `multi_thread_rebuild`. -/
def swapAt (u : KdTree P) : Path → Bool → KdTree P → KdTree P × Bool
  | [], _, _ => (u, true)
  | _ :: _, _, .nullptr => (.nullptr, false)
  | .left :: path, pending, .node n l r =>
    let son := swapAt u path n.needPushDownToLeft l
    updateAbove son.2 pending n son.1 r
  | .right :: path, pending, .node n l r =>
    let son := swapAt u path n.needPushDownToRight r
    updateAbove son.2 pending n l son.1

/-- **A deletion that was not handed down yet is undone**: the father of the subtree is deleted, and
after the replacement the points of the new subtree are in the map. -/
theorem swapAt_revives (htree : n.treeDeleted = true) (hworking : n.workingFlag = false)
    (u : KdTree P) :
    (KdTree.node n l r).live = 0 ∧ u.live ≤ (swapAt u [.left] false (.node n l r)).1.live := by
  refine ⟨live_of_treeDeleted htree, ?_⟩
  have hswap : swapAt u [.left] false (.node n l r) = (.node (n.update u r) u r, true) := by
    simp [swapAt, updateAbove, hworking]
  rw [hswap, live_update]
  exact (Multiset.le_add_left _ _).trans (Multiset.le_add_right _ _)

end Points

/-! ### A point is added meanwhile -/

end RoverSwarm.IkdTree
