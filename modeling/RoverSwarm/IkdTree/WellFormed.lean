import Mathlib.Algebra.Order.Group.Multiset
import RoverSwarm.IkdTree

/-!
# IkdTree.WellFormed — what the fields of a node promise

`live t` are the points of a tree that are not deleted.  In a well-formed tree every node counts
them, its range contains them, it is marked as deleted exactly if there are none, and a pending
deletion is pending towards both sons.  A flag may be left over from a deletion that found no son;
the son that was added since is then `Fresh`, and handing the flag down changes nothing.
-/

namespace RoverSwarm.IkdTree

variable {P : Type}

namespace KdTree

/-- The points that are not deleted. -/
def live : KdTree P → Multiset P
  | .nullptr => 0
  | .node n l r =>
    if n.treeDeleted then 0 else (if n.pointDeleted then 0 else {n.point}) + live l + live r

/-- A single point, as it was added. -/
def Fresh : KdTree P → Prop
  | .nullptr => True
  | .node n l r => n.treeDeleted = false ∧ n.pointDeleted = false ∧
    n.treeDownsampleDeleted = false ∧ n.pointDownsampleDeleted = false ∧ n.treeSize = 1 ∧
    n.invalidPointNum = 0 ∧ n.downDelNum = 0 ∧ l = .nullptr ∧ r = .nullptr

end KdTree

open KdTree

/-- The point of a node, if it is not deleted. -/
def KdTreeNode.own (n : KdTreeNode P) : Multiset P := if n.pointDeleted then 0 else {n.point}

variable {n : KdTreeNode P} {l r t : KdTree P}

/-! ### The points of a tree -/

@[simp] theorem live_nullptr : (KdTree.nullptr : KdTree P).live = 0 := rfl

theorem live_node : (KdTree.node n l r).live =
    if n.treeDeleted then 0 else n.own + l.live + r.live := rfl

theorem live_of_treeDeleted (h : t.treeDeleted = true) : t.live = 0 := by
  cases t with
  | nullptr => rfl
  | node n l r =>
    have h : n.treeDeleted = true := h
    simp [live_node, h]

theorem live_of_alive (h : n.treeDeleted = false) :
    (KdTree.node n l r).live = n.own + l.live + r.live := by
  simp [live_node, h]

theorem card_own : n.own.card + (if n.pointDeleted then 1 else 0) = 1 := by
  unfold KdTreeNode.own
  split_ifs <;> simp

/-! ### Handing a deletion down -/

@[simp] theorem height_receive (t : KdTree P) (d e : Bool) : (t.receive d e).height = t.height := by
  cases t <;> rfl

@[simp] theorem treeSize_receive (t : KdTree P) (d e : Bool) :
    (t.receive d e).treeSize = t.treeSize := by
  cases t <;> rfl

@[simp] theorem isNull_receive (t : KdTree P) (d e : Bool) : (t.receive d e).isNull = t.isNull := by
  cases t <;> rfl

theorem treeDeleted_receive (t : KdTree P) (e : Bool) : (t.receive true e).treeDeleted = true := by
  cases t <;> rfl

@[simp] theorem height_pushLeft (n : KdTreeNode P) (l : KdTree P) :
    (n.pushLeft l).height = l.height := by
  unfold KdTreeNode.pushLeft
  split_ifs <;> simp

@[simp] theorem height_pushRight (n : KdTreeNode P) (r : KdTree P) :
    (n.pushRight r).height = r.height := by
  unfold KdTreeNode.pushRight
  split_ifs <;> simp

@[simp] theorem treeSize_pushLeft (n : KdTreeNode P) (l : KdTree P) :
    (n.pushLeft l).treeSize = l.treeSize := by
  unfold KdTreeNode.pushLeft
  split_ifs <;> simp

@[simp] theorem treeSize_pushRight (n : KdTreeNode P) (r : KdTree P) :
    (n.pushRight r).treeSize = r.treeSize := by
  unfold KdTreeNode.pushRight
  split_ifs <;> simp

@[simp] theorem own_afterPush (n : KdTreeNode P) (l r : KdTree P) :
    (n.afterPush l r).own = n.own := rfl

theorem isNull_iff : t.isNull = true ↔ t = .nullptr := by
  cases t <;> simp [KdTree.isNull]

/-- After `Push_Down` a flag is left only towards a son that does not exist. -/
theorem fresh_of_afterPush_left (h : (n.afterPush l r).needPushDownToLeft = true) :
    l = .nullptr ∧ n.pushLeft l = .nullptr := by
  have hnull : l.isNull = true := (Bool.and_eq_true_iff.mp h).2
  obtain rfl := isNull_iff.mp hnull
  refine ⟨rfl, ?_⟩
  unfold KdTreeNode.pushLeft
  split_ifs <;> rfl

theorem fresh_of_afterPush_right (h : (n.afterPush l r).needPushDownToRight = true) :
    r = .nullptr ∧ n.pushRight r = .nullptr := by
  have hnull : r.isNull = true := (Bool.and_eq_true_iff.mp h).2
  obtain rfl := isNull_iff.mp hnull
  refine ⟨rfl, ?_⟩
  unfold KdTreeNode.pushRight
  split_ifs <;> rfl

section Points

variable [PointType P]

def NodeRange.Contains (range : NodeRange) (p : P) : Prop :=
  ∀ i, range.min i ≤ xyz p i ∧ xyz p i ≤ range.max i

structure NodeOk (n : KdTreeNode P) (l r : KdTree P) : Prop where
  point_of_tree : n.treeDeleted = true → n.pointDeleted = true
  tree_of_down : n.treeDownsampleDeleted = true → n.treeDeleted = true
  point_of_down : n.pointDownsampleDeleted = true → n.pointDeleted = true
  pending : n.treeDeleted = true → (n.needPushDownToLeft = true ∧ n.needPushDownToRight = true) ∨
    (l.treeDeleted = true ∧ r.treeDeleted = true)
  stale_left : n.treeDeleted = false → n.needPushDownToLeft = true → l.Fresh
  stale_right : n.treeDeleted = false → n.needPushDownToRight = true → r.Fresh
  alive : n.treeDeleted = false → 0 < (KdTree.node n l r).live.card
  count : n.invalidPointNum + (KdTree.node n l r).live.card = n.treeSize
  size : l.treeSize + r.treeSize < n.treeSize
  range : ∀ p ∈ (KdTree.node n l r).live, n.nodeRange.Contains p

def WellFormed : KdTree P → Prop
  | .nullptr => True
  | .node n l r => NodeOk n l r ∧ WellFormed l ∧ WellFormed r

theorem WellFormed.treeDeleted_of_live (h : WellFormed t) (hlive : t.live = 0) :
    t.treeDeleted = true := by
  cases t with
  | nullptr => rfl
  | node n l r =>
    by_contra hne
    have hpos := h.1.alive (eq_false_of_ne_true hne)
    rw [hlive] at hpos
    simp at hpos

/-- A node counts its points. -/
theorem WellFormed.count (h : WellFormed t) : t.invalidPointNum + t.live.card = t.treeSize := by
  cases t with
  | nullptr => rfl
  | node n l r => exact h.1.count

/-! ### Push_Down -/

theorem wellFormed_receive (h : WellFormed t) (e : Bool) : WellFormed (t.receive true e) := by
  cases t with
  | nullptr => exact h
  | node n l r =>
    obtain ⟨hn, hl, hr⟩ := h
    refine ⟨?_, hl, hr⟩
    have hlive : (KdTree.node (n.receive true e) l r).live = 0 :=
      live_of_treeDeleted (t := .node (n.receive true e) l r) rfl
    constructor
    · intro _
      rfl
    · intro _
      rfl
    · intro _
      rfl
    · intro _
      exact Or.inl ⟨rfl, rfl⟩
    · intro h
      cases h
    · intro h
      cases h
    · intro h
      cases h
    · rw [hlive]
      simp [KdTreeNode.receive]
    · exact hn.size
    · intro p hp
      rw [hlive] at hp
      simp at hp

/-- A left-over flag changes nothing about a fresh node. -/
theorem receive_fresh (h : WellFormed t) (hfresh : t.Fresh) :
    WellFormed (t.receive false false) ∧ (t.receive false false).live = t.live := by
  cases t with
  | nullptr => exact ⟨h, rfl⟩
  | node n l r =>
    obtain ⟨htree, hpoint, hdown, hpdown, hsize, hinvalid, hdel, rfl, rfl⟩ := hfresh
    obtain ⟨hn, -, -⟩ := h
    have hlive : (KdTree.node (n.receive false false) .nullptr .nullptr).live =
        (KdTree.node n .nullptr .nullptr).live := by
      simp [live_node, KdTreeNode.receive, KdTreeNode.own, htree, hpoint, hdown, hpdown]
    refine ⟨⟨?_, trivial, trivial⟩, hlive⟩
    constructor
    · simp [KdTreeNode.receive, hdown]
    · simp [KdTreeNode.receive, hdown]
    · simp [KdTreeNode.receive, hpdown]
    · simp [KdTreeNode.receive, hdown]
    · intro _ _
      trivial
    · intro _ _
      trivial
    · intro _
      rw [hlive]
      exact hn.alive htree
    · rw [hlive]
      have hcount := hn.count
      simp [KdTreeNode.receive]
      omega
    · exact hn.size
    · rw [hlive]
      exact hn.range

/-- What `Push_Down` makes of a son: its points are those it had, unless the whole tree is deleted,
and then none. -/
structure Pushed (treeDeleted : Bool) (son pushed : KdTree P) : Prop where
  wellFormed : WellFormed pushed
  live : treeDeleted = false → pushed.live = son.live
  treeDeleted : treeDeleted = true → pushed.treeDeleted = true

/-- One son; `need` is the flag towards it. -/
theorem pushed_of_flag {need : Bool} (hson : WellFormed t)
    (hdown : n.treeDownsampleDeleted = true → n.treeDeleted = true)
    (hstale : n.treeDeleted = false → need = true → t.Fresh)
    (hpending : n.treeDeleted = true → need = true ∨ t.treeDeleted = true) :
    Pushed n.treeDeleted t
      (if need then t.receive n.treeDeleted n.treeDownsampleDeleted else t) := by
  cases need with
  | false =>
    refine ⟨hson, fun _ => rfl, fun htree => ?_⟩
    rcases hpending htree with hneed | hdeleted
    · cases hneed
    · exact hdeleted
  | true =>
    rw [if_pos rfl]
    cases htree : n.treeDeleted with
    | true =>
      exact ⟨wellFormed_receive hson _, nofun, fun _ => treeDeleted_receive _ _⟩
    | false =>
      have hd : n.treeDownsampleDeleted = false := by
        by_contra hne
        rw [hdown (by simpa using hne)] at htree
        cases htree
      rw [hd]
      obtain ⟨hwf, hlive⟩ := receive_fresh hson (hstale htree rfl)
      exact ⟨hwf, fun _ => hlive, nofun⟩

theorem WellFormed.pushLeft (h : WellFormed (.node n l r)) :
    Pushed n.treeDeleted l (n.pushLeft l) :=
  pushed_of_flag h.2.1 h.1.tree_of_down h.1.stale_left fun htree =>
    (h.1.pending htree).imp And.left And.left

theorem WellFormed.pushRight (h : WellFormed (.node n l r)) :
    Pushed n.treeDeleted r (n.pushRight r) :=
  pushed_of_flag h.2.2 h.1.tree_of_down h.1.stale_right fun htree =>
    (h.1.pending htree).imp And.right And.right

/-- `Push_Down` keeps the points of a tree. -/
theorem WellFormed.push (h : WellFormed (.node n l r)) :
    WellFormed (.node (n.afterPush l r) (n.pushLeft l) (n.pushRight r)) ∧
      (KdTree.node (n.afterPush l r) (n.pushLeft l) (n.pushRight r)).live =
        (KdTree.node n l r).live := by
  have hl := h.pushLeft
  have hr := h.pushRight
  have hlive : (KdTree.node (n.afterPush l r) (n.pushLeft l) (n.pushRight r)).live =
      (KdTree.node n l r).live := by
    cases htree : n.treeDeleted with
    | true => simp [live_node, htree, KdTreeNode.afterPush]
    | false =>
      rw [live_of_alive (n := n.afterPush l r) htree, live_of_alive htree, hl.live htree,
        hr.live htree, own_afterPush]
  obtain ⟨hn, -, -⟩ := h
  refine ⟨⟨?_, hl.wellFormed, hr.wellFormed⟩, hlive⟩
  constructor
  · exact hn.point_of_tree
  · exact hn.tree_of_down
  · exact hn.point_of_down
  · intro htree
    exact Or.inr ⟨hl.treeDeleted htree, hr.treeDeleted htree⟩
  · intro _ hneed
    rw [(fresh_of_afterPush_left hneed).2]
    trivial
  · intro _ hneed
    rw [(fresh_of_afterPush_right hneed).2]
    trivial
  · intro htree
    rw [hlive]
    exact hn.alive htree
  · rw [hlive]
    exact hn.count
  · rw [treeSize_pushLeft, treeSize_pushRight]
    exact hn.size
  · rw [hlive]
    exact hn.range

/-! ### Update -/

theorem NodeRange.join_left {a b : NodeRange} {p : P} (h : a.Contains p) : (a.join b).Contains p :=
  fun i => ⟨(min_le_left _ _).trans (h i).1, (h i).2.trans (le_max_left _ _)⟩

theorem NodeRange.join_right {a b : NodeRange} {p : P} (h : b.Contains p) : (a.join b).Contains p :=
  fun i => ⟨(min_le_right _ _).trans (h i).1, (h i).2.trans (le_max_right _ _)⟩

theorem NodeRange.foldl_join {a : NodeRange} {rs : List NodeRange} {p : P} (h : a.Contains p) :
    (rs.foldl NodeRange.join a).Contains p := by
  induction rs generalizing a with
  | nil => exact h
  | cons r rs ih => exact ih (join_left h)

/-- Ranges that are joined contain what each of them does. -/
theorem NodeRange.contains_foldl {range first : NodeRange} {rs : List NodeRange} {p : P}
    (hmem : range ∈ first :: rs) (h : range.Contains p) :
    (rs.foldl NodeRange.join first).Contains p := by
  induction rs generalizing first with
  | nil =>
    obtain rfl := List.mem_singleton.mp hmem
    exact h
  | cons second rs ih =>
    simp only [List.mem_cons] at hmem
    rcases hmem with rfl | rfl | hmem
    · exact foldl_join h
    · show (rs.foldl NodeRange.join (first.join range)).Contains p
      exact foldl_join (join_right h)
    · exact ih (List.mem_cons_of_mem (first.join second) hmem)

theorem NodeRange.contains_joinAll {own range : NodeRange} {rs : List NodeRange} {p : P}
    (hmem : range ∈ rs) (h : range.Contains p) : (joinAll own rs).Contains p := by
  cases rs with
  | nil => simp at hmem
  | cons first rs => exact contains_foldl hmem h

/-- The range of a son contains its points. -/
theorem WellFormed.exists_range (h : WellFormed t) {p : P} (hp : p ∈ t.live) :
    ∃ range, (range, false) ∈ t.ranges ∧ range.Contains p := by
  cases t with
  | nullptr => simp at hp
  | node n l r =>
    have hne : n.treeDeleted = false := by
      by_contra htree
      rw [live_of_treeDeleted (t := .node n l r) (eq_true_of_ne_false htree)] at hp
      simp at hp
    exact ⟨n.nodeRange, by simp [KdTree.ranges, hne], h.1.range p hp⟩

/-- What a node needs before `Update`: the flags that are set are left over, or everything is
deleted. -/
structure Settled (n : KdTreeNode P) (l r : KdTree P) : Prop where
  point_of_down : n.pointDownsampleDeleted = true → n.pointDeleted = true
  left : n.needPushDownToLeft = true →
    l.Fresh ∨ (l.treeDeleted = true ∧ r.treeDeleted = true ∧ n.pointDeleted = true)
  right : n.needPushDownToRight = true →
    r.Fresh ∨ (l.treeDeleted = true ∧ r.treeDeleted = true ∧ n.pointDeleted = true)

theorem live_update (n : KdTreeNode P) (l r : KdTree P) :
    (KdTree.node (n.update l r) l r).live = n.own + l.live + r.live := by
  by_cases htree : (n.update l r).treeDeleted = true
  · rw [live_of_treeDeleted (t := .node (n.update l r) l r) htree]
    have hall : (l.treeDeleted = true ∧ r.treeDeleted = true) ∧ n.pointDeleted = true := by
      simpa [KdTreeNode.update] using htree
    simp [live_of_treeDeleted hall.1.1, live_of_treeDeleted hall.1.2, KdTreeNode.own, hall.2]
  · rw [live_of_alive (n := n.update l r) (by simpa using htree)]
    rfl

theorem tree_of_down (h : WellFormed t) (hdown : t.treeDownsampleDeleted = true) :
    t.treeDeleted = true := by
  cases t with
  | nullptr => rfl
  | node n l r => exact h.1.tree_of_down hdown

/-- `Update` makes a node of two well-formed trees well-formed. -/
theorem wellFormed_update (hn : Settled n l r) (hl : WellFormed l) (hr : WellFormed r) :
    WellFormed (.node (n.update l r) l r) := by
  have hlive := live_update n l r
  have htree : (n.update l r).treeDeleted = (l.treeDeleted && r.treeDeleted && n.pointDeleted) := rfl
  refine ⟨?_, hl, hr⟩
  constructor
  · intro h
    rw [htree] at h
    exact (Bool.and_eq_true_iff.mp h).2
  · intro h
    have hdown : (l.treeDownsampleDeleted = true ∧ r.treeDownsampleDeleted = true) ∧
        n.pointDownsampleDeleted = true := by
      simpa [KdTreeNode.update] using h
    rw [htree, tree_of_down hl hdown.1.1, tree_of_down hr hdown.1.2, hn.point_of_down hdown.2]
    rfl
  · exact hn.point_of_down
  · intro h
    rw [htree] at h
    exact Or.inr (by simpa using (Bool.and_eq_true_iff.mp h).1)
  · intro h hneed
    rcases hn.left hneed with hfresh | ⟨h1, h2, h3⟩
    · exact hfresh
    · rw [htree, h1, h2, h3] at h
      cases h
  · intro h hneed
    rcases hn.right hneed with hfresh | ⟨h1, h2, h3⟩
    · exact hfresh
    · rw [htree, h1, h2, h3] at h
      cases h
  · intro h
    -- a part that is not marked as deleted has a point
    rw [hlive]
    rw [Nat.pos_iff_ne_zero]
    intro hcard
    rw [Multiset.card_add, Multiset.card_add] at hcard
    have hown : n.pointDeleted = true := by
      by_contra hne
      have hpos := card_own (n := n)
      simp only [hne, if_false] at hpos
      omega
    rw [htree, hl.treeDeleted_of_live (Multiset.card_eq_zero.mp (by omega)),
      hr.treeDeleted_of_live (Multiset.card_eq_zero.mp (by omega)), hown] at h
    cases h
  · rw [hlive, Multiset.card_add, Multiset.card_add]
    have hcl := hl.count
    have hcr := hr.count
    have hown := card_own (n := n)
    show l.invalidPointNum + r.invalidPointNum + (if n.pointDeleted then 1 else 0) + _ =
      l.treeSize + r.treeSize + 1
    omega
  · show l.treeSize + r.treeSize < l.treeSize + r.treeSize + 1
    omega
  · intro p hp
    rw [hlive, Multiset.mem_add, Multiset.mem_add] at hp
    have hpart : ∃ range, (range, false) ∈
        (NodeRange.ofPoint n.point, n.pointDeleted) :: (l.ranges ++ r.ranges) ∧ range.Contains p := by
      rcases hp with (hown | hleft) | hright
      · unfold KdTreeNode.own at hown
        split_ifs at hown with hdel
        · simp at hown
        · obtain rfl := Multiset.mem_singleton.mp hown
          refine ⟨.ofPoint n.point, by simp [hdel], fun i => ⟨le_refl _, le_refl _⟩⟩
      · obtain ⟨range, hmem, hrange⟩ := hl.exists_range hleft
        exact ⟨range, by simp [hmem], hrange⟩
      · obtain ⟨range, hmem, hrange⟩ := hr.exists_range hright
        exact ⟨range, by simp [hmem], hrange⟩
    obtain ⟨range, hmem, hrange⟩ := hpart
    refine NodeRange.contains_joinAll ?_ hrange
    exact List.mem_map.mpr ⟨(range, false), List.mem_filter.mpr ⟨hmem, by simp⟩, rfl⟩

end Points

end RoverSwarm.IkdTree
