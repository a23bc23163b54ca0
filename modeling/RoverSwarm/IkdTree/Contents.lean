import RoverSwarm.IkdTree.Handed

/-!
# IkdTree.Contents — what the operations do to the points of a tree

Whatever is rebuilt on the way and whoever rebuilds it, an operation on a well-formed tree leaves a
well-formed tree, and its points are those that the operation says.
-/

namespace RoverSwarm.IkdTree

open KdTree

variable {P : Type} {n : KdTreeNode P} {l r t t' : KdTree P} {depth : ℕ}

theorem height_left_le (h : (KdTree.node n l r).height ≤ depth + 1) : (n.pushLeft l).height ≤ depth := by
  rw [height_pushLeft]
  exact (Nat.le_max_left _ _).trans (Nat.le_of_succ_le_succ h)

theorem height_right_le (h : (KdTree.node n l r).height ≤ depth + 1) :
    (n.pushRight r).height ≤ depth := by
  rw [height_pushRight]
  exact (Nat.le_max_right _ _).trans (Nat.le_of_succ_le_succ h)

theorem fresh_of_null (h : t = .nullptr → t' = .nullptr) : t = .nullptr → t'.Fresh := by
  intro hnull
  rw [h hnull]
  trivial

variable [PointType P]

/-! ### flatten and BuildTree -/

/-- `flatten` finds the points that are not deleted. -/
theorem flatten_spec (hdepth : t.height ≤ depth) (h : WellFormed t) (here : Path) (s : Shared P) :
    ((flatten depth here t s).storage : Multiset P) = t.live := by
  induction depth generalizing t here s with
  | zero =>
    cases t with
    | nullptr => rfl
    | node n l r => simp [KdTree.height] at hdepth
  | succ depth ih =>
    cases t with
    | nullptr => rfl
    | node n l r =>
      have hl := h.pushLeft
      have hr := h.pushRight
      have hleft := ih (height_left_le hdepth) hl.wellFormed (here ++ [.left])
        (s.pushDown here n l r)
      have hright := ih (height_right_le hdepth) hr.wellFormed (here ++ [.right])
        (flatten depth (here ++ [.left]) (n.pushLeft l) (s.pushDown here n l r)).shared
      unfold flatten
      dsimp only
      rw [← Multiset.coe_add, ← Multiset.coe_add, hleft, hright]
      cases htree : n.treeDeleted with
      | true =>
        rw [live_of_treeDeleted (hl.treeDeleted htree), live_of_treeDeleted (hr.treeDeleted htree),
          live_of_treeDeleted (t := .node n l r) htree, h.1.point_of_tree htree]
        rfl
      | false =>
        rw [hl.live htree, hr.live htree, live_of_alive htree]
        unfold KdTreeNode.own
        split_ifs <;> rfl

/-- A node that was just made for a point. -/
theorem fresh_spec (p : P) (axis : Fin 3) (hl : WellFormed l) (hr : WellFormed r) :
    WellFormed (KdTree.fresh p axis l r) ∧
      (KdTree.fresh p axis l r).live = p ::ₘ (l.live + r.live) := by
  have hsettled : Settled (initTreeNode p axis) l r := ⟨nofun, nofun, nofun⟩
  refine ⟨wellFormed_update hsettled hl hr, ?_⟩
  refine (live_update (initTreeNode p axis) l r).trans ?_
  rw [Multiset.add_assoc]
  rfl

/-- `BuildTree` makes a tree of the points. -/
theorem buildTree_spec (nth : NthElement P) {storage : List P} (hdepth : storage.length ≤ depth) :
    WellFormed (buildTree nth depth storage) ∧
      (buildTree nth depth storage).live = (storage : Multiset P) := by
  induction depth generalizing storage with
  | zero =>
    obtain rfl := List.eq_nil_of_length_eq_zero (Nat.le_zero.mp hdepth)
    exact ⟨trivial, rfl⟩
  | succ depth ih =>
    cases storage with
    | nil => exact ⟨trivial, rfl⟩
    | cons first others =>
      unfold buildTree
      dsimp only
      have hperm := nth.perm (divAxis first others) (others.length / 2) (first :: others)
      have hlength := hperm.length_eq
      generalize nth.run (divAxis first others) (others.length / 2) (first :: others) = storage
        at hperm hlength
      rw [List.length_cons] at hlength hdepth
      have hmid : others.length / 2 < storage.length := by omega
      rw [List.getElem?_eq_getElem hmid]
      obtain ⟨hleft, hleft'⟩ := @ih (storage.take (others.length / 2))
        (by rw [List.length_take]; omega)
      obtain ⟨hright, hright'⟩ := @ih (storage.drop (others.length / 2 + 1))
        (by rw [List.length_drop]; omega)
      obtain ⟨hwf, hlive⟩ := fresh_spec storage[others.length / 2] (divAxis first others) hleft hright
      refine ⟨hwf, hlive.trans ?_⟩
      rw [hleft', hright', Multiset.coe_add, Multiset.cons_coe]
      refine Multiset.coe_eq_coe.mpr (List.Perm.trans ?_ hperm)
      refine List.perm_middle.symm.trans ?_
      rw [List.getElem_cons_drop, List.take_append_drop]

/-! ### The end of an operation -/

theorem WellFormed.working (h : WellFormed (.node n l r)) : WellFormed (.node n.working l r) := by
  obtain ⟨hn, hl, hr⟩ := h
  exact ⟨⟨hn.point_of_tree, hn.tree_of_down, hn.point_of_down, hn.pending, hn.stale_left,
    hn.stale_right, hn.alive, hn.count, hn.size, hn.range⟩, hl, hr⟩

theorem WellFormed.idle (h : WellFormed (.node n l r)) : WellFormed (.node n.idle l r) := by
  obtain ⟨hn, hl, hr⟩ := h
  exact ⟨⟨hn.point_of_tree, hn.tree_of_down, hn.point_of_down, hn.pending, hn.stale_left,
    hn.stale_right, hn.alive, hn.count, hn.size, hn.range⟩, hl, hr⟩

/-- A rebuilt tree has the points of the old one. -/
theorem rebuild_spec (params : Params P) (h : WellFormed (.node n l r)) (here : Path)
    (s : Shared P) : WellFormed (rebuild params here n l r s).1 ∧
      (rebuild params here n l r s).1.live = (KdTree.node n l r).live := by
  unfold rebuild
  split_ifs
  · exact ⟨h, rfl⟩
  · have hstorage := flatten_spec (le_refl _) h here s
    have hlen : (flatten (KdTree.node n l r).height here (.node n l r) s).storage.length ≤
        (flatten (KdTree.node n l r).height here (.node n l r) s).storage.length := le_refl _
    obtain ⟨hwf, hlive⟩ := buildTree_spec params.nthElement hlen
    exact ⟨hwf, hlive.trans hstorage⟩

theorem finish_spec (params : Params P) (hn : Settled n l r) (hl : WellFormed l)
    (hr : WellFormed r) (allow : Bool) (here : Path) (s : Shared P) :
    WellFormed (finish params allow here n l r s).1 ∧
      (finish params allow here n l r s).1.live = n.own + l.live + r.live := by
  have hwf := (wellFormed_update hn hl hr).idle
  have hlive : (KdTree.node (n.update l r).idle l r).live =
      n.own + l.live + r.live := live_update n l r
  unfold finish
  dsimp only
  split_ifs
  · obtain ⟨hwf', hlive'⟩ := rebuild_spec params hwf here
      (s.resize params here (n.update l r).idle.treeSize)
    exact ⟨hwf', hlive'.trans hlive⟩
  · exact ⟨hwf, hlive⟩

/-- After `Push_Down` and an operation on one of the sons a node is ready for `Update`. -/
theorem settled_afterPush {l' r' : KdTree P} (h : NodeOk n l r)
    (hl : n.pushLeft l = .nullptr → l'.Fresh) (hr : n.pushRight r = .nullptr → r'.Fresh) :
    Settled (n.afterPush l r) l' r' where
  point_of_down := h.point_of_down
  left hneed := Or.inl (hl (fresh_of_afterPush_left hneed).2)
  right hneed := Or.inl (hr (fresh_of_afterPush_right hneed).2)

/-- The points of a node that was passed, and of its sons. -/
theorem live_pushed (h : WellFormed (.node n l r)) :
    n.own + (n.pushLeft l).live + (n.pushRight r).live = (KdTree.node n l r).live := by
  have hl := h.pushLeft
  have hr := h.pushRight
  cases htree : n.treeDeleted with
  | true =>
    rw [live_of_treeDeleted (hl.treeDeleted htree), live_of_treeDeleted (hr.treeDeleted htree),
      live_of_treeDeleted (t := .node n l r) htree]
    simp [KdTreeNode.own, h.1.point_of_tree htree]
  | false => rw [hl.live htree, hr.live htree, live_of_alive htree]

/-! ### Adding and deleting -/

/-- `Add_by_point` adds the point. -/
theorem addByPoint_spec (params : Params P) (point : P) (hdepth : t.height ≤ depth)
    (h : WellFormed t) (allow : Bool) (axis : Fin 3) (here : Path) (s : Shared P) :
    WellFormed (addByPoint params point depth allow axis here t s).1 ∧
      (addByPoint params point depth allow axis here t s).1.live = point ::ₘ t.live ∧
      (t = .nullptr → (addByPoint params point depth allow axis here t s).1.Fresh) := by
  induction depth generalizing t allow axis here s with
  | zero =>
    cases t with
    | nullptr =>
      obtain ⟨hwf, hlive⟩ := fresh_spec (l := .nullptr) (r := .nullptr) point (axis + 1) trivial trivial
      exact ⟨hwf, hlive, fun _ => ⟨rfl, rfl, rfl, rfl, rfl, rfl, rfl, rfl, rfl⟩⟩
    | node n l r => simp [KdTree.height] at hdepth
  | succ depth ih =>
    cases t with
    | nullptr =>
      obtain ⟨hwf, hlive⟩ := fresh_spec (l := .nullptr) (r := .nullptr) point (axis + 1) trivial trivial
      exact ⟨hwf, hlive, fun _ => ⟨rfl, rfl, rfl, rfl, rfl, rfl, rfl, rfl, rfl⟩⟩
    | node n l r =>
      have hl := h.pushLeft.wellFormed
      have hr := h.pushRight.wellFormed
      unfold addByPoint
      dsimp only
      split_ifs with hside
      · obtain ⟨hwf, hlive, hfresh⟩ := ih (height_left_le hdepth) hl
          ((s.pushDown here n l r).allows (here ++ [.left]) allow) n.divisionAxis (here ++ [.left])
          (s.pushDown here n l r)
        obtain ⟨hwf', hlive'⟩ := finish_spec params
          (settled_afterPush h.1 hfresh (fresh_of_null id)) hwf hr allow here _
        refine ⟨hwf', hlive'.trans ?_, by rintro ⟨⟩⟩
        rw [hlive, ← live_pushed h, own_afterPush, Multiset.add_cons, Multiset.cons_add]
      · obtain ⟨hwf, hlive, hfresh⟩ := ih (height_right_le hdepth) hr
          ((s.pushDown here n l r).allows (here ++ [.right]) allow) n.divisionAxis (here ++ [.right])
          (s.pushDown here n l r)
        obtain ⟨hwf', hlive'⟩ := finish_spec params
          (settled_afterPush h.1 (fresh_of_null id) hfresh) hl hwf allow here _
        refine ⟨hwf', hlive'.trans ?_, by rintro ⟨⟩⟩
        rw [hlive, ← live_pushed h, own_afterPush, Multiset.add_cons]

/-- The point of a node is deleted. -/
theorem wellFormed_deletePoint (h : WellFormed (.node n l r)) (hpoint : n.pointDeleted = false) :
    WellFormed (.node n.deletePoint l r) ∧
      (KdTree.node n l r).live = n.point ::ₘ (KdTree.node n.deletePoint l r).live := by
  obtain ⟨hn, hl, hr⟩ := h
  have htree : n.treeDeleted = false := by
    by_contra hne
    rw [hn.point_of_tree (eq_true_of_ne_false hne)] at hpoint
    cases hpoint
  have hbefore : (KdTree.node n l r).live = n.point ::ₘ (l.live + r.live) := by
    rw [live_of_alive htree, Multiset.add_assoc]
    simp [KdTreeNode.own, hpoint]
  have hcount := hn.count
  rw [hbefore, Multiset.card_cons] at hcount
  have hafter : (KdTree.node n.deletePoint l r).live = l.live + r.live := by
    rw [live_node]
    by_cases hall : n.invalidPointNum + 1 = n.treeSize
    · have hnone : l.live + r.live = 0 := Multiset.card_eq_zero.mp (by omega)
      simp [KdTreeNode.deletePoint, hall, hnone]
    · simp [KdTreeNode.deletePoint, hall, KdTreeNode.own]
  refine ⟨⟨?_, hl, hr⟩, by rw [hafter, hbefore]⟩
  constructor
  · intro _
    rfl
  · intro hdown
    rw [hn.tree_of_down hdown] at htree
    cases htree
  · intro _
    rfl
  · intro hall
    have hall : n.invalidPointNum + 1 = n.treeSize := by simpa [KdTreeNode.deletePoint] using hall
    rw [Multiset.card_add] at hcount
    exact Or.inr ⟨hl.treeDeleted_of_live (Multiset.card_eq_zero.mp (by omega)),
      hr.treeDeleted_of_live (Multiset.card_eq_zero.mp (by omega))⟩
  · intro _
    exact hn.stale_left htree
  · intro _
    exact hn.stale_right htree
  · intro hall
    have hall : n.invalidPointNum + 1 ≠ n.treeSize := by simpa [KdTreeNode.deletePoint] using hall
    rw [hafter]
    omega
  · rw [hafter]
    show n.invalidPointNum + 1 + _ = n.treeSize
    omega
  · exact hn.size
  · intro p hp
    rw [hafter] at hp
    refine hn.range p ?_
    rw [hbefore]
    exact Multiset.mem_cons_of_mem hp

/-- All points of a tree are deleted. -/
theorem wellFormed_deleteTree (h : WellFormed (.node n l r)) (isDownsample : Bool) :
    WellFormed (.node (n.deleteTree isDownsample) l r) ∧
      (KdTree.node (n.deleteTree isDownsample) l r).live = 0 := by
  obtain ⟨hn, hl, hr⟩ := h
  have hlive : (KdTree.node (n.deleteTree isDownsample) l r).live = 0 :=
    live_of_treeDeleted (t := .node (n.deleteTree isDownsample) l r) rfl
  refine ⟨⟨?_, hl, hr⟩, hlive⟩
  constructor
  · intro _
    rfl
  · intro _
    rfl
  · intro _
    rfl
  · intro _
    exact Or.inl ⟨rfl, rfl⟩
  · exact nofun
  · exact nofun
  · exact nofun
  · rw [hlive]
    rfl
  · exact hn.size
  · rw [hlive]
    simp

/-- The points are those before, apart from one near `point` at most. -/
def ErasesAtMostOne (point : P) (before after : Multiset P) : Prop :=
  after = before ∨ ∃ q, samePoint q point = true ∧ before = q ::ₘ after

/-- `Delete_by_point` deletes one point at most, and one that is the same. -/
theorem deleteByPoint_spec (params : Params P) (point : P) (hdepth : t.height ≤ depth)
    (h : WellFormed t) (allow : Bool) (here : Path) (s : Shared P) :
    WellFormed (deleteByPoint params point depth allow here t s).1 ∧
      ErasesAtMostOne point t.live (deleteByPoint params point depth allow here t s).1.live ∧
      (t = .nullptr → (deleteByPoint params point depth allow here t s).1 = .nullptr) := by
  induction depth generalizing t allow here s with
  | zero =>
    cases t with
    | nullptr => exact ⟨trivial, Or.inl rfl, fun _ => rfl⟩
    | node n l r => simp [KdTree.height] at hdepth
  | succ depth ih =>
    cases t with
    | nullptr => exact ⟨trivial, Or.inl rfl, fun _ => rfl⟩
    | node n l r =>
      have hl := h.pushLeft.wellFormed
      have hr := h.pushRight.wellFormed
      unfold deleteByPoint
      dsimp only
      split_ifs with htree hfound hside
      · exact ⟨h, Or.inl rfl, by rintro ⟨⟩⟩
      · -- the point stands at this node
        have hfound : samePoint n.point point = true ∧ n.pointDeleted = false := by
          simpa using hfound
        obtain ⟨hwf, hlive⟩ :=
          wellFormed_deletePoint ((kept_push h).wellFormed.working) hfound.2
        exact ⟨hwf, Or.inr ⟨n.point, hfound.1, h.push.2.symm.trans hlive⟩, by rintro ⟨⟩⟩
      · obtain ⟨hwf, herase, hnull⟩ := ih (height_left_le hdepth) hl
          ((s.pushDown here n l r).allows (here ++ [.left]) allow) (here ++ [.left])
          (s.pushDown here n l r)
        obtain ⟨hwf', hlive'⟩ := finish_spec params
          (settled_afterPush h.1 (fresh_of_null hnull) (fresh_of_null id)) hwf hr allow here _
        refine ⟨hwf', ?_, by rintro ⟨⟩⟩
        rw [hlive', ← live_pushed h, own_afterPush]
        rcases herase with heq | ⟨q, hq, heq⟩
        · exact Or.inl (by rw [heq])
        · exact Or.inr ⟨q, hq, by rw [heq, Multiset.add_cons, Multiset.cons_add]⟩
      · obtain ⟨hwf, herase, hnull⟩ := ih (height_right_le hdepth) hr
          ((s.pushDown here n l r).allows (here ++ [.right]) allow) (here ++ [.right])
          (s.pushDown here n l r)
        obtain ⟨hwf', hlive'⟩ := finish_spec params
          (settled_afterPush h.1 (fresh_of_null id) (fresh_of_null hnull)) hl hwf allow here _
        refine ⟨hwf', ?_, by rintro ⟨⟩⟩
        rw [hlive', ← live_pushed h, own_afterPush]
        rcases herase with heq | ⟨q, hq, heq⟩
        · exact Or.inl (by rw [heq])
        · exact Or.inr ⟨q, hq, by rw [heq, Multiset.add_cons]⟩

theorem NodeRange.Contains.not_misses {range : NodeRange} {box : BoxPointType} {p : P}
    (h : range.Contains p) (hp : box.contains p = true) : box.misses range = false := by
  have hp : ∀ i, box.vertexMin i ≤ xyz p i ∧ xyz p i < box.vertexMax i := of_decide_eq_true hp
  refine decide_eq_false ?_
  rintro ⟨i, hi | hi⟩
  · exact absurd ((hp i).2.trans_le hi) (not_lt.mpr (h i).1)
  · exact absurd ((hp i).1.trans (h i).2) (not_le.mpr hi)

theorem NodeRange.Contains.of_covers {range : NodeRange} {box : BoxPointType} {p : P}
    (h : range.Contains p) (hbox : box.covers range = true) : box.contains p = true := by
  have hbox : ∀ i, box.vertexMin i ≤ range.min i ∧ range.max i < box.vertexMax i :=
    of_decide_eq_true hbox
  exact decide_eq_true fun i => ⟨(hbox i).1.trans (h i).1, (h i).2.trans_lt (hbox i).2⟩

/-- The points outside the box. -/
def outside (box : BoxPointType) (points : Multiset P) : Multiset P :=
  points.filter fun p => box.contains p = false

theorem outside_add (box : BoxPointType) (a b : Multiset P) :
    outside box (a + b) = outside box a + outside box b := Multiset.filter_add _ _ _

/-- The point of a node, if it is not deleted by the box. -/
theorem own_deleteHit (n : KdTreeNode P) (box : BoxPointType) (isDownsample : Bool) :
    (n.deleteHit box isDownsample).own = outside box n.own ∧
      (if n.hit box then 1 else 0) + (outside box n.own).card = n.own.card := by
  unfold KdTreeNode.own KdTreeNode.deleteHit KdTreeNode.hit outside
  cases hpoint : n.pointDeleted <;> cases hbox : box.contains n.point <;>
    simp [Multiset.filter_singleton, hbox]

theorem settled_deleteHit {l' r' : KdTree P} (h : NodeOk n l r) (box : BoxPointType)
    (isDownsample : Bool) (hl : n.pushLeft l = .nullptr → l' = .nullptr)
    (hr : n.pushRight r = .nullptr → r' = .nullptr) :
    Settled ((n.afterPush l r).working.deleteHit box isDownsample) l' r' := by
  refine ⟨fun hdown => ?_, fun hneed => ?_, fun hneed => ?_⟩
  · have hdown : (n.pointDownsampleDeleted || (n.hit box && isDownsample)) = true := hdown
    show (n.pointDeleted || n.hit box) = true
    rw [Bool.or_eq_true, Bool.and_eq_true] at hdown
    rw [Bool.or_eq_true]
    exact hdown.imp h.point_of_down And.left
  · exact Or.inl (fresh_of_null hl (fresh_of_afterPush_left (r := r) hneed).2)
  · exact Or.inl (fresh_of_null hr (fresh_of_afterPush_right (l := l) hneed).2)

/-- What is done at a node whose range the box meets and does not cover. -/
theorem deleteByRange_node (params : Params P) {box : BoxPointType} (isDownsample : Bool)
    (htree : n.treeDeleted = false) (hmisses : box.misses n.nodeRange = false)
    (hcovers : box.covers n.nodeRange = false) (depth : ℕ) (allow : Bool) (here : Path)
    (s : Shared P) :
    ∃ a₁ s₁ a₂ s₂ s₃, ∀ left right,
      left = deleteByRange params box isDownsample depth a₁ (here ++ [.left]) (n.pushLeft l) s₁ →
      right = deleteByRange params box isDownsample depth a₂ (here ++ [.right]) (n.pushRight r) s₂ →
      deleteByRange params box isDownsample (depth + 1) allow here (.node n l r) s =
        ⟨(finish params allow here ((n.afterPush l r).working.deleteHit box
            isDownsample) left.tree right.tree s₃).1,
          (if n.hit box then 1 else 0) + left.count + right.count,
          (finish params allow here ((n.afterPush l r).working.deleteHit box
            isDownsample) left.tree right.tree s₃).2⟩ := by
  let op : Operation P := if isDownsample then .downsampleDelete box else .deleteBox box
  let s₁ := s.pushDown here n l r
  let left := deleteByRange params box isDownsample depth (s₁.allows (here ++ [.left]) allow)
    (here ++ [.left]) (n.pushLeft l) s₁
  let s₂ := left.shared.logAt (here ++ [.left]) s₁ op
  let right := deleteByRange params box isDownsample depth (s₂.allows (here ++ [.right]) allow)
    (here ++ [.right]) (n.pushRight r) s₂
  refine ⟨s₁.allows (here ++ [.left]) allow, s₁, s₂.allows (here ++ [.right]) allow, s₂,
    right.shared.logAt (here ++ [.right]) s₂ op, ?_⟩
  rintro _ _ rfl rfl
  rw [deleteByRange]
  simp only [htree, hmisses, hcovers, Bool.false_eq_true, if_false]
  rfl

/-- `Delete_by_range` deletes the points in the box and counts them. -/
theorem deleteByRange_spec (params : Params P) (box : BoxPointType) (isDownsample : Bool)
    (hdepth : t.height ≤ depth) (h : WellFormed t) (allow : Bool) (here : Path) (s : Shared P) :
    WellFormed (deleteByRange params box isDownsample depth allow here t s).tree ∧
      (deleteByRange params box isDownsample depth allow here t s).tree.live = outside box t.live ∧
      (deleteByRange params box isDownsample depth allow here t s).count +
        (outside box t.live).card = t.live.card ∧
      (t = .nullptr →
        (deleteByRange params box isDownsample depth allow here t s).tree = .nullptr) := by
  induction depth generalizing t allow here s with
  | zero =>
    cases t with
    | nullptr => exact ⟨trivial, rfl, rfl, fun _ => rfl⟩
    | node n l r => simp [KdTree.height] at hdepth
  | succ depth ih =>
    cases t with
    | nullptr => exact ⟨trivial, rfl, rfl, fun _ => rfl⟩
    | node n l r =>
      have hpushed := (kept_push h).wellFormed.working
      cases htree : n.treeDeleted with
      | true =>
        unfold deleteByRange
        rw [if_pos htree]
        refine ⟨h, ?_, ?_, by rintro ⟨⟩⟩ <;> rw [live_of_treeDeleted (t := .node n l r) htree] <;> rfl
      | false =>
        cases hmisses : box.misses n.nodeRange with
        | true =>
          have hall : outside box (KdTree.node n l r).live = (KdTree.node n l r).live := by
            refine Multiset.filter_eq_self.mpr fun p hp => eq_false_of_ne_true fun hin => ?_
            rw [(h.1.range p hp).not_misses hin] at hmisses
            cases hmisses
          unfold deleteByRange
          simp only [htree, hmisses, Bool.false_eq_true, if_false, if_true]
          rw [hall]
          exact ⟨hpushed, h.push.2, Nat.zero_add _, by rintro ⟨⟩⟩
        | false =>
          cases hcovers : box.covers n.nodeRange with
          | true =>
            have hnone : outside box (KdTree.node n l r).live = 0 := by
              refine Multiset.filter_eq_nil.mpr fun p hp hout => ?_
              rw [(h.1.range p hp).of_covers hcovers] at hout
              cases hout
            obtain ⟨hwf, hlive⟩ := wellFormed_deleteTree hpushed isDownsample
            have hcount := h.1.count
            unfold deleteByRange
            simp only [htree, hmisses, hcovers, Bool.false_eq_true, if_false, if_true]
            rw [hnone]
            refine ⟨hwf, hlive, ?_, by rintro ⟨⟩⟩
            rw [Multiset.card_zero]
            omega
          | false =>
            obtain ⟨a₁, s₁, a₂, s₂, s₃, hnode⟩ := deleteByRange_node (l := l) (r := r) params
              isDownsample htree hmisses hcovers depth allow here s
            obtain ⟨hl, hleft, hcl, hnl⟩ := ih (height_left_le hdepth) h.pushLeft.wellFormed a₁
              (here ++ [.left]) s₁
            obtain ⟨hr, hright, hcr, hnr⟩ := ih (height_right_le hdepth) h.pushRight.wellFormed a₂
              (here ++ [.right]) s₂
            rw [hnode _ _ rfl rfl]
            obtain ⟨hwf, hlive⟩ := finish_spec params (settled_deleteHit h.1 box
              isDownsample hnl hnr) hl hr allow here s₃
            obtain ⟨hown, hcount⟩ := own_deleteHit n box isDownsample
            refine ⟨hwf, hlive.trans ?_, ?_, by rintro ⟨⟩⟩
            · rw [hleft, hright, ← live_pushed h, outside_add, outside_add, ← hown]
              rfl
            · rw [← live_pushed h, outside_add, outside_add]
              simp only [Multiset.card_add]
              omega

/-- The points in the box. -/
def inside (box : BoxPointType) (points : Multiset P) : Multiset P :=
  points.filter fun p => box.contains p = true

theorem inside_add (box : BoxPointType) (a b : Multiset P) :
    inside box (a + b) = inside box a + inside box b := Multiset.filter_add _ _ _

theorem own_inside (n : KdTreeNode P) (box : BoxPointType) :
    ((if box.contains n.point && !n.pointDeleted then [n.point] else [] : List P) : Multiset P) =
      inside box n.own := by
  unfold KdTreeNode.own inside
  cases hpoint : n.pointDeleted <;> cases hbox : box.contains n.point <;>
    simp [Multiset.filter_singleton, hbox]

/-- `Search_by_range` finds the points in the box. -/
theorem searchByRange_spec (box : BoxPointType) (hdepth : t.height ≤ depth) (h : WellFormed t)
    (here : Path) (s : Shared P) :
    ((searchByRange box depth here t s).1 : Multiset P) = inside box t.live := by
  induction depth generalizing t here s with
  | zero =>
    cases t with
    | nullptr => rfl
    | node n l r => simp [KdTree.height] at hdepth
  | succ depth ih =>
    cases t with
    | nullptr => rfl
    | node n l r =>
      have hpush := kept_push h
      unfold searchByRange
      dsimp only
      by_cases hmisses : box.misses n.nodeRange = true
      · rw [if_pos hmisses]
        refine Eq.symm (Multiset.filter_eq_nil.mpr fun p hp hin => ?_)
        rw [(h.1.range p hp).not_misses hin] at hmisses
        cases hmisses
      rw [if_neg hmisses]
      by_cases hcovers : box.covers n.nodeRange = true
      · rw [if_pos hcovers]
        have hstorage := flatten_spec (hpush.height.trans_le hdepth) hpush.wellFormed here
          (s.pushDown here n l r)
        show (_ : Multiset P) = _
        rw [hstorage, hpush.live]
        exact Eq.symm (Multiset.filter_eq_self.mpr fun p hp => (h.1.range p hp).of_covers hcovers)
      · rw [if_neg hcovers]
        have hleft := ih (height_left_le hdepth) h.pushLeft.wellFormed (here ++ [.left])
          (s.pushDown here n l r)
        have hright := ih (height_right_le hdepth) h.pushRight.wellFormed (here ++ [.right])
          (searchByRange box depth (here ++ [.left]) (n.pushLeft l) (s.pushDown here n l r)).2.2
        show (_ : Multiset P) = _
        rw [← Multiset.coe_add, ← Multiset.coe_add, hleft, hright, own_inside, ← inside_add,
          ← inside_add, live_pushed h]

end RoverSwarm.IkdTree
