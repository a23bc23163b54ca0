import Mathlib.Tactic.Linarith
import RoverSwarm.IkdTree.Contents

/-!
# IkdTree.Search — the nearest points

The search goes down the tree with a heap of the `kNearest` points found so far and leaves out a
subtree whose range is not closer than the top of the heap.  The order of the heap has a tolerance,
so it need not tell the distances of two points apart that are closer to each other than that; it
does respect every grading of the distances that does not either.
-/

namespace RoverSwarm.IkdTree

open KdTree

variable {P : Type} {n : KdTreeNode P} {l r t : KdTree P} {depth : ℕ}

/-! ### The distance to a range -/

section Points

variable [PointType P]

/-- The range of a node is no farther away along an axis than what lies in it. -/
theorem axisDist_le {lo hi x y acc acc' : ℚ} (hlo : lo ≤ y) (hhi : y ≤ hi) (hacc : acc ≤ acc')
    (hround : fl P acc' = acc') : axisDist P lo hi x acc ≤ (fl P).addSq acc' x y := by
  unfold axisDist
  dsimp only
  by_cases hbelow : x < lo
  · rw [if_pos hbelow, if_neg (not_lt.mpr (hbelow.le.trans (hlo.trans hhi)))]
    exact (fl P).addSq_mono hacc ((fl P).sqDiff_le_of_le hbelow.le hlo)
  · rw [if_neg hbelow]
    by_cases habove : hi < x
    · rw [if_pos habove]
      exact (fl P).addSq_mono hacc ((fl P).sqDiff_le_of_ge habove.le hhi)
    · rw [if_neg habove]
      exact hacc.trans ((fl P).le_addSq hround x y)

/-- No point of a tree is closer than its range. -/
theorem WellFormed.calcBoxDist_le (h : WellFormed t) {p : P} (hp : p ∈ t.live) (q : Fin 3 → ℚ) :
    calcBoxDist t q ≤ (calcDist P q (xyz p) : WithTop ℚ) := by
  cases t with
  | nullptr => simp at hp
  | node n l r =>
    have hrange := h.1.range p hp
    refine WithTop.coe_le_coe.mpr ?_
    have hx : axisDist P (n.nodeRange.min 0) (n.nodeRange.max 0) (q 0) 0 ≤
        (fl P).sqDiff (q 0) (xyz p 0) := by
      rw [← (fl P).addSq_zero]
      exact axisDist_le (hrange 0).1 (hrange 0).2 le_rfl (fl P).round_zero
    have hy := axisDist_le (x := q 1) (hrange 1).1 (hrange 1).2 hx ((fl P).round_round _)
    exact axisDist_le (hrange 2).1 (hrange 2).2 hy ((fl P).round_addSq _ _ _)

/-! ### The points that are looked for -/

/-- A point with its distance. -/
def PointCmp.of (q : Fin 3 → ℚ) (p : P) : PointCmp P := ⟨p, calcDist P q (xyz p)⟩

/-- The points that are not too far away, with their distances. -/
def candidates (maxDistSqr : WithTop ℚ) (q : Fin 3 → ℚ) (points : Multiset P) :
    Multiset (PointCmp P) :=
  (points.filter fun p => (calcDist P q (xyz p) : WithTop ℚ) ≤ maxDistSqr).map (PointCmp.of q)

section Candidates

variable {maxDistSqr : WithTop ℚ} {q : Fin 3 → ℚ}

@[simp] theorem candidates_zero : candidates maxDistSqr q (0 : Multiset P) = 0 := rfl

theorem candidates_add (a b : Multiset P) :
    candidates maxDistSqr q (a + b) = candidates maxDistSqr q a + candidates maxDistSqr q b := by
  simp [candidates, Multiset.filter_add]

theorem candidates_near {p : P} (h : (calcDist P q (xyz p) : WithTop ℚ) ≤ maxDistSqr) :
    candidates maxDistSqr q {p} = {PointCmp.of q p} := by
  simp [candidates, Multiset.filter_singleton, h]

theorem candidates_far {p : P} (h : ¬(calcDist P q (xyz p) : WithTop ℚ) ≤ maxDistSqr) :
    candidates maxDistSqr q {p} = 0 := by
  simp [candidates, Multiset.filter_singleton, h]

/-- A candidate is no closer than the range of the tree that holds it. -/
theorem WellFormed.boxDist_le (h : WellFormed t) {c : PointCmp P}
    (hc : c ∈ candidates maxDistSqr q t.live) :
    calcBoxDist t q ≤ (c.dist : WithTop ℚ) ∧ (c.dist : WithTop ℚ) ≤ maxDistSqr := by
  obtain ⟨p, hp, rfl⟩ := Multiset.mem_map.mp hc
  obtain ⟨hlive, hnear⟩ := Multiset.mem_filter.mp hp
  exact ⟨h.calcBoxDist_le hlive q, hnear⟩

end Candidates

end Points

/-! ### The heap -/

variable {κ : Type} [LinearOrder κ]

/-- A grading of distances that has the same grade for two of the entries in `s` if the order of the
heap does not tell their distances apart. -/
structure Grading [PointType P] (g : ℚ → κ) (s : Set (PointCmp P)) : Prop where
  mono : Monotone g
  clean : ∀ a ∈ s, ∀ b ∈ s, |fl P (a.dist - b.dist)| < distTolerance → g a.dist = g b.dist

/-- The heap holds the best of the entries seen so far. -/
structure Best (g : ℚ → κ) (s : Set (PointCmp P)) (kNearest : ℕ) (seen : Multiset (PointCmp P))
    (heap : List (PointCmp P)) : Prop where
  ordered : MaxHeap.Ordered (fun c => g c.dist) heap
  keeps : MaxHeap.Keeps (fun c => g c.dist) kNearest seen heap
  subset : ∀ c ∈ seen, c ∈ s

section Heap

variable {g : ℚ → κ} {s : Set (PointCmp P)} {kNearest : ℕ} {seen more : Multiset (PointCmp P)}
  {heap : List (PointCmp P)} {maxDistSqr : WithTop ℚ} {q : Fin 3 → ℚ}

theorem Best.mem (h : Best g s kNearest seen heap) : ∀ c ∈ heap, c ∈ s :=
  fun c hc => h.subset c (h.keeps.mem hc)

/-- Entries that are no closer than the top of a full heap may be left out. -/
theorem Best.skip (h : Best g s kNearest seen heap) (hmono : Monotone g) (hpos : 0 < kNearest)
    (hfull : ¬heap.length < kNearest) (hmore : ∀ c ∈ more, c ∈ s)
    (hfar : ∀ c ∈ more, topDist heap ≤ c.dist) : Best g s kNearest (seen + more) heap := by
  have hlen : heap.length = kNearest := le_antisymm h.keeps.le (not_lt.mp hfull)
  refine ⟨h.ordered, h.keeps.skip hlen ?_, ?_⟩
  · intro a ha b hb
    obtain ⟨i, hi⟩ := List.mem_iff_getElem?.mp ha
    have htop : heap[0]? = some heap[0] := List.getElem?_eq_getElem (by omega)
    have hdist : topDist heap = heap[0].dist := by
      unfold topDist
      rw [htop]
    exact (h.ordered.le_head htop i a hi).trans (hmono (hdist ▸ hfar b hb))
  · intro c hc
    exact (Multiset.mem_add.mp hc).elim (h.subset c) (hmore c)

/-- Once the heap is full it stays so. -/
theorem Best.full {heap' : List (PointCmp P)} (h : Best g s kNearest seen heap)
    (hfull : ¬heap.length < kNearest) (h' : Best g s kNearest (seen + more) heap') :
    ¬heap'.length < kNearest := by
  have hlen := h.keeps.length_eq
  have hlen' := h'.keeps.length_eq
  rw [Multiset.card_add] at hlen'
  omega

variable [PointType P]

theorem Grading.respects (h : Grading g s) :
    MaxHeap.Respects PointCmp.lt (fun c => g c.dist) s := by
  constructor
  · intro a ha b hb hlt
    unfold PointCmp.lt at hlt
    split_ifs at hlt with hclose
    · exact (h.clean a ha b hb hclose).le
    · exact h.mono (of_decide_eq_true hlt).le
  · intro a ha b hb hlt
    unfold PointCmp.lt at hlt
    split_ifs at hlt with hclose
    · exact (h.clean a ha b hb hclose).ge
    · exact h.mono (not_lt.mp (of_decide_eq_false hlt))

/-- Offering a point to the heap. -/
theorem Best.offer (h : Best g s kNearest seen heap) (hg : Grading g s) (hpos : 0 < kNearest) (p : P)
    (hp : ∀ c ∈ candidates maxDistSqr q {p}, c ∈ s) :
    Best g s kNearest (seen + candidates maxDistSqr q {p}) (offer kNearest maxDistSqr q p heap) := by
  unfold IkdTree.offer
  by_cases hnear : (calcDist P q (xyz p) : WithTop ℚ) ≤ maxDistSqr
  · rw [candidates_near hnear] at hp ⊢
    have hmem : PointCmp.of q p ∈ s := hp _ (Multiset.mem_singleton_self _)
    have hsub : ∀ c ∈ PointCmp.of q p ::ₘ seen, c ∈ s := by
      intro c hc
      rcases Multiset.mem_cons.mp hc with rfl | hc
      · exact hmem
      · exact h.subset c hc
    dsimp only
    by_cases hroom : heap.length < kNearest
    · rw [if_pos ⟨hnear, Or.inl hroom⟩, if_neg (not_le.mpr hroom), if_neg (by omega), add_comm,
        Multiset.singleton_add]
      exact ⟨MaxHeap.push_ordered hg.respects h.mem h.ordered hmem,
        h.keeps.push hroom (MaxHeap.push_perm _ _), hsub⟩
    · by_cases hcloser : calcDist P q (xyz p) < topDist heap
      · -- the farthest of the points makes room for this one
        rw [if_pos ⟨hnear, Or.inr hcloser⟩, if_pos (not_lt.mp hroom), add_comm,
          Multiset.singleton_add]
        cases heap with
        | nil => exact absurd hpos (by simpa using hroom)
        | cons top rest =>
          have hlen : (top :: rest).length = kNearest := le_antisymm h.keeps.le (not_lt.mp hroom)
          have hpop : (top :: MaxHeap.pop PointCmp.lt (top :: rest)).Perm (top :: rest) :=
            MaxHeap.pop_perm
          have hpopped : (MaxHeap.pop PointCmp.lt (top :: rest)).Perm rest := hpop.cons_inv
          have hlenp := hpopped.length_eq
          rw [List.length_cons] at hlen
          rw [if_neg (by omega)]
          refine ⟨MaxHeap.push_ordered hg.respects ?_ (MaxHeap.pop_ordered hg.respects h.mem h.ordered)
            hmem, h.keeps.replace hlen ?_ (hg.mono hcloser.le)
            ((MaxHeap.push_perm _ _).trans (hpopped.cons _)), hsub⟩
          · intro c hc
            exact h.mem c (List.mem_cons_of_mem top (hpopped.mem_iff.mp hc))
          · intro c hc
            obtain ⟨i, hi⟩ := List.mem_iff_getElem?.mp (List.mem_cons_of_mem top hc)
            exact h.ordered.le_head (a := top) rfl i c hi
      · rw [if_neg (fun hand => hand.2.elim hroom hcloser)]
        refine h.skip hg.mono hpos hroom hp ?_
        intro c hc
        obtain rfl := Multiset.mem_singleton.mp hc
        exact not_lt.mp hcloser
  · rw [candidates_far hnear, add_zero, if_neg (fun hand => hnear hand.1)]
    exact h

/-- A tree that is not closer than the top of a full heap may be left out. -/
theorem Best.skipTree (h : Best g s kNearest seen heap) (hg : Grading g s) (hpos : 0 < kNearest)
    (hfull : ¬heap.length < kNearest) (hwf : WellFormed t)
    (hsub : ∀ c ∈ candidates maxDistSqr q t.live, c ∈ s)
    (hclose : ¬calcBoxDist t q < (topDist heap : WithTop ℚ)) :
    Best g s kNearest (seen + candidates maxDistSqr q t.live) heap :=
  h.skip hg.mono hpos hfull hsub fun _ hc =>
    WithTop.coe_le_coe.mp ((not_lt.mp hclose).trans (hwf.boxDist_le hc).1)

/-- Going on to a son: the candidates in it have been seen. -/
def Visits (g : ℚ → κ) (s : Set (PointCmp P)) (kNearest : ℕ) (more : Multiset (PointCmp P))
    (visit : List (PointCmp P) → Shared P → Searched P) : Prop :=
  ∀ seen heap shared, Best g s kNearest seen heap →
    Best g s kNearest (seen + more) (visit heap shared).heap

theorem searchSons_spec (hg : Grading g s) (hpos : 0 < kNearest) (hl : WellFormed l)
    (hr : WellFormed r) (hsubl : ∀ c ∈ candidates maxDistSqr q l.live, c ∈ s)
    (hsubr : ∀ c ∈ candidates maxDistSqr q r.live, c ∈ s)
    {left right : List (PointCmp P) → Shared P → Searched P}
    (hleft : Visits g s kNearest (candidates maxDistSqr q l.live) left)
    (hright : Visits g s kNearest (candidates maxDistSqr q r.live) right)
    (h : Best g s kNearest seen heap) (shared : Shared P) :
    Best g s kNearest (seen + candidates maxDistSqr q l.live + candidates maxDistSqr q r.live)
      (searchSons kNearest q l r left right heap shared).heap := by
  unfold searchSons
  dsimp only
  by_cases hboth : heap.length < kNearest ∨
      (calcBoxDist l q < (topDist heap : WithTop ℚ) ∧ calcBoxDist r q < (topDist heap : WithTop ℚ))
  · rw [if_pos hboth]
    by_cases horder : calcBoxDist l q ≤ calcBoxDist r q
    · rw [if_pos horder]
      have ha := hleft seen heap shared h
      split_ifs with hgo
      · exact hright _ _ (left heap shared).shared ha
      · rw [not_or] at hgo
        exact ha.skipTree hg hpos hgo.1 hr hsubr hgo.2
    · rw [if_neg horder]
      have hb := hright seen heap shared h
      rw [add_right_comm]
      split_ifs with hgo
      · exact hleft _ _ (right heap shared).shared hb
      · rw [not_or] at hgo
        exact hb.skipTree hg hpos hgo.1 hl hsubl hgo.2
  · -- the heap is full
    rw [if_neg hboth]
    rw [not_or] at hboth
    have ha : Best g s kNearest (seen + candidates maxDistSqr q l.live)
        (if calcBoxDist l q < (topDist heap : WithTop ℚ) then left heap shared
          else ⟨heap, l, shared⟩ : Searched P).heap := by
      split_ifs with hgo
      · exact hleft seen heap shared h
      · exact h.skipTree hg hpos hboth.1 hl hsubl hgo
    generalize (if calcBoxDist l q < (topDist heap : WithTop ℚ) then left heap shared
            else ⟨heap, l, shared⟩ : Searched P) = a at ha ⊢
    have hfull := h.full hboth.1 ha
    split_ifs with hgo
    · exact hright _ _ a.shared ha
    · exact ha.skipTree hg hpos hfull hr hsubr hgo

/-- **`Search` sees every candidate of a tree**, though it does not go everywhere. -/
theorem search_spec (hg : Grading g s) (hpos : 0 < kNearest) (hdepth : t.height ≤ depth)
    (hwf : WellFormed t) (hsub : ∀ c ∈ candidates maxDistSqr q t.live, c ∈ s) (here : Path) :
    Visits g s kNearest (candidates maxDistSqr q t.live)
      (search kNearest maxDistSqr q depth here t) := by
  induction depth generalizing t here with
  | zero =>
    cases t with
    | nullptr =>
      intro seen heap shared h
      simpa [search] using h
    | node n l r => simp [KdTree.height] at hdepth
  | succ depth ih =>
    cases t with
    | nullptr =>
      intro seen heap shared h
      simpa [search] using h
    | node n l r =>
      intro seen heap shared h
      rw [search]
      by_cases hstop : (n.treeDeleted || decide (maxDistSqr < calcBoxDist (.node n l r) q)) = true
      · -- there is no candidate here
        have hnone : candidates maxDistSqr q (KdTree.node n l r).live = 0 := by
          refine Multiset.eq_zero_of_forall_notMem fun c hc => ?_
          rw [Bool.or_eq_true, decide_eq_true_eq] at hstop
          rcases hstop with htree | hfar
          · rw [live_of_treeDeleted (t := .node n l r) htree] at hc
            simp at hc
          · obtain ⟨hbox, hnear⟩ := hwf.boxDist_le hc
            exact absurd (hbox.trans hnear) (not_le.mpr hfar)
        rw [if_pos hstop, hnone, add_zero]
        exact h
      · rw [if_neg hstop]
        rw [← live_pushed hwf, candidates_add, candidates_add] at hsub ⊢
        have hown : Best g s kNearest (seen + candidates maxDistSqr q n.own)
            (if n.pointDeleted then heap else offer kNearest maxDistSqr q n.point heap) := by
          unfold KdTreeNode.own at hsub ⊢
          split_ifs at hsub ⊢ with hpoint
          · simpa using h
          · exact h.offer hg hpos n.point fun c hc => hsub c (by simp [hc])
        have hsubl : ∀ c ∈ candidates maxDistSqr q (n.pushLeft l).live, c ∈ s :=
          fun c hc => hsub c (by simp [hc])
        have hsubr : ∀ c ∈ candidates maxDistSqr q (n.pushRight r).live, c ∈ s :=
          fun c hc => hsub c (by simp [hc])
        have hbest := searchSons_spec hg hpos hwf.pushLeft.wellFormed
          hwf.pushRight.wellFormed hsubl hsubr
          (ih (height_left_le hdepth) hwf.pushLeft.wellFormed hsubl (here ++ [.left]))
          (ih (height_right_le hdepth) hwf.pushRight.wellFormed hsubr (here ++ [.right]))
          hown (shared.pushDown here n l r)
        rwa [← add_assoc, ← add_assoc]

theorem nearestSearch_handed (p : P) (kNearest : ℕ) (maxDist : WithTop ℚ) (t : KdTree P)
    (s : Shared P) :
    Handed [] t s (nearestSearch p kNearest maxDist t s).tree
      (nearestSearch p kNearest maxDist t s).shared :=
  search_handed _ _ _ _ _ _ _ _

/-- What the search finds, closest first. -/
theorem nearestSearch_spec (hwf : WellFormed t) (hpos : 0 < kNearest) (p : P) (maxDist : WithTop ℚ)
    (hmono : Monotone g) {es : List P}
    (hes : (es : Multiset P) =
      t.live.filter fun x => (calcDist P (xyz p) (xyz x) : WithTop ℚ) ≤ maxDist.map fun d => fl P (d * d))
    (hclean : ∀ a ∈ es, ∀ b ∈ es,
      |fl P (calcDist P (xyz p) (xyz a) - calcDist P (xyz p) (xyz b))| < distTolerance →
        g (calcDist P (xyz p) (xyz a)) = g (calcDist P (xyz p) (xyz b))) (shared : Shared P) :
    Ranking.IsBest (fun x => OrderDual.toDual (g (calcDist P (xyz p) (xyz x)))) kNearest es
        (nearestSearch p kNearest maxDist t shared).points ∧
      (nearestSearch p kNearest maxDist t shared).distances =
        (nearestSearch p kNearest maxDist t shared).points.map
          (fun x => calcDist P (xyz p) (xyz x)) := by
  have hcands : candidates (maxDist.map fun d => fl P (d * d)) (xyz p) t.live =
      ((es.map (PointCmp.of (xyz p)) : List (PointCmp P)) : Multiset (PointCmp P)) := by
    rw [candidates, ← hes, Multiset.map_coe]
  have hgrade : Grading g {c : PointCmp P | c ∈ es.map (PointCmp.of (xyz p))} := by
    refine ⟨hmono, fun a ha b hb hclose => ?_⟩
    obtain ⟨x, hx, rfl⟩ := List.mem_map.mp ha
    obtain ⟨y, hy, rfl⟩ := List.mem_map.mp hb
    exact hclean x hx y hy hclose
  have hbest := search_spec hgrade hpos (le_refl _) hwf
    (fun c hc => by rwa [hcands, Multiset.mem_coe] at hc) [] 0 [] shared
    ⟨MaxHeap.ordered_nil, MaxHeap.Keeps.nil _ _, by simp⟩
  unfold nearestSearch
  dsimp only
  generalize search kNearest (maxDist.map fun d => fl P (d * d)) (xyz p) t.height [] t [] shared = found
    at hbest
  rw [hcands, zero_add] at hbest
  rw [Nat.min_eq_right hbest.keeps.le]
  have hout : ([] : List (PointCmp P)).Pairwise fun a b => g a.dist ≤ g b.dist := List.Pairwise.nil
  obtain ⟨hperm, hsorted⟩ :=
    MaxHeap.drain_spec hgrade.respects rfl hbest.mem hbest.ordered hout (by simp)
  rw [List.append_nil] at hperm
  refine ⟨(hbest.keeps.isBest rfl hperm hsorted).of_map (fun _ => rfl), ?_⟩
  rw [List.map_map]
  refine List.map_congr_left fun c hc => ?_
  obtain ⟨x, -, rfl⟩ := List.mem_map.mp (hbest.mem c (hperm.mem_iff.mp hc))
  rfl

end Heap

end RoverSwarm.IkdTree
