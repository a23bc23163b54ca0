import Mathlib.Data.List.MinMax
import Mathlib.Data.List.Sublists
import RoverSwarm.Lib.ListGraph
import RoverSwarm.Lib.Search

/-!
# GraphAlgorithms — algorithms on graphs, and what they promise

`GraphAlgorithms` bundles the functions a graph library offers with their specifications, for a
development that calls the library without looking into it.  `GraphAlgorithms.exhaustive` meets the
specifications: breadth first search for the components, trying out all sets of edges and of nodes
for the matchings and the smallest covers, and the local-ratio algorithm for the covers that need
not be the smallest.
-/

/-- The two functions that start from the sides of the graph raise unless the graph is bipartite and
connected. -/
structure GraphAlgorithms (α : Type*) where
  connectedComponents : ListGraph α → List (Finset α)
  maximumMatching : ListGraph α → Option (List (α × α))
  toVertexCover : ListGraph α → List (α × α) → Option (Finset α)
  minWeightedVertexCover : ListGraph α → Finset α
  connectedComponents_spec : ∀ G : ListGraph α, G.IsComponents (connectedComponents G)
  maximumMatching_spec : ∀ G : ListGraph α, G.IsConnected → G.toSimple.IsBipartite →
    ∃ M, maximumMatching G = some M ∧ G.IsMaximumMatching M
  toVertexCover_spec : ∀ (G : ListGraph α) (M : List (α × α)), G.IsConnected →
    G.toSimple.IsBipartite → G.IsMaximumMatching M → ∃ k, toVertexCover G M = some k ∧ G.IsMinimumCover k
  minWeightedVertexCover_spec : ∀ G : ListGraph α,
    (∀ v ∈ minWeightedVertexCover G, v ∈ G.nodes) ∧ G.IsCover (minWeightedVertexCover G)

namespace ListGraph

variable {α : Type*} [DecidableEq α]

/-! ### Components -/

def neighbors (G : ListGraph α) (a : α) : List α :=
  G.nodes.filter fun b => a != b && G.edges.any fun e => e == (a, b) || e == (b, a)

theorem mem_neighbors {G : ListGraph α} {a b : α} : b ∈ G.neighbors a ↔ G.toSimple.Adj a b := by
  have hiff : (a != b && G.edges.any fun e => e == (a, b) || e == (b, a)) = true ↔
      G.toSimple.Adj a b := by
    rw [adj_iff, Bool.and_eq_true, bne_iff_ne, List.any_eq_true]
    refine and_congr_right fun _ => ?_
    constructor
    · rintro ⟨e, he, hends⟩
      rw [Bool.or_eq_true, beq_iff_eq, beq_iff_eq] at hends
      rcases hends with rfl | rfl
      · exact Or.inl he
      · exact Or.inr he
    · rintro (he | he)
      · exact ⟨_, he, by simp⟩
      · exact ⟨_, he, by simp⟩
  unfold neighbors
  rw [List.mem_filter, hiff]
  exact and_iff_right_of_imp fun h => (mem_nodes_of_adj h).2

/-- A search that starts at a node. -/
def searchFrom (v : α) : Search α where
  queue := [v]
  marked x := x = v
  found x := x = v

/-- The nodes a breadth first search finds. -/
def component (G : ListGraph α) (v : α) : Finset α :=
  (G.nodes.filter ((searchFrom v).run G.neighbors (1 + G.nodes.length)).found).toFinset

theorem found_iff_reachable (G : ListGraph α) (v x : α) :
    ((searchFrom v).run G.neighbors (1 + G.nodes.length)).found x = true ↔
      G.toSimple.Reachable v x := by
  have hstart : Search.Expanding G.neighbors v (searchFrom v) :=
    { origin := decide_eq_true rfl
      sound := fun x hx => by
        obtain rfl : x = v := of_decide_eq_true hx
        exact Relation.ReflTransGen.refl
      queue := fun x hx => decide_eq_true (List.mem_singleton.mp hx)
      marks := fun x _ hmarked => hmarked
      waiting := fun x hx => Or.inl (List.mem_singleton.mpr (of_decide_eq_true hx)) }
  have hend : ((searchFrom v).run G.neighbors (1 + G.nodes.length)).queue = [] := by
    have hnodes : ∀ a, ∀ x ∈ G.neighbors a, x ∈ G.nodes.toFinset :=
      fun a x hx => List.mem_toFinset.mpr (List.mem_filter.mp hx).1
    refine Search.run_queue hnodes (Nat.add_le_add_left ?_ 1)
    exact (Finset.card_filter_le _ _).trans (List.toFinset_card_le G.nodes)
  have hadj : (fun a x => x ∈ G.neighbors a) = G.toSimple.Adj := by
    funext a x
    exact propext mem_neighbors
  rw [(hstart.run _).found_iff hend, SimpleGraph.reachable_iff_reflTransGen, Search.Reach, hadj]

theorem mem_component {G : ListGraph α} {v w : α} :
    w ∈ G.component v ↔ w ∈ G.nodes ∧ G.toSimple.Reachable v w := by
  rw [component, List.mem_toFinset, List.mem_filter, found_iff_reachable]

/-- The components of the nodes, at their first nodes. -/
def components (G : ListGraph α) : List (Finset α) :=
  (G.nodes.map G.component).reverse.dedup.reverse

theorem mem_components {G : ListGraph α} {c : Finset α} :
    c ∈ G.components ↔ ∃ v ∈ G.nodes, G.component v = c := by
  rw [components, List.mem_reverse, List.mem_dedup, List.mem_reverse, List.mem_map]

omit [DecidableEq α] in
/-- No edge leads out of the nodes. -/
theorem mem_nodes_of_reachable {G : ListGraph α} {v w : α} (hv : v ∈ G.nodes)
    (h : G.toSimple.Reachable v w) : w ∈ G.nodes := by
  rw [SimpleGraph.reachable_iff_reflTransGen] at h
  rcases Relation.ReflTransGen.cases_tail h with rfl | ⟨b, -, hbw⟩
  · exact hv
  · exact (mem_nodes_of_adj hbw).2

theorem isComponents_components (G : ListGraph α) : G.IsComponents G.components where
  nonempty c hc := by
    obtain ⟨v, hv, rfl⟩ := mem_components.mp hc
    exact ⟨v, mem_component.mpr ⟨hv, SimpleGraph.Reachable.refl v⟩⟩
  subset c hc w hw := by
    obtain ⟨v, -, rfl⟩ := mem_components.mp hc
    exact (mem_component.mp hw).1
  total v hv := ⟨G.component v, mem_components.mpr ⟨v, hv, rfl⟩,
    mem_component.mpr ⟨hv, SimpleGraph.Reachable.refl v⟩⟩
  reachable c hc v hv w := by
    obtain ⟨u, -, rfl⟩ := mem_components.mp hc
    obtain ⟨hnode, huv⟩ := mem_component.mp hv
    rw [mem_component]
    constructor
    · rintro ⟨-, huw⟩
      exact huv.symm.trans huw
    · intro hvw
      exact ⟨mem_nodes_of_reachable hnode hvw, huv.trans hvw⟩
  once := by
    have hnodup : G.components.Nodup := List.nodup_reverse.mpr (List.nodup_dedup _)
    refine List.Pairwise.imp_of_mem (fun {c c'} hc hc' hne => ?_) hnodup
    obtain ⟨u, -, rfl⟩ := mem_components.mp hc
    obtain ⟨u', -, rfl⟩ := mem_components.mp hc'
    refine Finset.disjoint_left.mpr fun v hv hv' => hne ?_
    have huv := (mem_component.mp hv).2
    have huv' := (mem_component.mp hv').2
    ext w
    rw [mem_component, mem_component]
    have hiff : G.toSimple.Reachable u w ↔ G.toSimple.Reachable u' w :=
      ⟨fun h => huv'.trans (huv.symm.trans h), fun h => huv.trans (huv'.symm.trans h)⟩
    exact and_congr_right fun _ => hiff

/-! ### Matchings -/

instance (G : ListGraph α) : DecidablePred G.IsMatching := fun M =>
  decidable_of_iff (M.Sublist G.edges ∧ (∀ e ∈ M, e.1 ≠ e.2) ∧
      M.Pairwise fun e f => e.1 ≠ f.1 ∧ e.1 ≠ f.2 ∧ e.2 ≠ f.1 ∧ e.2 ≠ f.2)
    ⟨fun h => ⟨h.1, h.2.1, h.2.2⟩, fun h => ⟨h.sublist, h.proper, h.disjoint⟩⟩

/-- The longest of all matchings. -/
def longestMatching (G : ListGraph α) : Option (List (α × α)) :=
  (G.edges.sublists.filter fun M => G.IsMatching M).argmax List.length

theorem longestMatching_spec (G : ListGraph α) :
    ∃ M, G.longestMatching = some M ∧ G.IsMaximumMatching M := by
  have hmem : ∀ M, M ∈ G.edges.sublists.filter (fun M => G.IsMatching M) ↔ G.IsMatching M := by
    intro M
    rw [List.mem_filter, List.mem_sublists, decide_eq_true_iff]
    exact and_iff_right_of_imp fun h => h.sublist
  have hnil : G.IsMatching [] :=
    ⟨List.nil_sublist _, fun e he => absurd he List.not_mem_nil, List.Pairwise.nil⟩
  cases hbest : G.longestMatching with
  | none => exact absurd (List.argmax_eq_none.mp hbest ▸ (hmem []).mpr hnil) List.not_mem_nil
  | some M =>
    exact ⟨M, rfl, (hmem M).mp (List.argmax_mem hbest), fun N hN =>
      List.le_of_mem_argmax ((hmem N).mpr hN) hbest⟩

/-! ### Covers -/

omit [DecidableEq α] in
theorem isCover_iff {G : ListGraph α} {k : Finset α} :
    G.IsCover k ↔ ∀ e ∈ G.edges, e.1 ≠ e.2 → e.1 ∈ k ∨ e.2 ∈ k := by
  constructor
  · intro h e he hne
    exact h (adj_iff.mpr ⟨hne, Or.inl he⟩)
  · intro h a b hadj
    obtain ⟨hne, he | he⟩ := adj_iff.mp hadj
    · exact h (a, b) he hne
    · exact (h (b, a) he hne.symm).symm

instance (G : ListGraph α) : DecidablePred G.IsCover := fun _ => decidable_of_iff' _ isCover_iff

/-- The smallest of all covers. -/
def smallestCover (G : ListGraph α) : Option (Finset α) :=
  ((G.nodes.sublists.map List.toFinset).filter fun k => G.IsCover k).argmin Finset.card

theorem smallestCover_spec (G : ListGraph α) :
    ∃ k, G.smallestCover = some k ∧ G.IsMinimumCover k := by
  have hmem : ∀ d, G.IsCover d → (G.nodes.filter fun v => v ∈ d).toFinset ∈
      (G.nodes.sublists.map List.toFinset).filter fun k => G.IsCover k := by
    intro d hd
    refine List.mem_filter.mpr ⟨List.mem_map_of_mem (List.mem_sublists.mpr
      List.filter_sublist), decide_eq_true fun a b hadj => ?_⟩
    obtain ⟨ha, hb⟩ := mem_nodes_of_adj hadj
    simpa [ha, hb] using hd hadj
  have hnodes : G.IsCover G.nodes.toFinset := fun a b hadj =>
    Or.inl (List.mem_toFinset.mpr (mem_nodes_of_adj hadj).1)
  cases hbest : G.smallestCover with
  | none => exact absurd (List.argmin_eq_none.mp hbest ▸ hmem _ hnodes) List.not_mem_nil
  | some k =>
    obtain ⟨hsub, hcover⟩ := List.mem_filter.mp (List.argmin_mem hbest)
    obtain ⟨l, hl, rfl⟩ := List.mem_map.mp hsub
    refine ⟨l.toFinset, rfl, fun v hv => ?_, of_decide_eq_true hcover, fun d hd => ?_⟩
    · exact (List.mem_sublists.mp hl).subset (List.mem_toFinset.mp hv)
    · refine (List.le_of_mem_argmin (hmem d hd) hbest).trans (Finset.card_le_card fun v hv => ?_)
      exact of_decide_eq_true (List.mem_filter.mp (List.mem_toFinset.mp hv)).2

/-- The variables of the local-ratio algorithm; every node costs 1 at the start. -/
structure LocalRatio (α : Type*) where
  cover : Finset α := ∅
  cost : α → ℕ := fun _ => 1

/-- Pay for an edge that is not covered yet with its cheaper end. -/
def LocalRatio.step (l : LocalRatio α) (e : α × α) : LocalRatio α :=
  if e.1 ∈ l.cover ∨ e.2 ∈ l.cover then l
  else if l.cost e.1 ≤ l.cost e.2 then
    { cover := insert e.1 l.cover
      cost := Function.update l.cost e.2 (l.cost e.2 - l.cost e.1) }
  else
    { cover := insert e.2 l.cover
      cost := Function.update l.cost e.1 (l.cost e.1 - l.cost e.2) }

def localRatioCover (G : ListGraph α) : Finset α := (G.edges.foldl LocalRatio.step {}).cover

/-- A step covers its edge, with an end of it if at all. -/
theorem LocalRatio.step_spec (l : LocalRatio α) (e : α × α) :
    l.cover ⊆ (l.step e).cover ∧ (e.1 ∈ (l.step e).cover ∨ e.2 ∈ (l.step e).cover) ∧
      ∀ v ∈ (l.step e).cover, v ∈ l.cover ∨ v = e.1 ∨ v = e.2 := by
  unfold LocalRatio.step
  split_ifs with hcovered hcost
  · exact ⟨Finset.Subset.refl _, hcovered, fun v hv => Or.inl hv⟩
  · refine ⟨Finset.subset_insert _ _, Or.inl (Finset.mem_insert_self _ _), fun v hv => ?_⟩
    rcases Finset.mem_insert.mp hv with heq | hv
    · exact Or.inr (Or.inl heq)
    · exact Or.inl hv
  · refine ⟨Finset.subset_insert _ _, Or.inr (Finset.mem_insert_self _ _), fun v hv => ?_⟩
    rcases Finset.mem_insert.mp hv with heq | hv
    · exact Or.inr (Or.inr heq)
    · exact Or.inl hv

theorem LocalRatio.foldl_spec (edges : List (α × α)) (l : LocalRatio α) :
    l.cover ⊆ (edges.foldl LocalRatio.step l).cover ∧
      (∀ e ∈ edges, e.1 ∈ (edges.foldl LocalRatio.step l).cover ∨
        e.2 ∈ (edges.foldl LocalRatio.step l).cover) ∧
      ∀ v ∈ (edges.foldl LocalRatio.step l).cover,
        v ∈ l.cover ∨ ∃ e ∈ edges, v = e.1 ∨ v = e.2 := by
  induction edges generalizing l with
  | nil => exact ⟨Finset.Subset.refl _, fun e he => absurd he List.not_mem_nil, fun v => Or.inl⟩
  | cons e edges ih =>
    obtain ⟨hgrows, hcovers, hends⟩ := ih (l.step e)
    obtain ⟨hgrow, hcover, hend⟩ := l.step_spec e
    refine ⟨hgrow.trans hgrows, fun f hf => ?_, fun v hv => ?_⟩
    · rcases List.mem_cons.mp hf with rfl | hf
      · exact hcover.imp (fun h => hgrows h) fun h => hgrows h
      · exact hcovers f hf
    · rcases hends v hv with hv | ⟨f, hf, hv⟩
      · rcases hend v hv with hv | hv
        · exact Or.inl hv
        · exact Or.inr ⟨e, List.mem_cons_self, hv⟩
      · exact Or.inr ⟨f, List.mem_cons_of_mem e hf, hv⟩

theorem localRatioCover_spec (G : ListGraph α) :
    (∀ v ∈ G.localRatioCover, v ∈ G.nodes) ∧ G.IsCover G.localRatioCover := by
  obtain ⟨-, hcovers, hends⟩ := LocalRatio.foldl_spec G.edges {}
  refine ⟨fun v hv => ?_, isCover_iff.mpr fun e he _ => hcovers e he⟩
  rcases hends v hv with hv | ⟨e, he, rfl | rfl⟩
  · exact absurd hv (Finset.notMem_empty v)
  · exact (G.ends e he).1
  · exact (G.ends e he).2

end ListGraph

/-! ### Together -/

/-- The specifications can be met, and computed. -/
def GraphAlgorithms.exhaustive (α : Type*) [DecidableEq α] : GraphAlgorithms α where
  connectedComponents := ListGraph.components
  maximumMatching := ListGraph.longestMatching
  toVertexCover G _ := G.smallestCover
  minWeightedVertexCover := ListGraph.localRatioCover
  connectedComponents_spec := ListGraph.isComponents_components
  maximumMatching_spec G _ _ := G.longestMatching_spec
  toVertexCover_spec G _ _ _ _ := G.smallestCover_spec
  minWeightedVertexCover_spec := ListGraph.localRatioCover_spec
