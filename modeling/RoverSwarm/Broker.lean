import RoverSwarm.Lib.GraphAlgorithms
import RoverSwarm.Lib.Walk
import RoverSwarm.Selection.Model

/-!
# Broker — which vertices of the matching graph the robots share

For every edge to be verified one of its two keyframes has to be sent.  The broker picks the
keyframes: edge by edge at random, or with a vertex cover of each component of the matching graph.
The functions of `networkx` are a parameter.
-/

namespace RoverSwarm

open Selection

/-- A robot id and the id of one of its keyframes. -/
abbrev Vertex := ℕ × ℕ

def edgeVertices (e : EdgeInterRobot) : Vertex × Vertex :=
  ((e.robot0Id, e.robot0KeyframeId), (e.robot1Id, e.robot1KeyframeId))

structure Broker where
  edges : List EdgeInterRobot
  isMultiRobotGraph : Bool
  isBipartite : Bool
  matchingGraph : ListGraph Vertex

namespace Broker

/-! ### `__init__` -/

def involvedStep (robotsInvolved : List ℕ) (robots : Finset ℕ) (e : EdgeInterRobot) : Finset ℕ :=
  let robots := if e.robot0Id ∈ robotsInvolved then insert e.robot0Id robots else robots
  if e.robot1Id ∈ robotsInvolved then insert e.robot1Id robots else robots

def robotsInvolvedWithEdges (edges : List EdgeInterRobot) (robotsInvolved : List ℕ) : Finset ℕ :=
  edges.foldl (involvedStep robotsInvolved) ∅

/-- The node itself is the same whether the graph is bipartite or not. -/
def addVertex (robots : Finset ℕ) (graph : ListGraph Vertex) (vertex : Vertex) :
    ListGraph Vertex :=
  if vertex ∉ graph.nodes ∧ vertex.1 ∈ robots then graph.addNode vertex else graph

def addMatching (robots : Finset ℕ) (graph : ListGraph Vertex) (e : EdgeInterRobot) :
    ListGraph Vertex :=
  let v := edgeVertices e
  let graph := addVertex robots (addVertex robots graph v.1) v.2
  if v.1.1 ∈ robots ∧ v.2.1 ∈ robots then graph.addEdge v.1 v.2 else graph

/-- `__init__`; there is no matching graph if fewer than two robots are involved. -/
def init (edges : List EdgeInterRobot) (robotsInvolved : List ℕ) : Broker :=
  let robots := robotsInvolvedWithEdges edges robotsInvolved
  { edges := edges
    isMultiRobotGraph := 2 ≤ robots.card
    isBipartite := robots.card = 2
    matchingGraph :=
      if 2 ≤ robots.card then edges.foldl (addMatching robots) ListGraph.empty
      else ListGraph.empty }

/-! ### `brokerage` -/

variable (self : Broker)

/-- The cover of one component. -/
def componentCover (nx : GraphAlgorithms Vertex) (graph : ListGraph Vertex) :
    Option (Finset Vertex) :=
  if self.isBipartite then
    (nx.maximumMatching graph).bind fun matching => nx.toVertexCover graph matching
  else some (nx.minWeightedVertexCover graph)

/-- `vertex_cover`; `none` if a function of `networkx` raises. -/
def vertexCover (nx : GraphAlgorithms Vertex) : Option (List (Finset Vertex)) :=
  let matchingSubgraphs :=
    (nx.connectedComponents self.matchingGraph).map self.matchingGraph.subgraph
  matchingSubgraphs.mapM (self.componentCover nx)

/-- The variables of `simple_dialog`, with how many random numbers have been drawn. -/
structure Dialog where
  verticesDialog : Finset Vertex := ∅
  drawn : ℕ := 0

/-- `randint i` tells whether the number drawn at `i` is 1. -/
def dialogStep (randint : ℕ → Bool) (d : Dialog) (e : EdgeInterRobot) : Dialog :=
  let v := edgeVertices e
  if v.1 ∉ d.verticesDialog ∧ v.2 ∉ d.verticesDialog then
    { verticesDialog := insert (if randint d.drawn then v.2 else v.1) d.verticesDialog
      drawn := d.drawn + 1 }
  else d

/-- `simple_dialog`. -/
def simpleDialog (randint : ℕ → Bool) : List (Finset Vertex) :=
  [(self.edges.foldl (dialogStep randint) {}).verticesDialog]

/-- `brokerage`. -/
def brokerage (nx : GraphAlgorithms Vertex) (randint : ℕ → Bool) (useVertexCover : Bool) :
    Option (List (Finset Vertex)) :=
  if self.isMultiRobotGraph then
    if useVertexCover then self.vertexCover nx else some (self.simpleDialog randint)
  else some []

/-! ### Covers of the edges -/

variable {edges : List EdgeInterRobot} {robotsInvolved : List ℕ} {nx : GraphAlgorithms Vertex}
  {randint : ℕ → Bool}

def IsEnd (edges : List EdgeInterRobot) (v : Vertex) : Prop :=
  ∃ e ∈ edges, v = (edgeVertices e).1 ∨ v = (edgeVertices e).2

def Covers (edges : List EdgeInterRobot) (k : Finset Vertex) : Prop :=
  ∀ e ∈ edges, (edgeVertices e).1 ∈ k ∨ (edgeVertices e).2 ∈ k

/-- The sets do not meet, and together they are a vertex cover of the edges. -/
structure IsChoice (edges : List EdgeInterRobot) (sets : List (Finset Vertex)) : Prop where
  disjoint : sets.Pairwise Disjoint
  ends : ∀ k ∈ sets, ∀ v ∈ k, IsEnd edges v
  covers : ∀ e ∈ edges, ∃ k ∈ sets, (edgeVertices e).1 ∈ k ∨ (edgeVertices e).2 ∈ k

/-- The number of vertices that are sent. -/
def total (sets : List (Finset Vertex)) : ℕ := (sets.map Finset.card).sum

def robotsOf (edges : List EdgeInterRobot) : Finset ℕ :=
  (edges.flatMap fun e => [e.robot0Id, e.robot1Id]).toFinset

theorem mem_robotsOf {r : ℕ} :
    r ∈ robotsOf edges ↔ ∃ e ∈ edges, r = e.robot0Id ∨ r = e.robot1Id := by
  simp [robotsOf]

/-- Edges between different robots, all of them involved. -/
structure Between (robotsInvolved : List ℕ) (edges : List EdgeInterRobot) : Prop where
  nonempty : edges ≠ []
  interRobot : ∀ e ∈ edges, e.robot0Id ≠ e.robot1Id
  involved : ∀ e ∈ edges, e.robot0Id ∈ robotsInvolved ∧ e.robot1Id ∈ robotsInvolved

/-! ### The matching graph -/

theorem mem_foldl_involvedStep {edges : List EdgeInterRobot}
    (hinvolved : ∀ e ∈ edges, e.robot0Id ∈ robotsInvolved ∧ e.robot1Id ∈ robotsInvolved)
    {robots : Finset ℕ} {r : ℕ} : r ∈ edges.foldl (involvedStep robotsInvolved) robots ↔
      r ∈ robots ∨ ∃ e ∈ edges, r = e.robot0Id ∨ r = e.robot1Id := by
  induction edges generalizing robots with
  | nil => simp
  | cons e edges ih =>
    obtain ⟨h0, h1⟩ := hinvolved e List.mem_cons_self
    have hstep : r ∈ involvedStep robotsInvolved robots e ↔
        r ∈ robots ∨ (r = e.robot0Id ∨ r = e.robot1Id) := by
      rw [involvedStep, if_pos h0, if_pos h1, Finset.mem_insert, Finset.mem_insert]
      tauto
    rw [List.foldl_cons, ih fun e' he' => hinvolved e' (List.mem_cons_of_mem e he'), hstep,
      List.exists_mem_cons_iff, or_assoc]

theorem Between.robotsInvolvedWithEdges (h : Between robotsInvolved edges) :
    robotsInvolvedWithEdges edges robotsInvolved = robotsOf edges := by
  ext r
  rw [mem_robotsOf, Broker.robotsInvolvedWithEdges, mem_foldl_involvedStep h.involved]
  simp

theorem Between.two_le_card (h : Between robotsInvolved edges) : 2 ≤ (robotsOf edges).card := by
  obtain ⟨e, he⟩ := List.exists_mem_of_ne_nil edges h.nonempty
  refine Finset.one_lt_card.mpr ⟨e.robot0Id, ?_, e.robot1Id, ?_, h.interRobot e he⟩
  · exact mem_robotsOf.mpr ⟨e, he, Or.inl rfl⟩
  · exact mem_robotsOf.mpr ⟨e, he, Or.inr rfl⟩

theorem Between.init_eq (h : Between robotsInvolved edges) : init edges robotsInvolved =
    { edges := edges
      isMultiRobotGraph := true
      isBipartite := (robotsOf edges).card = 2
      matchingGraph := edges.foldl (addMatching (robotsOf edges)) ListGraph.empty } := by
  unfold init
  dsimp only
  rw [h.robotsInvolvedWithEdges, if_pos h.two_le_card, decide_eq_true h.two_le_card]

section Graph

variable {robots : Finset ℕ} {graph : ListGraph Vertex} {e : EdgeInterRobot}

@[simp] theorem addVertex_edges (v : Vertex) : (addVertex robots graph v).edges = graph.edges := by
  unfold addVertex
  split_ifs
  · exact ListGraph.addNode_edges graph v
  · rfl

theorem mem_nodes_addVertex {v w : Vertex} (hv : v.1 ∈ robots) :
    w ∈ (addVertex robots graph v).nodes ↔ w ∈ graph.nodes ∨ w = v := by
  unfold addVertex
  split_ifs with hnew
  · exact ListGraph.mem_nodes_addNode
  · have hold : v ∈ graph.nodes := by
      by_contra hne
      exact hnew ⟨hne, hv⟩
    exact ⟨Or.inl, fun h => h.elim id fun heq => heq ▸ hold⟩

theorem mem_nodes_addMatching (h0 : e.robot0Id ∈ robots) (h1 : e.robot1Id ∈ robots) {v : Vertex} :
    v ∈ (addMatching robots graph e).nodes ↔
      v ∈ graph.nodes ∨ v = (edgeVertices e).1 ∨ v = (edgeVertices e).2 := by
  have hv0 : (edgeVertices e).1.1 ∈ robots := h0
  have hv1 : (edgeVertices e).2.1 ∈ robots := h1
  unfold addMatching
  dsimp only
  rw [if_pos ⟨hv0, hv1⟩, ListGraph.mem_nodes_addEdge, mem_nodes_addVertex hv1,
    mem_nodes_addVertex hv0]
  tauto

theorem adj_addMatching (h0 : e.robot0Id ∈ robots) (h1 : e.robot1Id ∈ robots) {x y : Vertex} :
    (addMatching robots graph e).toSimple.Adj x y ↔ graph.toSimple.Adj x y ∨
      x ≠ y ∧ ((x = (edgeVertices e).1 ∧ y = (edgeVertices e).2) ∨
        (x = (edgeVertices e).2 ∧ y = (edgeVertices e).1)) := by
  have hv : (edgeVertices e).1.1 ∈ robots ∧ (edgeVertices e).2.1 ∈ robots := ⟨h0, h1⟩
  unfold addMatching
  dsimp only
  rw [if_pos hv, ListGraph.adj_addEdge, ListGraph.adj_iff, ListGraph.adj_iff, addVertex_edges,
    addVertex_edges]

theorem mem_nodes_foldl {edges : List EdgeInterRobot}
    (h : ∀ e ∈ edges, e.robot0Id ∈ robots ∧ e.robot1Id ∈ robots) {v : Vertex} :
    v ∈ (edges.foldl (addMatching robots) graph).nodes ↔ v ∈ graph.nodes ∨ IsEnd edges v := by
  induction edges generalizing graph with
  | nil => simp [IsEnd]
  | cons e edges ih =>
    obtain ⟨h0, h1⟩ := h e List.mem_cons_self
    have hends : IsEnd (e :: edges) v ↔
        (v = (edgeVertices e).1 ∨ v = (edgeVertices e).2) ∨ IsEnd edges v :=
      List.exists_mem_cons_iff _ _ _
    rw [List.foldl_cons, ih fun e' he' => h e' (List.mem_cons_of_mem e he'),
      mem_nodes_addMatching h0 h1, hends, or_assoc]

theorem adj_foldl {edges : List EdgeInterRobot}
    (h : ∀ e ∈ edges, e.robot0Id ∈ robots ∧ e.robot1Id ∈ robots) {x y : Vertex} :
    (edges.foldl (addMatching robots) graph).toSimple.Adj x y ↔ graph.toSimple.Adj x y ∨
      ∃ e ∈ edges, x ≠ y ∧ ((x = (edgeVertices e).1 ∧ y = (edgeVertices e).2) ∨
        (x = (edgeVertices e).2 ∧ y = (edgeVertices e).1)) := by
  induction edges generalizing graph with
  | nil => simp
  | cons e edges ih =>
    obtain ⟨h0, h1⟩ := h e List.mem_cons_self
    rw [List.foldl_cons, ih fun e' he' => h e' (List.mem_cons_of_mem e he'),
      adj_addMatching h0 h1, List.exists_mem_cons_iff, or_assoc]

end Graph

/-- The graph `__init__` builds of edges between involved robots. -/
def graphOf (edges : List EdgeInterRobot) : ListGraph Vertex :=
  edges.foldl (addMatching (robotsOf edges)) ListGraph.empty

theorem mem_robotsOf_of_mem {e : EdgeInterRobot} (he : e ∈ edges) :
    e.robot0Id ∈ robotsOf edges ∧ e.robot1Id ∈ robotsOf edges :=
  ⟨mem_robotsOf.mpr ⟨e, he, Or.inl rfl⟩, mem_robotsOf.mpr ⟨e, he, Or.inr rfl⟩⟩

theorem mem_nodes_graphOf {v : Vertex} : v ∈ (graphOf edges).nodes ↔ IsEnd edges v :=
  (mem_nodes_foldl fun _ he => mem_robotsOf_of_mem he).trans
    (or_iff_right List.not_mem_nil)

theorem adj_graphOf {x y : Vertex} : (graphOf edges).toSimple.Adj x y ↔
    ∃ e ∈ edges, x ≠ y ∧ ((x = (edgeVertices e).1 ∧ y = (edgeVertices e).2) ∨
      (x = (edgeVertices e).2 ∧ y = (edgeVertices e).1)) := by
  refine (adj_foldl fun _ he => mem_robotsOf_of_mem he).trans (or_iff_right fun hadj => ?_)
  exact List.not_mem_nil (ListGraph.mem_nodes_of_adj hadj).1

theorem Between.adj_of_mem (h : Between robotsInvolved edges) {e : EdgeInterRobot}
    (he : e ∈ edges) :
    (graphOf edges).toSimple.Adj (edgeVertices e).1 (edgeVertices e).2 := by
  refine adj_graphOf.mpr ⟨e, he, fun heq => h.interRobot e he ?_, Or.inl ⟨rfl, rfl⟩⟩
  exact congrArg Prod.fst heq

/-- To cover the edges is to cover the graph. -/
theorem Between.isCover_iff (h : Between robotsInvolved edges) {k : Finset Vertex} :
    (graphOf edges).IsCover k ↔ Covers edges k := by
  constructor
  · intro hcover e he
    exact hcover (h.adj_of_mem he)
  · intro hcovers x y hadj
    obtain ⟨e, he, -, ⟨rfl, rfl⟩ | ⟨rfl, rfl⟩⟩ := adj_graphOf.mp hadj
    · exact hcovers e he
    · exact (hcovers e he).symm

/-- The two robots are the sides of the graph. -/
theorem Between.isBipartite (h : Between robotsInvolved edges) (htwo : (robotsOf edges).card = 2) :
    (graphOf edges).toSimple.IsBipartite := by
  obtain ⟨a, b, -, hrobots⟩ := Finset.card_eq_two.mp htwo
  have hside : ∀ e ∈ edges, decide (e.robot0Id = a) ≠ decide (e.robot1Id = a) := by
    intro e he heq
    obtain ⟨h0, h1⟩ := mem_robotsOf_of_mem he
    rw [hrobots, Finset.mem_insert, Finset.mem_singleton] at h0 h1
    have hne := h.interRobot e he
    rw [decide_eq_decide] at heq
    omega
  refine (SimpleGraph.Coloring.mk (fun v : Vertex => decide (v.1 = a)) ?_).colorable
  intro x y hadj
  obtain ⟨e, he, -, ⟨rfl, rfl⟩ | ⟨rfl, rfl⟩⟩ := adj_graphOf.mp hadj
  · exact hside e he
  · exact (hside e he).symm

/-! ### The dialog -/

/-- What the dialog over some edges does: it covers them with ends of theirs, one for each at
most. -/
structure Dialog.Grows (d d' : Dialog) (edges : List EdgeInterRobot) : Prop where
  keeps : d.verticesDialog ⊆ d'.verticesDialog
  covers : Covers edges d'.verticesDialog
  ends : ∀ v ∈ d'.verticesDialog, v ∈ d.verticesDialog ∨ IsEnd edges v
  card : d'.verticesDialog.card ≤ d.verticesDialog.card + edges.length

theorem Dialog.Grows.of_insert {d : Dialog} {e : EdgeInterRobot} {v : Vertex} {n : ℕ}
    (hv : v = (edgeVertices e).1 ∨ v = (edgeVertices e).2) :
    d.Grows { verticesDialog := insert v d.verticesDialog, drawn := n } [e] where
  keeps := Finset.subset_insert _ _
  covers e' he' := by
    obtain rfl := List.mem_singleton.mp he'
    rcases hv with rfl | rfl
    · exact Or.inl (Finset.mem_insert_self _ _)
    · exact Or.inr (Finset.mem_insert_self _ _)
  ends w hw := by
    rcases Finset.mem_insert.mp hw with rfl | hw
    · exact Or.inr ⟨e, List.mem_singleton_self e, hv⟩
    · exact Or.inl hw
  card := Finset.card_insert_le _ _

/-- **Step lemma**: one edge. -/
theorem dialogStep_grows (randint : ℕ → Bool) (d : Dialog) (e : EdgeInterRobot) :
    d.Grows (dialogStep randint d e) [e] := by
  unfold dialogStep
  dsimp only
  by_cases hnew : (edgeVertices e).1 ∉ d.verticesDialog ∧ (edgeVertices e).2 ∉ d.verticesDialog
  · rw [if_pos hnew]
    refine Dialog.Grows.of_insert ?_
    cases randint d.drawn with
    | false => exact Or.inl rfl
    | true => exact Or.inr rfl
  · rw [if_neg hnew]
    refine ⟨Finset.Subset.refl _, fun e' he' => ?_, fun v hv => Or.inl hv, Nat.le_add_right _ _⟩
    obtain rfl := List.mem_singleton.mp he'
    by_contra hne
    exact hnew (not_or.mp hne)

/-- **Run lemma**: all edges. -/
theorem foldl_dialogStep_grows (randint : ℕ → Bool) (edges : List EdgeInterRobot) (d : Dialog) :
    d.Grows (edges.foldl (dialogStep randint) d) edges := by
  induction edges generalizing d with
  | nil =>
    exact ⟨Finset.Subset.refl _, fun e he => absurd he List.not_mem_nil, fun v hv => Or.inl hv,
      Nat.le_refl _⟩
  | cons e edges ih =>
    have hstep := dialogStep_grows randint d e
    have hrun := ih (dialogStep randint d e)
    refine ⟨hstep.keeps.trans hrun.keeps, fun e' he' => ?_, fun v hv => ?_, ?_⟩
    · rcases List.mem_cons.mp he' with rfl | he'
      · exact (hstep.covers e' (List.mem_singleton_self e')).imp
          (fun h => hrun.keeps h) fun h => hrun.keeps h
      · exact hrun.covers e' he'
    · rcases hrun.ends v hv with hv | ⟨e', he', hv⟩
      · rcases hstep.ends v hv with hv | ⟨e', he', hv⟩
        · exact Or.inl hv
        · exact Or.inr ⟨e', List.mem_cons.mpr (Or.inl (List.mem_singleton.mp he')), hv⟩
      · exact Or.inr ⟨e', List.mem_cons_of_mem e he', hv⟩
    · have hone := hstep.card
      have hrest := hrun.card
      rw [List.length_singleton] at hone
      rw [List.foldl_cons, List.length_cons]
      omega

theorem isChoice_simpleDialog (self : Broker) (randint : ℕ → Bool) :
    IsChoice self.edges (self.simpleDialog randint) ∧
      total (self.simpleDialog randint) ≤ self.edges.length := by
  have hgrows := foldl_dialogStep_grows randint self.edges {}
  refine ⟨⟨List.pairwise_singleton _ _, fun k hk v hv => ?_, fun e he => ?_⟩, ?_⟩
  · obtain rfl := List.mem_singleton.mp hk
    exact (hgrows.ends v hv).resolve_left (Finset.notMem_empty v)
  · exact ⟨_, List.mem_singleton_self _, hgrows.covers e he⟩
  · have hcard := hgrows.card
    have hempty : ({} : Dialog).verticesDialog.card = 0 := rfl
    show (self.edges.foldl (dialogStep randint) {}).verticesDialog.card + 0 ≤ _
    omega

/-! ### The vertex covers -/

/-- If every component gets its cover, the covers are the result. -/
theorem vertexCover_eq_some {self : Broker} {P : ListGraph Vertex → Finset Vertex → Prop}
    (h : ∀ c ∈ nx.connectedComponents self.matchingGraph,
      ∃ k, self.componentCover nx (self.matchingGraph.subgraph c) = some k ∧
        P (self.matchingGraph.subgraph c) k) :
    ∃ g : Finset Vertex → Finset Vertex,
      self.vertexCover nx = some ((nx.connectedComponents self.matchingGraph).map g) ∧
        ∀ c ∈ nx.connectedComponents self.matchingGraph,
          P (self.matchingGraph.subgraph c) (g c) := by
  choose! g hg hP using h
  refine ⟨g, ?_, hP⟩
  have hwalk : ((nx.connectedComponents self.matchingGraph).map
      self.matchingGraph.subgraph).mapM (self.componentCover nx) = some (((nx.connectedComponents
        self.matchingGraph).map self.matchingGraph.subgraph).map
          fun graph => (self.componentCover nx graph).getD ∅) := by
    refine Walk.mapM_eq_some_map fun graph hgraph => ?_
    obtain ⟨c, hc, rfl⟩ := List.mem_map.mp hgraph
    rw [hg c hc]
    rfl
  refine hwalk.trans (congrArg some ?_)
  rw [List.map_map]
  refine List.map_congr_left fun c hc => ?_
  rw [Function.comp_apply, hg c hc]
  rfl

/-- Covers of the components of the matching graph are a choice. -/
theorem Between.isChoice_map (h : Between robotsInvolved edges) {g : Finset Vertex → Finset Vertex}
    (hsubset : ∀ c ∈ nx.connectedComponents (graphOf edges),
      ∀ v ∈ g c, v ∈ ((graphOf edges).subgraph c).nodes)
    (hcover : ∀ c ∈ nx.connectedComponents (graphOf edges),
      ((graphOf edges).subgraph c).IsCover (g c)) :
    IsChoice edges ((nx.connectedComponents (graphOf edges)).map g) where
  disjoint := (nx.connectedComponents_spec (graphOf edges)).pairwise_disjoint hsubset
  ends k hk v hv := by
    obtain ⟨c, hc, rfl⟩ := List.mem_map.mp hk
    exact mem_nodes_graphOf.mp (ListGraph.mem_nodes_subgraph.mp (hsubset c hc v hv)).1
  covers e he := by
    obtain ⟨c, hc, hends⟩ := (nx.connectedComponents_spec (graphOf edges)).exists_mem_cover hcover
      (h.adj_of_mem he)
    exact ⟨g c, List.mem_map_of_mem hc, hends⟩

/-- With two robots each component gets a smallest cover. -/
theorem Between.exists_minimumCovers (nx : GraphAlgorithms Vertex)
    (h : Between robotsInvolved edges) (htwo : (robotsOf edges).card = 2) :
    ∃ g : Finset Vertex → Finset Vertex,
      (init edges robotsInvolved).vertexCover nx =
        some ((nx.connectedComponents (graphOf edges)).map g) ∧
      ∀ c ∈ nx.connectedComponents (graphOf edges),
        ((graphOf edges).subgraph c).IsMinimumCover (g c) := by
  rw [h.init_eq]
  refine vertexCover_eq_some fun c hc => ?_
  have hconnected := (nx.connectedComponents_spec (graphOf edges)).isConnected hc
  have hbipartite := ListGraph.isBipartite_subgraph (h.isBipartite htwo) c
  obtain ⟨M, hM, hmaximum⟩ := nx.maximumMatching_spec _ hconnected hbipartite
  obtain ⟨k, hk, hminimum⟩ := nx.toVertexCover_spec _ M hconnected hbipartite hmaximum
  refine ⟨k, ?_, hminimum⟩
  rw [componentCover, if_pos (decide_eq_true htwo)]
  exact (congrArg (Option.bind · _) hM).trans hk

/-- With more robots each component gets a cover. -/
theorem Between.exists_covers (nx : GraphAlgorithms Vertex)
    (h : Between robotsInvolved edges) (htwo : (robotsOf edges).card ≠ 2) :
    ∃ g : Finset Vertex → Finset Vertex,
      (init edges robotsInvolved).vertexCover nx =
        some ((nx.connectedComponents (graphOf edges)).map g) ∧
      ∀ c ∈ nx.connectedComponents (graphOf edges),
        (∀ v ∈ g c, v ∈ ((graphOf edges).subgraph c).nodes) ∧
          ((graphOf edges).subgraph c).IsCover (g c) := by
  rw [h.init_eq]
  have hsome : ∀ c ∈ nx.connectedComponents (graphOf edges),
      ∃ k, (Broker.mk edges true ((robotsOf edges).card = 2) (graphOf edges)).componentCover nx
          ((graphOf edges).subgraph c) = some k ∧
        (∀ v ∈ k, v ∈ ((graphOf edges).subgraph c).nodes) ∧
          ((graphOf edges).subgraph c).IsCover k := by
    intro c _
    refine ⟨_, ?_, nx.minWeightedVertexCover_spec _⟩
    rw [componentCover, if_neg (by simpa using htwo)]
  exact vertexCover_eq_some (P := fun graph k => (∀ v ∈ k, v ∈ graph.nodes) ∧ graph.IsCover k) hsome

/-- One end of each edge is a cover. -/
theorem exists_covers_card_le (edges : List EdgeInterRobot) :
    ∃ k, Covers edges k ∧ k.card ≤ edges.length := by
  refine ⟨(edges.map fun e => (edgeVertices e).1).toFinset, fun e he => Or.inl ?_, ?_⟩
  · exact List.mem_toFinset.mpr (List.mem_map_of_mem he)
  · have hcard := List.toFinset_card_le (edges.map fun e => (edgeVertices e).1)
    rwa [List.length_map] at hcard

/-! ### What the broker returns -/

/-- The number of vertices in sets that do not meet is that of their union. -/
theorem exists_card_eq_total {sets : List (Finset Vertex)} (h : sets.Pairwise Disjoint) :
    ∃ k : Finset Vertex, k.card = total sets ∧ ∀ v, v ∈ k ↔ ∃ c ∈ sets, v ∈ c := by
  induction sets with
  | nil => exact ⟨∅, rfl, fun v => by simp⟩
  | cons c sets ih =>
    obtain ⟨hc, hsets⟩ := List.pairwise_cons.mp h
    obtain ⟨k, hcard, hmem⟩ := ih hsets
    have hdisjoint : Disjoint c k := by
      refine Finset.disjoint_left.mpr fun v hvc hvk => ?_
      obtain ⟨c', hc', hv⟩ := (hmem v).mp hvk
      exact Finset.disjoint_left.mp (hc c' hc') hvc hv
    refine ⟨c ∪ k, ?_, fun v => ?_⟩
    · have htotal : total (c :: sets) = c.card + total sets := List.sum_cons
      rw [Finset.card_union_of_disjoint hdisjoint, hcard, htotal]
    · rw [Finset.mem_union, hmem, List.exists_mem_cons_iff]

/-- A choice is a cover, so the covers with fewest vertices have no more. -/
theorem IsChoice.isLeast {sets : List (Finset Vertex)} (h : IsChoice edges sets)
    (hleast : ∀ k, Covers edges k → total sets ≤ k.card) :
    IsLeast {n | ∃ k, Covers edges k ∧ k.card = n} (total sets) := by
  obtain ⟨k, hcard, hmem⟩ := exists_card_eq_total h.disjoint
  refine ⟨⟨k, fun e he => ?_, hcard⟩, ?_⟩
  · obtain ⟨c, hc, hends⟩ := h.covers e he
    exact hends.imp (fun hv => (hmem _).mpr ⟨c, hc, hv⟩) fun hv => (hmem _).mpr ⟨c, hc, hv⟩
  · rintro n ⟨k', hk', rfl⟩
    exact hleast k' hk'

/-- **The broker's choice is a vertex cover**, of at most one vertex for each edge unless the cover
is one of more than two robots, and with the fewest vertices if it is one of two. -/
theorem brokerage_isChoice (nx : GraphAlgorithms Vertex) (randint : ℕ → Bool)
    (robotsInvolved : List ℕ) (edges : List EdgeInterRobot) (h : Between robotsInvolved edges)
    (useVertexCover : Bool) :
    ∃ sets, (init edges robotsInvolved).brokerage nx randint useVertexCover = some sets ∧
      IsChoice edges sets ∧
      (useVertexCover = false ∨ (robotsOf edges).card = 2 → total sets ≤ edges.length) ∧
      (useVertexCover = true → (robotsOf edges).card = 2 →
        IsLeast {n | ∃ k, Covers edges k ∧ k.card = n} (total sets)) := by
  have hmulti : (init edges robotsInvolved).isMultiRobotGraph = true := by rw [h.init_eq]
  have hedges : (init edges robotsInvolved).edges = edges := rfl
  unfold brokerage
  rw [if_pos hmulti]
  cases useVertexCover with
  | false =>
    obtain ⟨hchoice, htotal⟩ := isChoice_simpleDialog (init edges robotsInvolved) randint
    rw [hedges] at hchoice htotal
    exact ⟨_, rfl, hchoice, fun _ => htotal, fun huse => absurd huse Bool.false_ne_true⟩
  | true =>
    rw [if_pos rfl]
    by_cases htwo : (robotsOf edges).card = 2
    · obtain ⟨g, hsome, hminimum⟩ := h.exists_minimumCovers nx htwo
      have hchoice := h.isChoice_map (fun c hc => (hminimum c hc).subset)
        fun c hc => (hminimum c hc).cover
      have hleast := hchoice.isLeast fun k hk =>
        (nx.connectedComponents_spec (graphOf edges)).sum_card_le hminimum (h.isCover_iff.mpr hk)
      obtain ⟨k, hk, hcard⟩ := exists_covers_card_le edges
      exact ⟨_, hsome, hchoice, fun _ => (hleast.2 ⟨k, hk, rfl⟩).trans hcard, fun _ _ => hleast⟩
    · obtain ⟨g, hsome, hcovers⟩ := h.exists_covers nx htwo
      have hchoice := h.isChoice_map (fun c hc => (hcovers c hc).1) fun c hc => (hcovers c hc).2
      refine ⟨_, hsome, hchoice, fun hsmall => ?_, fun _ htwo' => absurd htwo' htwo⟩
      rcases hsmall with huse | htwo'
      · exact absurd huse.symm Bool.false_ne_true
      · exact absurd htwo' htwo

/-- Keyframe 1 of robot 0 has two matches, one of them known twice, and keyframe 2 has two. -/
def twoStars : List EdgeInterRobot :=
  [⟨0, 1, 1, 1, 1⟩, ⟨1, 2, 0, 1, 1⟩, ⟨1, 1, 0, 1, 1⟩, ⟨0, 2, 1, 5, 1⟩, ⟨0, 2, 1, 6, 1⟩]

example : (init twoStars [0, 1, 2]).brokerage (GraphAlgorithms.exhaustive Vertex) (fun _ => true)
    true = some [{(0, 1)}, {(0, 2)}] := by decide +kernel

theorem brokerage_isChoice_twoStars :
    ∃ sets, (init twoStars [0, 1, 2]).brokerage (GraphAlgorithms.exhaustive Vertex)
        (fun _ => true) true = some sets ∧ IsChoice twoStars sets ∧ total sets ≤ 5 ∧
      IsLeast {n | ∃ k, Covers twoStars k ∧ k.card = n} (total sets) := by
  have h : Between [0, 1, 2] twoStars := ⟨by decide, by decide, by decide⟩
  have htwo : (robotsOf twoStars).card = 2 := by decide +kernel
  obtain ⟨sets, hsome, hchoice, hsmall, hleast⟩ := brokerage_isChoice
    (GraphAlgorithms.exhaustive Vertex) (fun _ => true) [0, 1, 2] twoStars h true
  exact ⟨sets, hsome, hchoice, hsmall (Or.inr htwo), hleast rfl htwo⟩

end Broker

end RoverSwarm
