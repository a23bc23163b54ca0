import Mathlib.Combinatorics.SimpleGraph.Bipartite
import Mathlib.Combinatorics.SimpleGraph.VertexCover
import Mathlib.Data.Finset.Card
import Mathlib.Data.List.Nodup

/-!
# ListGraph — graphs as lists of nodes and edges, and their vertex covers

What a graph with nodes and edges in lists stands for is a simple graph (`toSimple`).  Connected
components, matchings and vertex covers are said of that.  The main results are about a graph cut
into its components: covers of the components together cover the graph, they do not meet, and if
each is the smallest one of its component, no cover of the graph has fewer vertices.
-/

/-- A graph with its nodes and edges in the order they were added. -/
structure ListGraph (α : Type*) where
  nodes : List α
  edges : List (α × α)
  nodup : nodes.Nodup
  ends : ∀ e ∈ edges, e.1 ∈ nodes ∧ e.2 ∈ nodes

namespace ListGraph

variable {α : Type*}

/-- The graph without nodes. -/
def empty : ListGraph α where
  nodes := []
  edges := []
  nodup := List.nodup_nil
  ends _ he := absurd he List.not_mem_nil

/-! ### The simple graph -/

/-- What the graph stands for; a loop stands for nothing. -/
def toSimple (G : ListGraph α) : SimpleGraph α := SimpleGraph.fromRel fun a b => (a, b) ∈ G.edges

theorem adj_iff {G : ListGraph α} {a b : α} :
    G.toSimple.Adj a b ↔ a ≠ b ∧ ((a, b) ∈ G.edges ∨ (b, a) ∈ G.edges) :=
  SimpleGraph.fromRel_adj _ a b

theorem mem_nodes_of_adj {G : ListGraph α} {a b : α} (h : G.toSimple.Adj a b) :
    a ∈ G.nodes ∧ b ∈ G.nodes := by
  rcases (adj_iff.mp h).2 with he | he
  · exact G.ends _ he
  · exact (G.ends _ he).symm

/-- All nodes, of which there is one, are joined by paths. -/
structure IsConnected (G : ListGraph α) : Prop where
  nonempty : G.nodes ≠ []
  reachable : ∀ v ∈ G.nodes, ∀ w ∈ G.nodes, G.toSimple.Reachable v w

/-- The sets of nodes joined by paths, each of them once. -/
structure IsComponents (G : ListGraph α) (cs : List (Finset α)) : Prop where
  nonempty : ∀ c ∈ cs, c.Nonempty
  subset : ∀ c ∈ cs, ∀ v ∈ c, v ∈ G.nodes
  total : ∀ v ∈ G.nodes, ∃ c ∈ cs, v ∈ c
  reachable : ∀ c ∈ cs, ∀ v ∈ c, ∀ w, w ∈ c ↔ G.toSimple.Reachable v w
  once : cs.Pairwise Disjoint

theorem IsComponents.mem_of_adj {G : ListGraph α} {cs : List (Finset α)} {c : Finset α}
    (h : G.IsComponents cs) (hc : c ∈ cs) {a b : α} (ha : a ∈ c) (hadj : G.toSimple.Adj a b) :
    b ∈ c :=
  (h.reachable c hc a ha b).mpr hadj.reachable

/-- Edges of the graph that have no ends in common. -/
structure IsMatching (G : ListGraph α) (M : List (α × α)) : Prop where
  sublist : M.Sublist G.edges
  proper : ∀ e ∈ M, e.1 ≠ e.2
  disjoint : M.Pairwise fun e f => e.1 ≠ f.1 ∧ e.1 ≠ f.2 ∧ e.2 ≠ f.1 ∧ e.2 ≠ f.2

structure IsMaximumMatching (G : ListGraph α) (M : List (α × α)) : Prop extends
    G.IsMatching M where
  greatest : ∀ N, G.IsMatching N → N.length ≤ M.length

abbrev IsCover (G : ListGraph α) (k : Finset α) : Prop := G.toSimple.IsVertexCover k

structure IsMinimumCover (G : ListGraph α) (k : Finset α) : Prop where
  subset : ∀ v ∈ k, v ∈ G.nodes
  cover : G.IsCover k
  least : ∀ d, G.IsCover d → k.card ≤ d.card

/-! ### Building graphs -/

variable [DecidableEq α]

/-- Add a node if it is new. -/
def addNode (G : ListGraph α) (v : α) : ListGraph α :=
  if hv : v ∈ G.nodes then G
  else
    { nodes := G.nodes ++ [v]
      edges := G.edges
      nodup := List.nodup_append.mpr ⟨G.nodup, List.nodup_singleton v, fun _ ha _ hb heq =>
        hv (List.mem_singleton.mp hb ▸ heq ▸ ha)⟩
      ends := fun e he => ⟨List.mem_append_left _ (G.ends e he).1,
        List.mem_append_left _ (G.ends e he).2⟩ }

theorem mem_nodes_addNode {G : ListGraph α} {u v : α} :
    v ∈ (G.addNode u).nodes ↔ v ∈ G.nodes ∨ v = u := by
  unfold addNode
  split_ifs with hu
  · exact ⟨Or.inl, fun h => h.elim id fun heq => heq ▸ hu⟩
  · exact List.mem_append.trans (or_congr_right List.mem_singleton)

@[simp] theorem addNode_edges (G : ListGraph α) (v : α) : (G.addNode v).edges = G.edges := by
  unfold addNode
  split_ifs
  · rfl
  · rfl

/-- Add an edge if it is new in either direction, and its ends. -/
def addEdge (G : ListGraph α) (a b : α) : ListGraph α :=
  let H := (G.addNode a).addNode b
  if (a, b) ∈ H.edges ∨ (b, a) ∈ H.edges then H
  else
    { nodes := H.nodes
      edges := H.edges ++ [(a, b)]
      nodup := H.nodup
      ends := fun e he => by
        rcases List.mem_append.mp he with he | he
        · exact H.ends e he
        · obtain rfl := List.mem_singleton.mp he
          exact ⟨mem_nodes_addNode.mpr (Or.inl (mem_nodes_addNode.mpr (Or.inr rfl))),
            mem_nodes_addNode.mpr (Or.inr rfl)⟩ }

theorem mem_nodes_addEdge {G : ListGraph α} {a b v : α} :
    v ∈ (G.addEdge a b).nodes ↔ v ∈ G.nodes ∨ v = a ∨ v = b := by
  have h : v ∈ ((G.addNode a).addNode b).nodes ↔ v ∈ G.nodes ∨ v = a ∨ v = b := by
    rw [mem_nodes_addNode, mem_nodes_addNode, or_assoc]
  unfold addEdge
  dsimp only
  split_ifs
  · exact h
  · exact h

/-- The part of a graph on a set of nodes. -/
def subgraph (G : ListGraph α) (c : Finset α) : ListGraph α where
  nodes := G.nodes.filter fun v => v ∈ c
  edges := G.edges.filter fun e => e.1 ∈ c ∧ e.2 ∈ c
  nodup := G.nodup.filter _
  ends e he := by
    obtain ⟨he, hc⟩ := List.mem_filter.mp he
    obtain ⟨hc1, hc2⟩ := of_decide_eq_true hc
    exact ⟨List.mem_filter.mpr ⟨(G.ends e he).1, decide_eq_true hc1⟩,
      List.mem_filter.mpr ⟨(G.ends e he).2, decide_eq_true hc2⟩⟩

theorem mem_nodes_subgraph {G : ListGraph α} {c : Finset α} {v : α} :
    v ∈ (G.subgraph c).nodes ↔ v ∈ G.nodes ∧ v ∈ c :=
  List.mem_filter.trans (and_congr_right fun _ => decide_eq_true_iff)

theorem adj_addEdge {G : ListGraph α} {a b x y : α} : (G.addEdge a b).toSimple.Adj x y ↔
    G.toSimple.Adj x y ∨ x ≠ y ∧ ((x = a ∧ y = b) ∨ (x = b ∧ y = a)) := by
  rw [adj_iff, adj_iff]
  unfold addEdge
  simp only [addNode_edges]
  split_ifs with hold
  · have hsymm : ∀ {u v : α}, (u = a ∧ v = b) ∨ (u = b ∧ v = a) →
        (u, v) ∈ G.edges ∨ (v, u) ∈ G.edges := by
      rintro u v (⟨rfl, rfl⟩ | ⟨rfl, rfl⟩)
      · exact hold
      · exact hold.symm
    rw [addNode_edges, addNode_edges]
    refine ⟨Or.inl, fun h => h.elim id fun hnew => ⟨hnew.1, hsymm hnew.2⟩⟩
  · rw [List.mem_append, List.mem_append, List.mem_singleton, List.mem_singleton, Prod.mk.injEq,
      Prod.mk.injEq]
    tauto

/-! ### Components -/

variable {G : ListGraph α} {c d : Finset α} {cs : List (Finset α)}

theorem adj_subgraph {a b : α} :
    (G.subgraph c).toSimple.Adj a b ↔ G.toSimple.Adj a b ∧ a ∈ c ∧ b ∈ c := by
  have hmem : ∀ u v : α, (u, v) ∈ (G.subgraph c).edges ↔ (u, v) ∈ G.edges ∧ u ∈ c ∧ v ∈ c :=
    fun u v => List.mem_filter.trans (and_congr_right fun _ => decide_eq_true_iff)
  rw [adj_iff, adj_iff, hmem, hmem]
  tauto

/-- A path from a node of a component stays there. -/
theorem IsComponents.reachable_subgraph (h : G.IsComponents cs) (hc : c ∈ cs) {v w : α}
    (hv : v ∈ c) (hvw : G.toSimple.Reachable v w) : (G.subgraph c).toSimple.Reachable v w := by
  rw [SimpleGraph.reachable_iff_reflTransGen] at hvw
  induction hvw with
  | refl => exact SimpleGraph.Reachable.refl v
  | @tail b w hvb hbw ih =>
    have hb : b ∈ c := by
      rw [← SimpleGraph.reachable_iff_reflTransGen] at hvb
      exact (h.reachable c hc v hv b).mpr hvb
    have hadj : (G.subgraph c).toSimple.Adj b w :=
      adj_subgraph.mpr ⟨hbw, hb, h.mem_of_adj hc hb hbw⟩
    exact ih.trans hadj.reachable

theorem IsComponents.isConnected (h : G.IsComponents cs) (hc : c ∈ cs) :
    (G.subgraph c).IsConnected where
  nonempty hnil := by
    obtain ⟨v, hv⟩ := h.nonempty c hc
    have hmem := mem_nodes_subgraph.mpr ⟨h.subset c hc v hv, hv⟩
    rw [hnil] at hmem
    exact List.not_mem_nil hmem
  reachable v hv w hw := by
    have hvc := (mem_nodes_subgraph.mp hv).2
    have hwc := (mem_nodes_subgraph.mp hw).2
    exact h.reachable_subgraph hc hvc ((h.reachable c hc v hvc w).mp hwc)

/-- A part of a bipartite graph is bipartite. -/
theorem isBipartite_subgraph (h : G.toSimple.IsBipartite) (c : Finset α) :
    (G.subgraph c).toSimple.IsBipartite :=
  SimpleGraph.Colorable.mono_left (fun _ _ hadj => (adj_subgraph.mp hadj).1) h

/-! ### Covers of the components -/

variable {g : Finset α → Finset α}

/-- A cover of a graph covers its parts. -/
theorem isCover_inter (h : G.IsCover d) (c : Finset α) : (G.subgraph c).IsCover (d ∩ c) := by
  intro a b hadj
  obtain ⟨hadj, ha, hb⟩ := adj_subgraph.mp hadj
  rcases h hadj with had | hbd
  · exact Or.inl (Finset.mem_coe.mpr (Finset.mem_inter.mpr ⟨had, ha⟩))
  · exact Or.inr (Finset.mem_coe.mpr (Finset.mem_inter.mpr ⟨hbd, hb⟩))

/-- Covers of the components cover the graph. -/
theorem IsComponents.exists_mem_cover (h : G.IsComponents cs)
    (hcover : ∀ c ∈ cs, (G.subgraph c).IsCover (g c)) {a b : α} (hadj : G.toSimple.Adj a b) :
    ∃ c ∈ cs, a ∈ g c ∨ b ∈ g c := by
  obtain ⟨c, hc, ha⟩ := h.total a (mem_nodes_of_adj hadj).1
  exact ⟨c, hc, hcover c hc (adj_subgraph.mpr ⟨hadj, ha, h.mem_of_adj hc ha hadj⟩)⟩

/-- Sets of nodes of the components do not meet. -/
theorem IsComponents.pairwise_disjoint (h : G.IsComponents cs)
    (hsubset : ∀ c ∈ cs, ∀ v ∈ g c, v ∈ (G.subgraph c).nodes) :
    (cs.map g).Pairwise Disjoint := by
  have hle : ∀ c ∈ cs, g c ⊆ c := fun c hc v hv => (mem_nodes_subgraph.mp (hsubset c hc v hv)).2
  refine List.pairwise_map.mpr (h.once.imp_of_mem fun {a b} ha hb hdisjoint => ?_)
  exact hdisjoint.mono (hle a ha) (hle b hb)

/-- A set has at least as many members as its parts in sets that do not meet. -/
theorem sum_card_inter_le (hdisjoint : cs.Pairwise Disjoint) (d : Finset α) :
    (cs.map fun c => (d ∩ c).card).sum ≤ d.card := by
  induction cs generalizing d with
  | nil => exact Nat.zero_le _
  | cons c cs ih =>
    obtain ⟨hc, hcs⟩ := List.pairwise_cons.mp hdisjoint
    have hrest : (cs.map fun c' => (d ∩ c').card) = cs.map fun c' => (d \ c ∩ c').card := by
      refine List.map_congr_left fun c' hc' => congrArg Finset.card ?_
      ext v
      rw [Finset.mem_inter, Finset.mem_inter, Finset.mem_sdiff]
      have hnot : v ∈ c' → v ∉ c := fun hv' hv =>
        Finset.disjoint_left.mp (hc c' hc') hv hv'
      tauto
    have hsplit := Finset.card_inter_add_card_sdiff d c
    have hle := ih hcs (d \ c)
    rw [List.map_cons, List.sum_cons, hrest]
    omega

/-- **Smallest covers of the components** have no more vertices than any cover of the graph. -/
theorem IsComponents.sum_card_le (h : G.IsComponents cs)
    (hmin : ∀ c ∈ cs, (G.subgraph c).IsMinimumCover (g c)) (hd : G.IsCover d) :
    ((cs.map g).map Finset.card).sum ≤ d.card := by
  calc ((cs.map g).map Finset.card).sum
      ≤ (cs.map fun c => (d ∩ c).card).sum := by
        rw [List.map_map]
        exact List.sum_le_sum fun c hc => (hmin c hc).least _ (isCover_inter hd c)
    _ ≤ d.card := sum_card_inter_le h.once d

end ListGraph
