import RoverSwarm.Selection.Budget

/-!
# Selection.SingleGraph — the node ids of the edges

The blocks of the included robots are as long as their numbers of poses, so different keyframes get
different node ids, below the number of all poses, as long as they are counted.  The candidates
always are.  The fixed edges are if they come through `add_fixed_edge`; `candidate_edges_to_fixed`
does not count their keyframes again, so an edge that was no candidate may have node ids in the
block of another robot.
-/

namespace RoverSwarm.Selection

open Transition

namespace AlgebraicConnectivityMaximization

variable {s s' : AlgebraicConnectivityMaximization} {inc : ℕ → Bool}

/-! ### Node ids -/

/-- The node id `rekey_edges` gives to a keyframe of a robot. -/
def nodeId (s : AlgebraicConnectivityMaximization) (inc : ℕ → Bool) (p : ℕ × ℕ) : ℕ :=
  (s.computeOffsets inc).offsets p.1 + p.2

/-- The robots and keyframes the fixed and candidate edges between included robots join. -/
def endpoints (s : AlgebraicConnectivityMaximization) (inc : ℕ → Bool) : List (ℕ × ℕ) :=
  (getIncludedEdges (s.fixedEdges ++ s.candidateEdges.values) inc).flatMap fun e =>
    [(e.robot0Id, e.robot0KeyframeId), (e.robot1Id, e.robot1KeyframeId)]

/-- The edges between included robots can be put into a single graph. -/
structure SingleGraph (s : AlgebraicConnectivityMaximization) (inc : ℕ → Bool) : Prop where
  injective : ∀ p ∈ s.endpoints inc, ∀ q ∈ s.endpoints inc,
    s.nodeId inc p = s.nodeId inc q → p = q
  bounded : ∀ p ∈ s.endpoints inc,
    s.nodeId inc p < ((List.range s.maxNbRobots).map s.nbPoses).sum

/-- A keyframe of an included robot that is counted. -/
structure InBlock (s : AlgebraicConnectivityMaximization) (inc : ℕ → Bool) (p : ℕ × ℕ) :
    Prop where
  robot : p.1 < s.maxNbRobots
  included : inc p.1 = true
  keyframe : p.2 < s.nbPoses p.1

theorem InBlock.nodeId {p : ℕ × ℕ} (h : s.InBlock inc p) :
    s.nodeId inc p = s.blockStart inc p.1 + p.2 := by
  unfold AlgebraicConnectivityMaximization.nodeId
  rw [computeOffsets_offsets h.robot h.included]

theorem InBlock.nodeId_lt {p : ℕ × ℕ} (h : s.InBlock inc p) :
    s.nodeId inc p < ((List.range s.maxNbRobots).map s.nbPoses).sum := by
  have hblock := blockStart_add_le (s := s) h.included h.robot
  have hsum := blockStart_le_sum s inc s.maxNbRobots
  have hkeyframe := h.keyframe
  rw [h.nodeId]
  omega

/-- Keyframes with one node id are in one block, so they are one keyframe. -/
theorem InBlock.eq_of_nodeId_eq {p q : ℕ × ℕ} (hp : s.InBlock inc p) (hq : s.InBlock inc q)
    (h : s.nodeId inc p = s.nodeId inc q) : p = q := by
  rw [hp.nodeId, hq.nodeId] at h
  have hpk := hp.keyframe
  have hqk := hq.keyframe
  rcases Nat.lt_trichotomy p.1 q.1 with hlt | heq | hgt
  · have hblock := blockStart_add_le (s := s) hp.included hlt
    omega
  · rw [heq] at h
    ext
    · exact heq
    · omega
  · have hblock := blockStart_add_le (s := s) hq.included hgt
    omega

theorem inBlock_of_mem_endpoints (hfixed : ∀ e ∈ s.fixedEdges, s.Counted e)
    (hcandidates : ∀ e ∈ s.candidateEdges.entries, s.Counted e.2) {p : ℕ × ℕ}
    (hp : p ∈ s.endpoints inc) : s.InBlock inc p := by
  obtain ⟨e, he, hpe⟩ := List.mem_flatMap.mp hp
  obtain ⟨hmem, hinc⟩ := List.mem_filter.mp he
  have hcounted : s.Counted e := by
    rcases List.mem_append.mp hmem with h | h
    · exact hfixed e h
    · obtain ⟨entry, hentry, rfl⟩ := List.mem_map.mp h
      exact hcandidates entry hentry
  rw [Bool.and_eq_true] at hinc
  rcases List.mem_cons.mp hpe with rfl | hpe
  · exact ⟨hcounted.robot0, hinc.1, hcounted.keyframe0⟩
  · obtain rfl := List.mem_singleton.mp hpe
    exact ⟨hcounted.robot1, hinc.2, hcounted.keyframe1⟩

theorem singleGraph_of_counted (hfixed : ∀ e ∈ s.fixedEdges, s.Counted e)
    (hcandidates : ∀ e ∈ s.candidateEdges.entries, s.Counted e.2) : s.SingleGraph inc where
  injective _ hp _ hq := (inBlock_of_mem_endpoints hfixed hcandidates hp).eq_of_nodeId_eq
    (inBlock_of_mem_endpoints hfixed hcandidates hq)
  bounded _ hp := (inBlock_of_mem_endpoints hfixed hcandidates hp).nodeId_lt

/-! ### The fixed edges over a run -/

/-- The edges that become fixed join keyframes that are counted already. -/
def CountedStep (s : AlgebraicConnectivityMaximization) : Event → Prop
  | .candidateEdgesToFixed edges => ∀ e ∈ edges,
    e.robot0KeyframeId < s.nbPoses e.robot0Id ∧ e.robot1KeyframeId < s.nbPoses e.robot1Id
  | _ => True

instance (s : AlgebraicConnectivityMaximization) : DecidablePred s.CountedStep
  | .candidateEdgesToFixed edges => inferInstanceAs (Decidable (∀ e ∈ edges,
    e.robot0KeyframeId < s.nbPoses e.robot0Id ∧ e.robot1KeyframeId < s.nbPoses e.robot1Id))
  | .addMatch _ | .addFixedEdge _ | .removeCandidateEdges _ | .selectCandidates _ _ _ _ =>
    isTrue trivial

/-- `s'` has the fixed edges `new` beside those of `s`, and forgets no poses. -/
structure AddsFixed (s s' : AlgebraicConnectivityMaximization) (new : List EdgeInterRobot) :
    Prop where
  maxNbRobots : s'.maxNbRobots = s.maxNbRobots
  fixedEdges : s'.fixedEdges = s.fixedEdges ++ new
  nbPoses : ∀ r, s.nbPoses r ≤ s'.nbPoses r

theorem AddsFixed.fixedCounted {new : List EdgeInterRobot} (h : AddsFixed s s' new)
    (hfixed : ∀ e ∈ s.fixedEdges, s.Counted e) (hnew : ∀ e ∈ new, s'.Counted e) :
    ∀ e ∈ s'.fixedEdges, s'.Counted e := by
  intro e he
  rw [h.fixedEdges] at he
  rcases List.mem_append.mp he with he | he
  · exact (hfixed e he).mono h.maxNbRobots h.nbPoses
  · exact hnew e he

theorem addMatch_addsFixed (s : AlgebraicConnectivityMaximization) (m : EdgeInterRobot) :
    AddsFixed s (s.addMatch m) [] := by
  have hadd : AddsFixed s (s.addCandidateEdge m) [] := by
    unfold addCandidateEdge
    split_ifs
    · exact ⟨rfl, (List.append_nil _).symm, fun _ => le_rfl⟩
    · exact ⟨rfl, (List.append_nil _).symm, le_updateNbPoses _ m⟩
  unfold addMatch
  dsimp only
  split
  · split_ifs
    · exact hadd
    · exact ⟨rfl, (List.append_nil _).symm, fun _ => le_rfl⟩
  · exact hadd

theorem addFixedEdge_addsFixed (s : AlgebraicConnectivityMaximization) (e : EdgeInterRobot) :
    AddsFixed s (s.addFixedEdge e) [e] := by
  refine ⟨(addFixedEdge_extends s e).maxNbRobots, ?_, (addFixedEdge_extends s e).nbPoses⟩
  unfold addFixedEdge updateInitialFixedEdgeExists
  dsimp only
  split_ifs
  · rfl
  · rfl

theorem foldl_updateInitialFixedEdgeExists_fixedEdges (edges : List EdgeInterRobot)
    (s : AlgebraicConnectivityMaximization) :
    (edges.foldl updateInitialFixedEdgeExists s).fixedEdges = s.fixedEdges := by
  induction edges generalizing s with
  | nil => rfl
  | cons e edges ih =>
    rw [List.foldl_cons, ih]
    unfold updateInitialFixedEdgeExists
    split_ifs
    · rfl
    · rfl

theorem candidateEdgesToFixed_addsFixed (s : AlgebraicConnectivityMaximization)
    (edges : List EdgeInterRobot) :
    AddsFixed s (s.candidateEdgesToFixed edges)
      (edges.map fun e => { e with weight := s.fixedWeight }) := by
  have hext := candidateEdgesToFixed_extends s edges
  refine ⟨hext.maxNbRobots, ?_, hext.nbPoses⟩
  exact congrArg (· ++ _) (foldl_updateInitialFixedEdgeExists_fixedEdges _ s)

theorem selectCandidates_addsFixed {env : Env} {b : ℕ} {considered : ℕ → Bool}
    {greedyInit : Bool} {edges : List EdgeInterRobot}
    (h : s.selectCandidates env b considered greedyInit = some (s', edges)) :
    AddsFixed s s' [] := by
  have hext := selectCandidates_extends h
  refine ⟨hext.maxNbRobots, ?_, hext.nbPoses⟩
  rw [List.append_nil]
  rcases selectCandidates_cases h with ⟨guess, result, heq⟩ | ⟨rfl, -⟩
  · obtain rfl : _ = s' := congrArg Prod.fst heq
    unfold returnSelection
    dsimp only
    split_ifs
    · rfl
    · rfl
  · rfl

/-- **Step lemma**, one case per method. -/
theorem fixedCounted_step {R : Params} (hvalid : Valid R s)
    (hfixed : ∀ e ∈ s.fixedEdges, s.Counted e) {e : Event} {o : List EdgeInterRobot}
    (hc : s.CountedStep e) (hstep : (selector R).step s e = some (s', o)) :
    ∀ e ∈ s'.fixedEdges, s'.Counted e := by
  have hnil : ∀ e ∈ ([] : List EdgeInterRobot), s'.Counted e :=
    fun _ he => absurd he List.not_mem_nil
  cases e with
  | addMatch m =>
    obtain ⟨-, rfl, -⟩ := selector_step_addMatch hstep
    exact (addMatch_addsFixed s m).fixedCounted hfixed hnil
  | addFixedEdge edge =>
    obtain ⟨⟨h0, h1⟩, rfl, -⟩ := selector_step_addFixedEdge hstep
    refine (addFixedEdge_addsFixed s edge).fixedCounted hfixed fun e he => ?_
    obtain rfl := List.mem_singleton.mp he
    rw [← hvalid.maxNbRobots] at h0 h1
    have hcounted : (updateNbPoses { s with fixedEdges := s.fixedEdges ++ [e] } e).Counted e :=
      updateNbPoses_counted h0 h1
    exact hcounted.of_extends (updateInitialFixedEdgeExists_extends _ e)
  | candidateEdgesToFixed edges =>
    obtain ⟨hknown, rfl, -⟩ := selector_step_candidateEdgesToFixed hstep
    have hadds := candidateEdgesToFixed_addsFixed s edges
    refine hadds.fixedCounted hfixed fun e he => ?_
    obtain ⟨edge, hedge, rfl⟩ := List.mem_map.mp he
    have hmax := hadds.maxNbRobots.trans hvalid.maxNbRobots
    exact ⟨hmax ▸ (hknown edge hedge).1, hmax ▸ (hknown edge hedge).2,
      (hc edge hedge).1.trans_le (hadds.nbPoses _), (hc edge hedge).2.trans_le (hadds.nbPoses _)⟩
  | removeCandidateEdges edges =>
    obtain ⟨rfl, -⟩ := selector_step_removeCandidateEdges hstep
    exact fun e he => (hfixed e he).of_extends (removeCandidateEdges_extends s edges)
  | selectCandidates env nb considered greedyInit =>
    exact (selectCandidates_addsFixed hstep).fixedCounted hfixed hnil

/-- **Rekeying to a single graph is sound** for every inclusion map, in every run that fixes edges
between counted keyframes only. -/
theorem singleGraph_of_countedSteps {R : Params} {tr : List (Event × List EdgeInterRobot)}
    (h : (selector R).Run CountedStep tr s) (inc : ℕ → Bool) : s.SingleGraph inc := by
  have hvalid := valid_of_reaches h.reaches
  refine singleGraph_of_counted ?_ hvalid.counted
  exact h.invariant (I := fun _ s => ∀ e ∈ s.fixedEdges, s.Counted e)
    (fun _ he => absurd he List.not_mem_nil)
    fun _ _ _ _ _ hr ih hc hs => fixedCounted_step (valid_of_reaches hr.reaches) ih hc hs

/-- A match between the first keyframes of two robots, and a loop closure. -/
def matchThenFixed (closure : EdgeInterRobot) : List Event :=
  [.addMatch ⟨0, 0, 1, 0, 9 / 10⟩, .candidateEdgesToFixed [closure]]

theorem singleGraph_of_countedSteps_match :
    ∃ tr s, (selector two).Reaches tr s ∧ s.fixedEdges.length = 1 ∧
      s.SingleGraph fun _ => true := by
  obtain ⟨tr, s, hr, hlen⟩ :=
    Machine.exists_run_of_exec (M := selector two) (C := CountedStep)
      (matchThenFixed ⟨0, 0, 1, 0, 9 / 10⟩) (p := fun r => r.2.fixedEdges.length = 1)
      (by decide +kernel) (by decide +kernel)
  exact ⟨tr, s, hr.reaches, hlen, singleGraph_of_countedSteps hr _⟩

/-- The loop closure is between keyframe 1 of robot 0, which no match has named, and keyframe 0 of
robot 1: both have the node id 1. -/
theorem not_singleGraph :
    ¬ ∀ (R : Params) (tr : List (Event × List EdgeInterRobot))
      (s : AlgebraicConnectivityMaximization), (selector R).Reaches tr s →
      ∀ inc, s.SingleGraph inc := by
  intro h
  obtain ⟨tr, s, hr, hp, hq, heq⟩ :=
    Machine.exists_reaches_of_exec (M := selector two) (matchThenFixed ⟨0, 1, 1, 0, 9 / 10⟩)
      (p := fun r => (0, 1) ∈ r.2.endpoints (fun _ => true) ∧
        (1, 0) ∈ r.2.endpoints (fun _ => true) ∧
        r.2.nodeId (fun _ => true) (0, 1) = r.2.nodeId (fun _ => true) (1, 0))
      (by decide +kernel)
  exact absurd ((h two tr s hr _).injective _ hp _ hq heq) (by decide)

end AlgebraicConnectivityMaximization

end RoverSwarm.Selection
