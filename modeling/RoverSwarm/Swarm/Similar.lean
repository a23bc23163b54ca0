import RoverSwarm.Selection.Disconnections
import RoverSwarm.Selection.Once
import RoverSwarm.Swarm.System

/-!
# Swarm.Similar — what the messages of the swarm are about

Everything that is stored, buffered or sent is about keyframes that were published, and every pair
of keyframes that is matched is similar enough.  Both are statements about the messages published
so far, of which there are only ever more, so what is kept in a state stays good as it is
(`Similar.mono` and its likes), and only what is new has to be looked at.
-/

namespace RoverSwarm.Swarm

open Exchange LidarHandler Pgo Selection AlgebraicConnectivityMaximization

variable {K Cloud P D T Gps : Type*} [Arithmetic K] {S : Setup K Cloud P D T}
  {ms ms' : List (Message P D T)} {r : ℕ}

/-! ### Keyframes and pairs of them -/

/-- Keyframe `v` was published, and `d` is the descriptor of its cloud. -/
def Keyframe (S : Setup K Cloud P D T) (ms : List (Message P D T)) (v : Vertex) (d : D) : Prop :=
  ∃ pointcloud, .keyframeData v.1 v.2 pointcloud ∈ ms ∧ S.computeEmbedding pointcloud = d

/-- Keyframes of two robots, similar enough in one of the two orders. -/
structure Similar (S : Setup K Cloud P D T) (ms : List (Message P D T)) (v w : Vertex) : Prop where
  robot0 : v.1 < S.nbRobots
  robot1 : w.1 < S.nbRobots
  ne : v.1 ≠ w.1
  similar : ∃ d d', Keyframe S ms v d ∧ Keyframe S ms w d' ∧
    (S.detection.similarityThreshold ≤ S.matcher.similarity d d' ∨
      S.detection.similarityThreshold ≤ S.matcher.similarity d' d)

/-- Keyframes of one robot, far enough and similar enough. -/
def LocallySimilar (S : Setup K Cloud P D T) (ms : List (Message P D T)) (r kf kf' : ℕ) : Prop :=
  ∃ d d', Keyframe S ms (r, kf) d ∧ Keyframe S ms (r, kf') d' ∧
    S.detection.similarityThreshold ≤ S.matcher.similarity d d' ∧
    S.detection.intraLoopMinInbetweenKeyframes ≤ |(kf' : ℤ) - kf|

def SimilarEdge (S : Setup K Cloud P D T) (ms : List (Message P D T)) (e : EdgeInterRobot) : Prop :=
  Similar S ms (edgeVertices e).1 (edgeVertices e).2

theorem Keyframe.mono {v : Vertex} {d : D} (h : Keyframe S ms v d) (hsub : ms ⊆ ms') :
    Keyframe S ms' v d := by
  obtain ⟨pointcloud, hmem, hd⟩ := h
  exact ⟨pointcloud, hsub hmem, hd⟩

theorem Similar.mono {v w : Vertex} (h : Similar S ms v w) (hsub : ms ⊆ ms') :
    Similar S ms' v w := by
  obtain ⟨d, d', hv, hw, hsim⟩ := h.similar
  exact ⟨h.robot0, h.robot1, h.ne, d, d', hv.mono hsub, hw.mono hsub, hsim⟩

theorem Similar.symm {v w : Vertex} (h : Similar S ms v w) : Similar S ms w v := by
  obtain ⟨d, d', hv, hw, hsim⟩ := h.similar
  exact ⟨h.robot1, h.robot0, h.ne.symm, d', d, hw, hv, hsim.symm⟩

theorem LocallySimilar.mono {kf kf' : ℕ} (h : LocallySimilar S ms r kf kf') (hsub : ms ⊆ ms') :
    LocallySimilar S ms' r kf kf' := by
  obtain ⟨d, d', hv, hw, hrest⟩ := h
  exact ⟨d, d', hv.mono hsub, hw.mono hsub, hrest⟩

/-- The descriptor is the one of a keyframe of a robot. -/
structure DescriptorOk (S : Setup K Cloud P D T) (ms : List (Message P D T))
    (d : GlobalDescriptor D) : Prop where
  robotId : d.robotId < S.nbRobots
  keyframe : Keyframe S ms (d.robotId, d.keyframeId) d.descriptor

theorem DescriptorOk.mono {d : GlobalDescriptor D} (h : DescriptorOk S ms d) (hsub : ms ⊆ ms') :
    DescriptorOk S ms' d := ⟨h.robotId, h.keyframe.mono hsub⟩

/-! ### The selector -/

/-- The selector of robot `r`; its candidates are similar enough. -/
structure SelectorOk (S : Setup K Cloud P D T) (ms : List (Message P D T)) (r : ℕ)
    (s : AlgebraicConnectivityMaximization) : Prop where
  valid : Valid (S.selectionOf r) s
  fresh : Fresh s
  robotId : s.robotId = r
  similar : ∀ c ∈ s.candidateEdges.entries, SimilarEdge S ms c.2

theorem SelectorOk.mono {s : AlgebraicConnectivityMaximization} (h : SelectorOk S ms r s)
    (hsub : ms ⊆ ms') : SelectorOk S ms' r s :=
  ⟨h.valid, h.fresh, h.robotId, fun c hc => (h.similar c hc).mono hsub⟩

theorem addMatch_robotId (s : AlgebraicConnectivityMaximization) (m : EdgeInterRobot) :
    (s.addMatch m).robotId = s.robotId := by
  have hadd : (s.addCandidateEdge m).robotId = s.robotId := by
    unfold addCandidateEdge
    split_ifs <;> rfl
  unfold addMatch
  dsimp only
  split
  · split_ifs
    · exact hadd
    · rfl
  · exact hadd

theorem mem_addMatch {s : AlgebraicConnectivityMaximization} {m : EdgeInterRobot}
    {c : EdgeKey × EdgeInterRobot} (hc : c ∈ (s.addMatch m).candidateEdges.entries) :
    c.2 = m ∨ c ∈ s.candidateEdges.entries := by
  have hadd : c ∈ (s.addCandidateEdge m).candidateEdges.entries →
      c.2 = m ∨ c ∈ s.candidateEdges.entries := by
    intro hc
    unfold addCandidateEdge at hc
    split_ifs at hc
    · exact Or.inr hc
    · exact (Dict.mem_set hc).imp_left fun heq => congrArg Prod.snd heq
  unfold addMatch at hc
  dsimp only at hc
  split at hc
  · split_ifs at hc
    · exact hadd hc
    · exact Or.inr hc
  · exact hadd hc

/-- The selector knows every robot of the swarm. -/
theorem SelectorOk.knows {s : AlgebraicConnectivityMaximization} (h : SelectorOk S ms r s)
    {m : EdgeInterRobot} (hm : SimilarEdge S ms m) : s.Knows m := by
  have hmax : s.maxNbRobots = S.nbRobots := h.valid.maxNbRobots
  unfold Knows
  rw [hmax]
  exact ⟨hm.robot0, hm.robot1⟩

theorem SelectorOk.addMatch {s : AlgebraicConnectivityMaximization} (h : SelectorOk S ms r s)
    {m : EdgeInterRobot} (hm : SimilarEdge S ms m) : SelectorOk S ms r (s.addMatch m) where
  valid := h.valid.step (e := .addMatch m) (o := [])
    (if_pos (show m.Known (S.selectionOf r) from ⟨hm.robot0, hm.robot1⟩))
  fresh := addMatch_fresh h.fresh hm.ne
  robotId := (addMatch_robotId s m).trans h.robotId
  similar c hc := by
    rcases mem_addMatch hc with rfl | hc
    · exact hm
    · exact h.similar c hc

theorem SelectorOk.foldl_addMatch {s : AlgebraicConnectivityMaximization} (h : SelectorOk S ms r s)
    {edges : List EdgeInterRobot} (hedges : ∀ m ∈ edges, SimilarEdge S ms m) :
    SelectorOk S ms r (edges.foldl AlgebraicConnectivityMaximization.addMatch s) := by
  induction edges generalizing s with
  | nil => exact h
  | cons m edges ih =>
    obtain ⟨hm, hrest⟩ := List.forall_mem_cons.mp hedges
    exact ih (h.addMatch hm) hrest

/-- Matches of robots of the swarm are added without a failure. -/
theorem SelectorOk.foldlM_tryAddMatch {s : AlgebraicConnectivityMaximization}
    (h : SelectorOk S ms r s) {edges : List EdgeInterRobot}
    (hedges : ∀ m ∈ edges, SimilarEdge S ms m) :
    ∃ s', edges.foldlM tryAddMatch s = some s' ∧ SelectorOk S ms r s' :=
  Walk.exists_foldlM (SelectorOk S ms r)
    (fun m hm _ h => ⟨_, tryAddMatch_of_knows (h.knows (hedges m hm)), h.addMatch (hedges m hm)⟩) h

/-- A step that adds no candidates and forgets no poses. -/
theorem SelectorOk.of_considers {s s' : AlgebraicConnectivityMaximization}
    {edges : List EdgeInterRobot} (h : SelectorOk S ms r s) (hext : Extends s s')
    (hconsiders : Considers s s' edges) (hid : s'.robotId = s.robotId) :
    SelectorOk S ms r s' where
  valid := h.valid.of_extends hext
  fresh := hconsiders.fresh h.valid.keys h.fresh
  robotId := hid.trans h.robotId
  similar c hc := h.similar c (hext.candidates hc)

theorem foldl_updateInitialFixedEdgeExists_robotId (edges : List EdgeInterRobot)
    (s : AlgebraicConnectivityMaximization) :
    (edges.foldl updateInitialFixedEdgeExists s).robotId = s.robotId := by
  induction edges generalizing s with
  | nil => rfl
  | cons e edges ih =>
    rw [List.foldl_cons, ih]
    unfold updateInitialFixedEdgeExists
    split_ifs <;> rfl

/-- What is done with a loop closure: its two keyframes are considered. -/
theorem receiveInterRobotLoopClosure_considers (s : AlgebraicConnectivityMaximization)
    (msg : InterRobotLoopClosure T) :
    Considers s (s.receiveInterRobotLoopClosure msg) [s.interRobotLoopClosureMsgToEdge msg] := by
  unfold AlgebraicConnectivityMaximization.receiveInterRobotLoopClosure
  split_ifs
  · exact candidateEdgesToFixed_considers s [s.interRobotLoopClosureMsgToEdge msg]
  · exact removeCandidateEdges_considers s _

theorem SelectorOk.receiveInterRobotLoopClosure {s : AlgebraicConnectivityMaximization}
    (h : SelectorOk S ms r s) (msg : InterRobotLoopClosure T) :
    SelectorOk S ms r (s.receiveInterRobotLoopClosure msg) := by
  refine h.of_considers ?_ (receiveInterRobotLoopClosure_considers s msg) ?_
  · unfold AlgebraicConnectivityMaximization.receiveInterRobotLoopClosure
    split_ifs
    · exact candidateEdgesToFixed_extends s _
    · exact removeCandidateEdges_extends s _
  · unfold AlgebraicConnectivityMaximization.receiveInterRobotLoopClosure
    split_ifs
    · exact foldl_updateInitialFixedEdgeExists_robotId _ s
    · rfl

theorem selectCandidates_robotId {s s' : AlgebraicConnectivityMaximization} {env : Env} {b : ℕ}
    {considered : ℕ → Bool} {greedyInit : Bool} {edges : List EdgeInterRobot}
    (hs : s.selectCandidates env b considered greedyInit = some (s', edges)) :
    s'.robotId = s.robotId := by
  rw [selectCandidates_eq] at hs
  split_ifs at hs
  · obtain ⟨v, -, heq⟩ := Option.map_eq_some_iff.mp hs
    obtain ⟨rfl, -⟩ := Prod.mk.inj heq
    show (if _ then _ else _ : AlgebraicConnectivityMaximization).robotId = s.robotId
    split_ifs <;> rfl
  · obtain ⟨rfl, -⟩ := Prod.mk.inj (Option.some.inj hs)
    rfl

/-- A selected edge is a candidate up to its weight, between robots that are considered. -/
theorem mem_selectCandidates {R : Selection.Params} {s s' : AlgebraicConnectivityMaximization}
    (h : Valid R s) {env : Env} {b : ℕ} {considered : ℕ → Bool} {greedyInit : Bool}
    {edges : List EdgeInterRobot}
    (hs : s.selectCandidates env b considered greedyInit = some (s', edges))
    {e : EdgeInterRobot} (he : e ∈ edges) :
    (∃ c ∈ s.candidateEdges.entries, ∃ w, e = { c.2 with weight := w }) ∧
      s.checkGraphDisconnections considered e.robot0Id = true ∧
      s.checkGraphDisconnections considered e.robot1Id = true := by
  rw [selectCandidates_eq] at hs
  split_ifs at hs
  · obtain ⟨v, -, heq⟩ := Option.map_eq_some_iff.mp hs
    have hedges := congrArg Prod.snd heq
    rw [returnSelection_edges] at hedges
    rw [show edges = _ from hedges.symm] at he
    obtain ⟨i, -, hi⟩ := List.mem_filterMap.mp he
    obtain ⟨w, hw⟩ := recover_guess h (s.checkGraphDisconnections considered) env greedyInit _ i
    rw [hw] at hi
    obtain ⟨c, hc, rfl⟩ := Option.map_eq_some_iff.mp hi
    have hc := List.mem_of_getElem? hc
    obtain ⟨x, hx, rfl⟩ := List.mem_map.mp (List.mem_filter.mp hc).1
    exact ⟨⟨x, hx, w, rfl⟩, (includedCandidates_counted h hc).2⟩
  · obtain ⟨-, rfl⟩ := Prod.mk.inj (Option.some.inj hs)
    exact absurd he List.not_mem_nil

/-- What is selected is similar enough, and between robots that are in range. -/
theorem SelectorOk.selectCandidates {s s' : AlgebraicConnectivityMaximization}
    (h : SelectorOk S ms r s) {env : Env} {b : ℕ} {considered : ℕ → Bool} {greedyInit : Bool}
    {edges : List EdgeInterRobot}
    (hs : s.selectCandidates env b considered greedyInit = some (s', edges)) :
    SelectorOk S ms r s' ∧ ∀ e ∈ edges, SimilarEdge S ms e ∧
      (e.robot0Id = r ∨ considered e.robot0Id = true) ∧
      (e.robot1Id = r ∨ considered e.robot1Id = true) := by
  obtain ⟨hconsiders, -⟩ := selectCandidates_considers h.valid hs
  refine ⟨h.of_considers (selectCandidates_extends hs) hconsiders (selectCandidates_robotId hs),
    fun e he => ?_⟩
  obtain ⟨⟨c, hc, w, rfl⟩, h0, h1⟩ := mem_selectCandidates h.valid hs he
  rw [checkGraphDisconnections_iff, h.robotId] at h0 h1
  exact ⟨h.similar c hc, h0.imp_right And.left, h1.imp_right And.left⟩

end RoverSwarm.Swarm
