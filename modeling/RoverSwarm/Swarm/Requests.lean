import RoverSwarm.Swarm.Keyframes

/-!
# Swarm.Requests — what the broker asks for

Every vertex of the broker's choice is an end of a selected edge, so it is in the dictionary of
`edge_list_to_vertices`, and of every selected edge one end is asked for together with the other.
-/

namespace RoverSwarm.Swarm

open Exchange LidarHandler Selection Broker GlobalDescriptorLoopClosureDetection

variable {K Cloud P D T Gps : Type*} [Arithmetic K] {S : Setup K Cloud P D T}
  {ms : List (Message P D T)} {r : ℕ}

/-! ### The choice -/

/-- The broker comes to a choice, in either way, also about nothing. -/
theorem exists_brokerage (nx : GraphAlgorithms Vertex) (randint : ℕ → Bool)
    {robotsInvolved : List ℕ} {edges : List EdgeInterRobot}
    (h : edges = [] ∨ Between robotsInvolved edges) (useVertexCover : Bool) :
    ∃ sets, (Broker.init edges robotsInvolved).brokerage nx randint useVertexCover = some sets ∧
      IsChoice edges sets := by
  rcases h with rfl | h
  · exact ⟨[], rfl, List.Pairwise.nil, fun _ hk => absurd hk List.not_mem_nil,
      fun _ he => absurd he List.not_mem_nil⟩
  have hmulti : (Broker.init edges robotsInvolved).isMultiRobotGraph = true := by rw [h.init_eq]
  unfold brokerage
  rw [if_pos hmulti]
  cases useVertexCover with
  | false => exact ⟨_, rfl, (isChoice_simpleDialog (Broker.init edges robotsInvolved) randint).1⟩
  | true =>
    rw [if_pos rfl]
    by_cases htwo : (robotsOf edges).card = 2
    · obtain ⟨g, hsome, hminimum⟩ := h.exists_minimumCovers nx htwo
      exact ⟨_, hsome, h.isChoice_map (fun c hc => (hminimum c hc).subset)
        fun c hc => (hminimum c hc).cover⟩
    · obtain ⟨g, hsome, hcovers⟩ := h.exists_covers nx htwo
      exact ⟨_, hsome, h.isChoice_map (fun c hc => (hcovers c hc).1) fun c hc => (hcovers c hc).2⟩

/-! ### The requests -/

/-- `v` and `w` are the two ends of an edge. -/
def IsEnds (e : EdgeInterRobot) (v w : Vertex) : Prop :=
  (v = (edgeVertices e).1 ∧ w = (edgeVertices e).2) ∨
    (v = (edgeVertices e).2 ∧ w = (edgeVertices e).1)

/-- A request asks for the one end of an edge, to be registered with the other. -/
def Asks (x : ℕ × LocalDescriptorsRequest) (e : EdgeInterRobot) : Prop :=
  ∃ w ∈ x.2.matchesRobotAndKeyframeId, IsEnds e (x.1, x.2.keyframeId) w

theorem SimilarEdge.of_isEnds {e : EdgeInterRobot} {v w : Vertex} (h : SimilarEdge S ms e)
    (hends : IsEnds e v w) : Similar S ms v w := by
  rcases hends with ⟨rfl, rfl⟩ | ⟨rfl, rfl⟩
  · exact h
  · exact h.symm

/-- No vertex of the dictionary is without another end. -/
theorem ne_nil_of_get? {selection : List EdgeInterRobot} {v : Vertex} {others : List Vertex}
    (hget : (edgeListToVertices selection).get? v = some others) : others ≠ [] := by
  induction selection using List.reverseRecOn generalizing others with
  | nil => exact absurd (show none = some others from hget) (by simp)
  | append_singleton selection e ih =>
    unfold edgeListToVertices at hget
    rw [List.foldl_append, List.foldl_cons, List.foldl_nil, verticesStep, get?_appendAt,
      get?_appendAt, get?_appendAt] at hget
    split_ifs at hget
    · rw [← Option.some.inj hget]
      simp
    · rw [← Option.some.inj hget]
      simp
    · rw [← Option.some.inj hget]
      simp
    · exact ih hget

/-- What is asked for is an end of a selected edge, with other ends of such. -/
theorem asked_of_get? {selection : List EdgeInterRobot}
    (hall : ∀ e ∈ selection, SimilarEdge S ms e) {v : Vertex} {others : List Vertex}
    (hget : (edgeListToVertices selection).get? v = some others) : Asked S ms v others := by
  have hsimilar : ∀ w ∈ others, Similar S ms v w := by
    intro w hw
    obtain ⟨e, he, hends⟩ := exists_edge_of_get? hget hw
    exact (hall e he).of_isEnds hends
  obtain ⟨w, hw⟩ := List.exists_mem_of_ne_nil others (ne_nil_of_get? hget)
  obtain ⟨d, -, ⟨pointcloud, hmem, -⟩, -⟩ := (hsimilar w hw).similar
  exact ⟨⟨pointcloud, hmem⟩, hsimilar⟩

theorem asked_of_mem_requests {p : DetectionParams} {selection : List EdgeInterRobot}
    (hall : ∀ e ∈ selection, SimilarEdge S ms e) {order : SetOrder Vertex}
    {sets : List (Finset Vertex)} {requests : List (ℕ × LocalDescriptorsRequest)}
    (hrequests : localDescriptorsRequests p order (edgeListToVertices selection) sets =
      some requests)
    {x : ℕ × LocalDescriptorsRequest} (hx : x ∈ requests) :
    Asked S ms (x.1, x.2.keyframeId) x.2.matchesRobotAndKeyframeId := by
  obtain ⟨v, -, hv⟩ := Walk.mem_of_mapM hrequests hx
  obtain ⟨others, hget, hlt⟩ := Option.bind_eq_some_iff.mp hv
  obtain rfl := Option.some.inj (Option.ite_none_right_eq_some.mp hlt).2
  exact asked_of_get? hall hget

/-- **The lookups do not raise**, and every selected edge is asked for. -/
theorem exists_localDescriptorsRequests {p : DetectionParams} (order : SetOrder Vertex)
    {selection : List EdgeInterRobot} {sets : List (Finset Vertex)} (h : IsChoice selection sets)
    (hknown : ∀ e ∈ selection, e.robot0Id < p.maxNbRobots ∧ e.robot1Id < p.maxNbRobots) :
    ∃ requests, localDescriptorsRequests p order (edgeListToVertices selection) sets =
        some requests ∧ ∀ e ∈ selection, ∃ x ∈ requests, Asks x e := by
  cases hrequests : localDescriptorsRequests p order (edgeListToVertices selection) sets with
  | none =>
    obtain ⟨v, hv, hnone⟩ := Walk.exists_of_mapM_eq_none hrequests
    obtain ⟨k, hk, hvk⟩ := List.mem_flatMap.mp hv
    obtain ⟨e, he, hend⟩ := h.ends k hk v ((order.mem k v).mp hvk)
    have hget : ∃ others, (edgeListToVertices selection).get? v = some others ∧
        v.1 < p.maxNbRobots := by
      rcases hend with rfl | rfl
      · obtain ⟨others, hget, -⟩ := mem_edgeListToVertices he (Or.inl ⟨rfl, rfl⟩)
        exact ⟨others, hget, (hknown e he).1⟩
      · obtain ⟨others, hget, -⟩ := mem_edgeListToVertices he (Or.inr ⟨rfl, rfl⟩)
        exact ⟨others, hget, (hknown e he).2⟩
    obtain ⟨others, hget, hlt⟩ := hget
    rw [hget, Option.bind_some, if_pos hlt] at hnone
    exact absurd hnone (by simp)
  | some requests =>
    refine ⟨requests, rfl, fun e he => ?_⟩
    have hask : ∀ v w, IsEnds e v w → (∃ k ∈ sets, v ∈ k) → ∃ x ∈ requests, Asks x e := by
      rintro v w hends ⟨k, hk, hv⟩
      have hmem : v ∈ sets.flatMap order.toList :=
        List.mem_flatMap.mpr ⟨k, hk, (order.mem k v).mpr hv⟩
      obtain ⟨x, hx, hvx⟩ := Walk.exists_mem_of_mapM hrequests hmem
      obtain ⟨others, hget, hlt⟩ := Option.bind_eq_some_iff.mp hvx
      obtain rfl := Option.some.inj (Option.ite_none_right_eq_some.mp hlt).2
      obtain ⟨others', hget', hw⟩ := mem_edgeListToVertices he hends
      obtain rfl := Option.some.inj (hget.symm.trans hget')
      exact ⟨_, hx, w, hw, hends⟩
    obtain ⟨k, hk, hcover⟩ := h.covers e he
    rcases hcover with hv | hv
    · exact hask _ _ (Or.inl ⟨rfl, rfl⟩) ⟨k, hk, hv⟩
    · exact hask _ _ (Or.inr ⟨rfl, rfl⟩) ⟨k, hk, hv⟩

/-! ### `detect_inter` -/

section DetectInter

variable {g : GlobalDescriptorLoopClosureDetection S.matcher} {env : DetectEnv}

/-- Robot `r` has somebody in range, and is their broker. -/
def IsBroker (g : GlobalDescriptorLoopClosureDetection S.matcher) (env : DetectEnv) : Prop :=
  0 < (g.neighborManager.checkNeighborsInRange env.now).2.length ∧
    g.neighborManager.localRobotIsBroker env.now' = true

instance : Decidable (IsBroker g env) :=
  inferInstanceAs (Decidable (0 < (g.neighborManager.checkNeighborsInRange env.now).2.length ∧
    g.neighborManager.localRobotIsBroker env.now' = true))

/-- `select_candidates`, as the broker calls it. -/
def selected (S : Setup K Cloud P D T) (g : GlobalDescriptorLoopClosureDetection S.matcher)
    (env : DetectEnv) : Option (AlgebraicConnectivityMaximization × List EdgeInterRobot) :=
  g.lcm.candidateSelector.selectCandidates env.selection S.detection.interRobotLoopClosureBudget
    (g.neighborManager.checkNeighborsInRange env.now).1 true

/-- What is selected is between robots in range. -/
theorem between_selected (h : DetectorOk S ms r g) {s : AlgebraicConnectivityMaximization}
    {selection : List EdgeInterRobot} (hs : selected S g env = some (s, selection)) :
    selection = [] ∨ Between (g.neighborManager.checkNeighborsInRange env.now).2 selection := by
  obtain ⟨-, hall⟩ := h.selector.selectCandidates hs
  have hinRange : ∀ i, i < S.nbRobots → (i = r ∨
      (g.neighborManager.checkNeighborsInRange env.now).1 i = true) →
        i ∈ (g.neighborManager.checkNeighborsInRange env.now).2 := by
    intro i hi hrange
    refine List.mem_filter.mpr ⟨List.mem_range.mpr (h.maxNbRobots ▸ hi), ?_⟩
    rcases hrange with rfl | hrange
    · simp [h.robotId]
    · exact hrange
  by_cases hnil : selection = []
  · exact Or.inl hnil
  · refine Or.inr ⟨hnil, fun e he => (hall e he).1.ne, fun e he => ?_⟩
    obtain ⟨hsimilar, h0, h1⟩ := hall e he
    exact ⟨hinRange _ hsimilar.robot0 h0, hinRange _ hsimilar.robot1 h1⟩

/-- **The broker raises only if the selection does**, and asks for every selected edge. -/
theorem DetectorOk.exists_requests (h : DetectorOk S ms r g) (hbroker : IsBroker g env)
    {s : AlgebraicConnectivityMaximization} {selection : List EdgeInterRobot}
    (hs : selected S g env = some (s, selection)) :
    ∃ requests, g.detectInter (S.detectionOf r) S.nx S.order env =
        some (g.withSelector s, selection, requests) ∧
      ∀ e ∈ selection, ∃ x ∈ requests, Asks x e := by
  obtain ⟨sets, hsets, hchoice⟩ := exists_brokerage S.nx env.randint (between_selected h hs)
    (S.detectionOf r).useVertexCoverSelection
  obtain ⟨-, hall⟩ := h.selector.selectCandidates hs
  obtain ⟨requests, hrequests, hasks⟩ := exists_localDescriptorsRequests (p := S.detectionOf r)
    S.order hchoice fun e he => ⟨(hall e he).1.robot0, (hall e he).1.robot1⟩
  refine ⟨requests, ?_, hasks⟩
  obtain ⟨hpos, hown⟩ := hbroker
  have hselect : g.lcm.candidateSelector.selectCandidates env.selection
      (S.detectionOf r).interRobotLoopClosureBudget
      (g.neighborManager.checkNeighborsInRange env.now).1 true = some (s, selection) := hs
  unfold GlobalDescriptorLoopClosureDetection.detectInter
  dsimp only
  rw [if_pos ⟨hpos, hown⟩, hselect, Option.bind_some]
  dsimp only
  rw [hsets, Option.bind_some, hrequests]
  rfl

theorem DetectorOk.detectInter (h : DetectorOk S ms r g)
    {g' : GlobalDescriptorLoopClosureDetection S.matcher} {selection : List EdgeInterRobot}
    {requests : List (ℕ × LocalDescriptorsRequest)}
    (hd : g.detectInter (S.detectionOf r) S.nx S.order env = some (g', selection, requests)) :
    DetectorOk S ms r g' ∧
      ∀ x ∈ requests, Asked S ms (x.1, x.2.keyframeId) x.2.matchesRobotAndKeyframeId := by
  unfold GlobalDescriptorLoopClosureDetection.detectInter at hd
  dsimp only at hd
  split_ifs at hd with hbroker
  · obtain ⟨⟨s, selection'⟩, hs, hd⟩ := Option.bind_eq_some_iff.mp hd
    obtain ⟨sets, -, hd⟩ := Option.bind_eq_some_iff.mp hd
    obtain ⟨requests', hrequests, hresult⟩ := Option.map_eq_some_iff.mp hd
    obtain ⟨rfl, hrest⟩ := Prod.mk.inj hresult
    obtain ⟨rfl, rfl⟩ := Prod.mk.inj hrest
    obtain ⟨hselector, hall⟩ := h.selector.selectCandidates hs
    exact ⟨h.withSelector hselector,
      fun x hx => asked_of_mem_requests (fun e he => (hall e he).1) hrequests hx⟩
  · obtain ⟨rfl, hrest⟩ := Prod.mk.inj (Option.some.inj hd)
    obtain ⟨-, rfl⟩ := Prod.mk.inj hrest
    exact ⟨h, fun _ hx => absurd hx List.not_mem_nil⟩

end DetectInter

end RoverSwarm.Swarm
