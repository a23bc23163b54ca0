import RoverSwarm.Broker
import RoverSwarm.Exchange.Matches
import RoverSwarm.Matching.Sparse
import RoverSwarm.Selection.FixedEdges
import RoverSwarm.Swarm.LocalDescriptors

/-!
# Swarm.Detection — `GlobalDescriptorLoopClosureDetection`

The node of a robot that looks for loop closures: what it does with its own keyframes, with the
descriptors, matches and loop closures of the other robots, and, as the broker of its neighbors,
which local descriptors it asks for.  Its parts are modelled elsewhere; here they share one state.
A callback is `none` where one of its lookups raises.  The embedding of a point cloud is a
parameter, and the logs are left out.
-/

namespace RoverSwarm

open Exchange LidarHandler Pgo Selection

/-- The parameters that are read. -/
structure DetectionParams extends LoopClosureParams where
  enableIntraRobotLoopClosures : Bool
  detectionPublicationMaxElemsPerMsg : ℕ
  interRobotLoopClosureBudget : ℕ
  useVertexCoverSelection : Bool

structure GlobalDescriptorLoopClosureDetection {D : Type*} (M : Matcher D) where
  lcm : LoopClosureSparseMatching M
  neighborManager : NeighborManager
  globalDescriptorsBuffer : SortedDict ℕ (GlobalDescriptor D) := ∅
  interRobotMatchesBuffer : SortedDict ℕ EdgeInterRobot := ∅
  nbInterRobotMatches : ℕ := 0

/-- The order in which a set is walked. -/
structure SetOrder (α : Type*) where
  toList : Finset α → List α
  mem : ∀ (k : Finset α) (x : α), x ∈ toList k ↔ x ∈ k
  nodup : ∀ k, (toList k).Nodup

/-- By the robot, and then by the keyframe. -/
def vertexLE (v w : Vertex) : Prop := v.1 < w.1 ∨ v.1 = w.1 ∧ v.2 ≤ w.2

instance : DecidableRel vertexLE := fun v w =>
  inferInstanceAs (Decidable (v.1 < w.1 ∨ v.1 = w.1 ∧ v.2 ≤ w.2))

instance : Std.Total vertexLE := ⟨fun v w => by unfold vertexLE; omega⟩

instance : IsTrans Vertex vertexLE := ⟨fun u v w => by unfold vertexLE; omega⟩

instance : Std.Antisymm vertexLE := ⟨fun v w hvw hwv => by
  unfold vertexLE at hvw hwv
  exact Prod.ext (by omega) (by omega)⟩

/-- Sets of vertices, in that order. -/
def SetOrder.byVertex : SetOrder Vertex where
  toList k := k.val.liftOn (fun l => l.insertionSort vertexLE) fun l l' h =>
    (((List.perm_insertionSort vertexLE l).trans h).trans
      (List.perm_insertionSort vertexLE l').symm).eq_of_pairwise'
        (List.pairwise_insertionSort vertexLE l) (List.pairwise_insertionSort vertexLE l')
  mem k x := by
    obtain ⟨⟨l⟩, hnodup⟩ := k
    exact List.mem_insertionSort vertexLE
  nodup k := by
    obtain ⟨⟨l⟩, hnodup⟩ := k
    exact (List.perm_insertionSort vertexLE l).nodup_iff.mpr hnodup

namespace GlobalDescriptorLoopClosureDetection

variable {D P T : Type*} {M : Matcher D} (p : DetectionParams)

/-! ### Keyframes -/

/-- The loops that number matches and put them into the buffer. -/
def storeMatches (s : GlobalDescriptorLoopClosureDetection M) (matches_ : List EdgeInterRobot) :
    GlobalDescriptorLoopClosureDetection M :=
  matches_.foldl (fun s m =>
    { s with
      interRobotMatchesBuffer := s.interRobotMatchesBuffer.set s.nbInterRobotMatches m
      nbInterRobotMatches := s.nbInterRobotMatches + 1 }) s

/-- `detect_intra`: the two keyframes of the match that is published. -/
def detectIntra (s : GlobalDescriptorLoopClosureDetection M) (embedding : D) (kfId : ℕ) :
    Option (ℕ × ℕ) :=
  if p.enableIntraRobotLoopClosures then
    (s.lcm.matchLocalLoopClosures p.toLoopClosureParams embedding kfId).map fun x => (kfId, x.1)
  else none

/-- `add_global_descriptor_to_map`. -/
def addGlobalDescriptorToMap (s : GlobalDescriptorLoopClosureDetection M) (embedding : D)
    (kfId : ℕ) : Option (GlobalDescriptorLoopClosureDetection M × Option (ℕ × ℕ)) :=
  let localMatch := s.detectIntra p embedding kfId
  (s.lcm.addLocalGlobalDescriptor p.toLoopClosureParams embedding kfId).map fun (lcm, matches_) =>
    let sender := Exchange.addGlobalDescriptorToMap
      ⟨s.neighborManager, s.globalDescriptorsBuffer⟩ embedding kfId
    let s := { s with lcm := lcm, globalDescriptorsBuffer := sender.globalDescriptorsBuffer }
    (s.storeMatches matches_, localMatch)

/-! ### Timers -/

/-- `global_descriptors_timer_callback`. -/
def globalDescriptorsTimerCallback (s : GlobalDescriptorLoopClosureDetection M)
    (now now' : ℕ → ℚ) : GlobalDescriptorLoopClosureDetection M × List (List (GlobalDescriptor D)) :=
  let (sender, msgs) := Exchange.globalDescriptorsTimerCallback
    ⟨s.neighborManager, s.globalDescriptorsBuffer⟩ p.detectionPublicationMaxElemsPerMsg now now'
  ({ s with
    neighborManager := sender.neighborManager
    globalDescriptorsBuffer := sender.globalDescriptorsBuffer }, msgs)

/-- `inter_robot_matches_timer_callback`. -/
def interRobotMatchesTimerCallback (s : GlobalDescriptorLoopClosureDetection M)
    (now now' now'' : ℕ → ℚ) : GlobalDescriptorLoopClosureDetection M × List InterRobotMatches :=
  let (sender, msgs) := Exchange.interRobotMatchesTimerCallback
    ⟨s.neighborManager, s.interRobotMatchesBuffer⟩
    p.detectionPublicationMaxElemsPerMsg now now' now''
  ({ s with
    neighborManager := sender.neighborManager
    interRobotMatchesBuffer := sender.interRobotMatchesBuffer }, msgs)

/-! ### Other robots -/

/-- The body of the loop of `global_descriptor_callback`. -/
def receiveDescriptor (s : GlobalDescriptorLoopClosureDetection M) (msg : GlobalDescriptor D) :
    Option (GlobalDescriptorLoopClosureDetection M) :=
  (s.lcm.addOtherRobotGlobalDescriptor p.toLoopClosureParams msg).map fun (lcm, m) =>
    { s with lcm := lcm }.storeMatches m.toList

/-- `global_descriptor_callback`: it raises on a message without descriptors, and for a robot that
`neighbors_monitors` does not have. -/
def globalDescriptorCallback (s : GlobalDescriptorLoopClosureDetection M)
    (descriptors : List (GlobalDescriptor D)) : Option (GlobalDescriptorLoopClosureDetection M) :=
  match descriptors.head? with
  | none => none
  | some d =>
    if d.robotId ≠ p.robotId then
      if d.robotId ∈ s.neighborManager.others then
        let (manager, unknown) := getUnknownRange s.neighborManager descriptors d.robotId
        unknown.foldlM (receiveDescriptor p) { s with neighborManager := manager }
      else none
    else some s

/-- The edge of a match that was received. -/
def matchToEdge (m : InterRobotMatch) : EdgeInterRobot :=
  ⟨m.robot0Id, m.robot0KeyframeId, m.robot1Id, m.robot1KeyframeId, m.weight⟩

/-- The same node with another selector. -/
def withSelector (s : GlobalDescriptorLoopClosureDetection M)
    (selector : AlgebraicConnectivityMaximization) : GlobalDescriptorLoopClosureDetection M :=
  { s with lcm := { s.lcm with candidateSelector := selector } }

/-- `inter_robot_matches_callback`. -/
def interRobotMatchesCallback (s : GlobalDescriptorLoopClosureDetection M)
    (msg : InterRobotMatches) : Option (GlobalDescriptorLoopClosureDetection M) :=
  if msg.robotId ≠ p.robotId then
    ((msg.matches_.map matchToEdge).foldlM AlgebraicConnectivityMaximization.tryAddMatch
      s.lcm.candidateSelector).map s.withSelector
  else some s

/-- `receive_inter_robot_loop_closure`. -/
def receiveInterRobotLoopClosure (s : GlobalDescriptorLoopClosureDetection M)
    (msg : InterRobotLoopClosure T) : GlobalDescriptorLoopClosureDetection M :=
  s.withSelector (s.lcm.candidateSelector.receiveInterRobotLoopClosure msg)

/-! ### The broker -/

/-- Append to the list at a key, or start one. -/
def appendAt (vertices : Dict Vertex (List Vertex)) (key other : Vertex) :
    Dict Vertex (List Vertex) :=
  match vertices.get? key with
  | some others => vertices.set key (others ++ [other])
  | none => vertices.set key [other]

/-- The body of the loop of `edge_list_to_vertices`. -/
def verticesStep (vertices : Dict Vertex (List Vertex)) (e : EdgeInterRobot) :
    Dict Vertex (List Vertex) :=
  let v := edgeVertices e
  appendAt (appendAt vertices v.1 v.2) v.2 v.1

/-- `edge_list_to_vertices`; the two parallel lists of a vertex are one list of pairs. -/
def edgeListToVertices (selection : List EdgeInterRobot) : Dict Vertex (List Vertex) :=
  selection.foldl verticesStep ∅

/-- The requests for the vertices of the sets; `none` if a vertex is not in the dictionary, or if
there is no publisher to its robot. -/
def localDescriptorsRequests (order : SetOrder Vertex) (verticesInfo : Dict Vertex (List Vertex))
    (sets : List (Finset Vertex)) : Option (List (ℕ × LocalDescriptorsRequest)) :=
  (sets.flatMap order.toList).mapM fun v =>
    (verticesInfo.get? v).bind fun matches_ =>
      if v.1 < p.maxNbRobots then some (v.1, ⟨v.2, matches_⟩) else none

/-- What one call of `detect_inter` takes from outside. -/
structure DetectEnv where
  now : ℕ → ℚ
  now' : ℕ → ℚ
  selection : Env
  randint : ℕ → Bool

/-- `detect_inter`: the selection and the requests, each with the robot it goes to; `none` if it
raises. -/
def detectInter (nx : GraphAlgorithms Vertex) (order : SetOrder Vertex)
    (s : GlobalDescriptorLoopClosureDetection M) (env : DetectEnv) :
    Option (GlobalDescriptorLoopClosureDetection M × List EdgeInterRobot ×
      List (ℕ × LocalDescriptorsRequest)) :=
  let (neighborsIsInRange, neighborsInRangeList) := s.neighborManager.checkNeighborsInRange env.now
  if 0 < neighborsInRangeList.length ∧ s.neighborManager.localRobotIsBroker env.now' = true then
    (s.lcm.candidateSelector.selectCandidates env.selection p.interRobotLoopClosureBudget
        neighborsIsInRange true).bind fun (selector, selection) =>
      ((Broker.init selection neighborsInRangeList).brokerage nx env.randint
          p.useVertexCoverSelection).bind fun sets =>
        (localDescriptorsRequests p order (edgeListToVertices selection) sets).map fun requests =>
          (s.withSelector selector, selection, requests)
  else some (s, [], [])

/-! ### The vertices of a selection -/

section Vertices

variable {selection : List EdgeInterRobot}

theorem get?_appendAt (vertices : Dict Vertex (List Vertex)) (key other v : Vertex) :
    (appendAt vertices key other).get? v =
      if v = key then some ((vertices.get? key).getD [] ++ [other]) else vertices.get? v := by
  unfold appendAt
  cases hkey : vertices.get? key with
  | none => rw [Dict.get?_set]; rfl
  | some others => rw [Dict.get?_set]; rfl

/-- The other ends of an edge, seen from a vertex. -/
def otherEnds (v : Vertex) (e : EdgeInterRobot) : List Vertex :=
  (if v = (edgeVertices e).1 then [(edgeVertices e).2] else []) ++
    if v = (edgeVertices e).2 then [(edgeVertices e).1] else []

/-- **The dictionary** holds for every vertex the other ends of its edges, in order. -/
theorem get?_edgeListToVertices (selection : List EdgeInterRobot) (v : Vertex) :
    ((edgeListToVertices selection).get? v).getD [] = selection.flatMap (otherEnds v) ∧
      ((edgeListToVertices selection).get? v = none → selection.flatMap (otherEnds v) = []) := by
  suffices h : ((edgeListToVertices selection).get? v).getD [] = selection.flatMap (otherEnds v) by
    refine ⟨h, fun hnone => ?_⟩
    rw [← h, hnone]
    rfl
  unfold edgeListToVertices
  induction selection using List.reverseRecOn with
  | nil => rfl
  | append_singleton selection e ih =>
    rw [List.foldl_append, List.flatMap_append, ← ih]
    show ((verticesStep _ e).get? v).getD [] = _ ++ ([e].flatMap (otherEnds v))
    unfold verticesStep otherEnds
    dsimp only
    rw [get?_appendAt, get?_appendAt, get?_appendAt]
    by_cases h0 : v = (edgeVertices e).1
    · by_cases h1 : v = (edgeVertices e).2
      · simp [← h0, ← h1]
      · simp [← h0, h1]
    · by_cases h1 : v = (edgeVertices e).2
      · simp [h0, ← h1]
      · simp [h0, h1]

/-- Both ends of a selected edge are in the dictionary, each with the other one. -/
theorem mem_edgeListToVertices {e : EdgeInterRobot} (he : e ∈ selection) {v w : Vertex}
    (hends : (v = (edgeVertices e).1 ∧ w = (edgeVertices e).2) ∨
      (v = (edgeVertices e).2 ∧ w = (edgeVertices e).1)) :
    ∃ others, (edgeListToVertices selection).get? v = some others ∧ w ∈ others := by
  obtain ⟨hgetD, hnone⟩ := get?_edgeListToVertices selection v
  have hw : w ∈ selection.flatMap (otherEnds v) := by
    refine List.mem_flatMap.mpr ⟨e, he, ?_⟩
    unfold otherEnds
    rcases hends with ⟨hv, hw⟩ | ⟨hv, hw⟩
    · exact List.mem_append_left _ (by simp [hv, hw])
    · exact List.mem_append_right _ (by simp [hv, hw])
  cases hget : (edgeListToVertices selection).get? v with
  | none =>
    rw [hnone hget] at hw
    exact absurd hw List.not_mem_nil
  | some others =>
    rw [hget, Option.getD_some] at hgetD
    exact ⟨others, rfl, hgetD ▸ hw⟩

/-- What the dictionary holds at a vertex are other ends of selected edges. -/
theorem exists_edge_of_get? {v w : Vertex} {others : List Vertex}
    (hget : (edgeListToVertices selection).get? v = some others) (hw : w ∈ others) :
    ∃ e ∈ selection, (v = (edgeVertices e).1 ∧ w = (edgeVertices e).2) ∨
      (v = (edgeVertices e).2 ∧ w = (edgeVertices e).1) := by
  have hgetD := (get?_edgeListToVertices selection v).1
  rw [hget, Option.getD_some] at hgetD
  rw [hgetD] at hw
  obtain ⟨e, he, hends⟩ := List.mem_flatMap.mp hw
  refine ⟨e, he, ?_⟩
  unfold otherEnds at hends
  rcases List.mem_append.mp hends with hends | hends
  · split_ifs at hends with hv
    · exact Or.inl ⟨hv, List.mem_singleton.mp hends⟩
    · exact absurd hends List.not_mem_nil
  · split_ifs at hends with hv
    · exact Or.inr ⟨hv, List.mem_singleton.mp hends⟩
    · exact absurd hends List.not_mem_nil

end Vertices

end GlobalDescriptorLoopClosureDetection

end RoverSwarm
