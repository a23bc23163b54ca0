import Mathlib.Algebra.Order.Floor.Semiring
import Mathlib.Data.Finset.Insert
import Mathlib.Data.Rat.Floor
import RoverSwarm.Lib.Dict
import RoverSwarm.Lib.TopK
import RoverSwarm.Lib.Transition

/-!
# Selection.Model — `AlgebraicConnectivityMaximization`

The candidate edges between the robots, and the selection of the most useful ones within a budget.
What the class calls from outside its file is a parameter: `np.argpartition`, the numbers
`np.random.rand` returns, and `MAC.fw_subset`.  The dictionaries over the robots have an entry for
every id below `max_nb_robots`, and are functions here.
-/

namespace RoverSwarm.Selection

open Transition TopK

/-! ### Edges -/

structure EdgeInterRobot where
  robot0Id : ℕ
  robot0KeyframeId : ℕ
  robot1Id : ℕ
  robot1KeyframeId : ℕ
  weight : ℚ
deriving DecidableEq, Repr

/-- `__eq__`, which ignores the weights and the orientation. -/
def EdgeInterRobot.eq (self other : EdgeInterRobot) : Bool :=
  (self.robot0Id == other.robot0Id && self.robot0KeyframeId == other.robot0KeyframeId &&
    self.robot1Id == other.robot1Id && self.robot1KeyframeId == other.robot1KeyframeId) ||
  (self.robot0Id == other.robot1Id && self.robot0KeyframeId == other.robot1KeyframeId &&
    self.robot1Id == other.robot0Id && self.robot1KeyframeId == other.robot0KeyframeId)

/-- `Edge` of `mac.utils`, between nodes of the single graph. -/
structure Edge where
  i : ℕ
  j : ℕ
  weight : ℚ
deriving DecidableEq, Repr

abbrev EdgeKey := ℕ × ℕ × ℕ × ℕ

/-- `edge_key`. -/
def edgeKey (edge : EdgeInterRobot) : EdgeKey :=
  if edge.robot0Id < edge.robot1Id then
    (edge.robot0Id, edge.robot0KeyframeId, edge.robot1Id, edge.robot1KeyframeId)
  else (edge.robot1Id, edge.robot1KeyframeId, edge.robot0Id, edge.robot0KeyframeId)

/-! ### Parameters -/

/-- The numbers `np.random.rand` returns from now on. -/
structure Rand where
  nth : ℕ → ℚ
  range : ∀ i, 0 ≤ nth i ∧ nth i < 1

def Rand.drop (r : Rand) (k : ℕ) : Rand := ⟨fun i => r.nth (i + k), fun i => r.range (i + k)⟩

/-- `MAC.fw_subset(w_init, k, max_iters)` on the fixed edges, candidates and number of poses given
to the constructor: from a guess over the candidates with at most `k` ones it raises, or selects `k`
candidates. -/
structure FwSubset where
  run : List Edge → List Edge → ℕ → List Bool → ℕ → ℕ → Option (List Bool)
  spec : ∀ {fixed candidates n w k iters v}, w.length = candidates.length → (ones w).length ≤ k →
    run fixed candidates n w k iters = some v → v.length = candidates.length ∧ (ones v).length = k

/-- What one call of `select_candidates` takes from outside. -/
structure Env where
  argpartition : Argpartition ℚ
  rand : Rand
  fwSubset : FwSubset

/-! ### The class -/

structure AlgebraicConnectivityMaximization where
  robotId : ℕ
  maxNbRobots : ℕ
  maxIters : ℕ
  fixedWeight : ℚ
  enableSparsification : Bool
  enableSparsificationComparison : Bool
  fixedEdges : List EdgeInterRobot := []
  candidateEdges : Dict EdgeKey EdgeInterRobot := ∅
  alreadyConsideredMatches : Finset EdgeKey := ∅
  totalNbPoses : ℕ := 0
  initialFixedEdgeExists : ℕ → Bool := fun _ => false
  nbPoses : ℕ → ℕ := fun _ => 0
  offsets : ℕ → ℕ := fun _ => 0
  logGreedyEdges : List EdgeInterRobot := []
  logMacEdges : List EdgeInterRobot := []

namespace AlgebraicConnectivityMaximization

variable (s : AlgebraicConnectivityMaximization)

/-- `update_nb_poses`. -/
def updateNbPoses (edge : EdgeInterRobot) : AlgebraicConnectivityMaximization :=
  let nbPoses := Function.update s.nbPoses edge.robot0Id
    (max (s.nbPoses edge.robot0Id) (edge.robot0KeyframeId + 1))
  let nbPoses := Function.update nbPoses edge.robot1Id
    (max (nbPoses edge.robot1Id) (edge.robot1KeyframeId + 1))
  { s with nbPoses := nbPoses }

/-- `update_initial_fixed_edge_exists`. -/
def updateInitialFixedEdgeExists (fixedEdge : EdgeInterRobot) :
    AlgebraicConnectivityMaximization :=
  if fixedEdge.robot0Id ≠ fixedEdge.robot1Id then
    let exist := Function.update s.initialFixedEdgeExists fixedEdge.robot0Id true
    { s with initialFixedEdgeExists := Function.update exist fixedEdge.robot1Id true }
  else s

/-- `add_fixed_edge`. -/
def addFixedEdge (edge : EdgeInterRobot) : AlgebraicConnectivityMaximization :=
  let s := { s with fixedEdges := s.fixedEdges ++ [edge] }
  (s.updateNbPoses edge).updateInitialFixedEdgeExists edge

/-- `set_graph`; the candidates there are stay. -/
def setGraph (fixedEdges candidateEdges : List EdgeInterRobot) :
    AlgebraicConnectivityMaximization :=
  let s := { s with fixedEdges := fixedEdges }
  let s := fixedEdges.foldl (fun s e => (s.updateNbPoses e).updateInitialFixedEdgeExists e) s
  let s := candidateEdges.foldl updateNbPoses s
  { s with candidateEdges := candidateEdges.foldl (fun d e => d.set (edgeKey e) e) s.candidateEdges }

/-- `add_candidate_edge`. -/
def addCandidateEdge (edge : EdgeInterRobot) : AlgebraicConnectivityMaximization :=
  if edgeKey edge ∈ s.alreadyConsideredMatches then s
  else
    let s := { s with candidateEdges := s.candidateEdges.set (edgeKey edge) edge }
    s.updateNbPoses edge

/-- `remove_candidate_edges`; the flag `failed` is not used. -/
def removeCandidateEdges (edges : List EdgeInterRobot) : AlgebraicConnectivityMaximization :=
  { s with
    candidateEdges := s.candidateEdges.filter fun e => !edges.any fun o => e.eq o
    alreadyConsideredMatches :=
      edges.foldl (fun considered e => insert (edgeKey e) considered) s.alreadyConsideredMatches }

/-- `candidate_edges_to_fixed`. -/
def candidateEdgesToFixed (edges : List EdgeInterRobot) : AlgebraicConnectivityMaximization :=
  let edges := edges.map fun e => { e with weight := s.fixedWeight }
  let s := edges.foldl updateInitialFixedEdgeExists s
  { s with fixedEdges := s.fixedEdges ++ edges }.removeCandidateEdges edges

/-- `add_match`. -/
def addMatch (m : EdgeInterRobot) : AlgebraicConnectivityMaximization :=
  let key := (m.robot0Id, m.robot0KeyframeId, m.robot1Id, m.robot1KeyframeId)
  match s.candidateEdges.get? key with
  | some candidate => if m.weight > candidate.weight then s.addCandidateEdge m else s
  | none => s.addCandidateEdge m

/-! #### The single graph -/

/-- The variables of the loop of `compute_offsets`. -/
structure OffsetsLoop where
  offsets : ℕ → ℕ := fun _ => 0
  previousOffset : ℕ := 0
  previousNbPoses : ℕ := 0

def offsetsStep (isRobotIncluded : ℕ → Bool) (l : OffsetsLoop) (id : ℕ) : OffsetsLoop :=
  if isRobotIncluded id then
    { offsets := Function.update l.offsets id (l.previousOffset + l.previousNbPoses)
      previousOffset := l.previousOffset + l.previousNbPoses
      previousNbPoses := s.nbPoses id }
  else l

/-- `compute_offsets`. -/
def computeOffsets (isRobotIncluded : ℕ → Bool) : AlgebraicConnectivityMaximization :=
  let l := (List.range s.maxNbRobots).foldl (s.offsetsStep isRobotIncluded) {}
  { s with offsets := l.offsets }

/-- `get_included_edges`. -/
def getIncludedEdges (edges : List EdgeInterRobot) (isRobotIncluded : ℕ → Bool) :
    List EdgeInterRobot :=
  edges.filter fun e => isRobotIncluded e.robot0Id && isRobotIncluded e.robot1Id

/-- The edge between the nodes of the single graph. -/
def rekeyEdge (e : EdgeInterRobot) : Edge where
  i := s.offsets e.robot0Id + e.robot0KeyframeId
  j := s.offsets e.robot1Id + e.robot1KeyframeId
  weight := e.weight

/-- `rekey_edges`. -/
def rekeyEdges (edges : List EdgeInterRobot) (isRobotIncluded : ℕ → Bool) : List Edge :=
  (getIncludedEdges edges isRobotIncluded).map s.rekeyEdge

/-- `fill_odometry`. -/
def fillOdometry : List Edge :=
  (List.range s.maxNbRobots).flatMap fun i =>
    (List.range (s.nbPoses i - 1)).map fun k =>
      { i := s.offsets i + k, j := s.offsets i + k + 1, weight := s.fixedWeight }

/-- The loop of `recover_inter_robot_edges` over the offsets. -/
def robotOf (isRobotIncluded : ℕ → Bool) (node : ℕ) : ℕ :=
  (List.range s.maxNbRobots).foldl (fun robot o =>
    if o ≠ 0 ∧ isRobotIncluded o = true ∧ s.offsets o ≤ node then o else robot) 0

/-- `recover_inter_robot_edges` on one edge. -/
def recoverEdge (isRobotIncluded : ℕ → Bool) (edge : Edge) : EdgeInterRobot where
  robot0Id := s.robotOf isRobotIncluded edge.i
  robot0KeyframeId := edge.i - s.offsets (s.robotOf isRobotIncluded edge.i)
  robot1Id := s.robotOf isRobotIncluded edge.j
  robot1KeyframeId := edge.j - s.offsets (s.robotOf isRobotIncluded edge.j)
  weight := edge.weight

/-- `recover_inter_robot_edges`. -/
def recoverInterRobotEdges (edges : List Edge) (isRobotIncluded : ℕ → Bool) :
    List EdgeInterRobot := edges.map (s.recoverEdge isRobotIncluded)

/-- `check_graph_disconnections`. -/
def checkGraphDisconnections (isOtherRobotConsidered : ℕ → Bool) : ℕ → Bool :=
  let connect (isRobotConnected : ℕ → Bool) (id : ℕ) : ℕ → Bool :=
    if isOtherRobotConsidered id then Function.update isRobotConnected id true
    else isRobotConnected
  (s.fixedEdges ++ s.candidateEdges.values).foldl
    (fun isRobotConnected edge => connect (connect isRobotConnected edge.robot0Id) edge.robot1Id)
    fun i => i == s.robotId

/-- `check_initial_fixed_measurements_exists`. -/
def checkInitialFixedMeasurementsExists (isRobotIncluded : ℕ → Bool) : Bool :=
  (List.range s.maxNbRobots).all fun rid =>
    !(isRobotIncluded rid && !s.initialFixedEdgeExists rid)

/-! #### Initial guesses -/

/-- `greedy_initialization`: `np.argpartition` raises when the index is out of the bounds of a list
that is not empty.  The index `-0` is `0`. -/
def greedyInitialization (argpartition : Argpartition ℚ) (nbCandidatesToChoose : ℕ)
    (edges : List Edge) : Option (List Bool) :=
  let weights := edges.map Edge.weight
  if 0 < weights.length ∧ weights.length < nbCandidatesToChoose then none
  else
    let kth := if nbCandidatesToChoose = 0 then 0 else weights.length - nbCandidatesToChoose
    some (oneHot weights.length (lastSlice nbCandidatesToChoose (argpartition.run weights kth)))

/-- The loop of `pseudo_greedy_initialization` with the number of trials left, the number `i` of
edges chosen, the vector and the random numbers to come. -/
def pseudoGreedyLoop (nbRandom nbEdges : ℕ) :
    ℕ → ℕ → List Bool → Rand → List Bool × ℕ × Rand
  | 0, _, w, rand => (w, 0, rand)
  | trials + 1, i, w, rand =>
    if i < nbRandom then
      let j := ⌊rand.nth 0 * nbEdges⌋₊
      if w.getD j false = false then
        pseudoGreedyLoop nbRandom nbEdges trials (i + 1) (w.set j true) (rand.drop 1)
      else pseudoGreedyLoop nbRandom nbEdges trials i w (rand.drop 1)
    else (w, trials + 1, rand)

/-- `pseudo_greedy_initialization`, with the random numbers that remain. -/
def pseudoGreedyInitialization (argpartition : Argpartition ℚ) (rand : Rand)
    (nbCandidatesToChoose nbRandom : ℕ) (edges : List Edge) : Option (List Bool × Rand) := do
  let w ← greedyInitialization argpartition (nbCandidatesToChoose - nbRandom) edges
  let (w, trialsLeft, rand) := pseudoGreedyLoop nbRandom edges.length (2 * nbRandom) 0 w rand
  if trialsLeft = 0 then
    let w ← greedyInitialization argpartition nbCandidatesToChoose edges
    return (w, rand)
  else return (w, rand)

/-- An initial guess: the vector, the edges it is about and the random numbers that remain. -/
structure Guess where
  wInit : List Bool
  edges : List Edge
  rand : Rand

/-- `random_initialization`: the random weights stay with the edges. -/
def randomInitialization (argpartition : Argpartition ℚ) (rand : Rand)
    (nbCandidatesToChoose : ℕ) (edges : List Edge) : Option Guess :=
  let edges := edges.mapIdx fun i e => { e with weight := rand.nth i }
  (greedyInitialization argpartition nbCandidatesToChoose edges).map fun wInit =>
    { wInit := wInit
      edges := edges
      rand := rand.drop edges.length }

/-! #### Strategies -/

/-- The variables of the inner loop of `connection_biased_greedy_selection`. -/
structure HeaviestLoop where
  maxWeight : ℚ := -1
  maxEdge : Option ℕ := none

def heaviestStep (edges : List EdgeInterRobot) (rid : ℕ) (l : HeaviestLoop) (i : ℕ) :
    HeaviestLoop :=
  match edges[i]? with
  | some e =>
    if (e.robot0Id = rid ∨ e.robot1Id = rid) ∧ l.maxWeight < e.weight then
      { maxWeight := e.weight, maxEdge := some i }
    else l
  | none => l

/-- The edge the inner loop finds for a robot. -/
def heaviestEdge (edges : List EdgeInterRobot) (rid : ℕ) : Option ℕ :=
  ((List.range edges.length).foldl (heaviestStep edges rid) {}).maxEdge

/-- The variables of the outer loop. -/
structure ConnectionLoop where
  edgesCopy : List EdgeInterRobot
  edgesIdsToSelect : List ℕ := []

def connectionStep (l : ConnectionLoop) (rid : ℕ) : ConnectionLoop :=
  if !s.initialFixedEdgeExists rid then
    match heaviestEdge l.edgesCopy rid with
    | some maxEdge =>
      { edgesCopy := l.edgesCopy.modify maxEdge fun e => { e with weight := 0 }
        edgesIdsToSelect := l.edgesIdsToSelect ++ [maxEdge] }
    | none => l
  else l

/-- `connection_biased_greedy_selection`; the number chosen is the length of the list. -/
def connectionBiasedGreedySelection (argpartition : Argpartition ℚ) (nbCandidatesToChoose : ℕ)
    (edges : List EdgeInterRobot) (isRobotIncluded : ℕ → Bool) : Option (List Bool) :=
  let rids := (List.range s.maxNbRobots).filter fun r => isRobotIncluded r
  let l := rids.foldl s.connectionStep { edgesCopy := edges }
  let nbCandidateChosen := l.edgesIdsToSelect.length
  let wInit :=
    if nbCandidateChosen < nbCandidatesToChoose then
      greedyInitialization argpartition (nbCandidatesToChoose - nbCandidateChosen)
        (s.rekeyEdges l.edgesCopy isRobotIncluded)
    else some (oneHot edges.length [])
  wInit.map fun wInit => setOnes wInit l.edgesIdsToSelect

/-- The constructor of `MAC` does not raise: the sparse Laplacian of the fixed edges has a row for
each of their nodes. -/
def macAccepts (fixedEdges : List Edge) (numPoses : ℕ) : Bool :=
  fixedEdges.all fun e => e.i < numPoses && e.j < numPoses

/-- The loop of `run_mac_solver`, with the number of trials left. -/
def macLoop (env : Env) (fixedEdges candidateEdges : List Edge) (result : List Bool)
    (nbCandidatesToChoose : ℕ) : ℕ → List Bool → Rand → Option (List Bool)
  | 0, _, _ => some result
  | trials + 1, wInit, rand =>
    match env.fwSubset.run fixedEdges candidateEdges s.totalNbPoses wInit nbCandidatesToChoose
        s.maxIters with
    | some result => some result
    | none =>
      let trial := nbCandidatesToChoose - trials
      (pseudoGreedyInitialization env.argpartition rand nbCandidatesToChoose trial
        candidateEdges).bind fun (wInit, rand) =>
          macLoop env fixedEdges candidateEdges result nbCandidatesToChoose trials wInit rand

/-- `run_mac_solver`; the constructor of `MAC` is outside of the `try`. -/
def runMacSolver (env : Env) (rand : Rand) (fixedEdges candidateEdges : List Edge)
    (wInit : List Bool) (nbCandidatesToChoose : ℕ) : Option (List Bool) :=
  if macAccepts fixedEdges s.totalNbPoses then
    s.macLoop env fixedEdges candidateEdges wInit nbCandidatesToChoose nbCandidatesToChoose
      wInit rand
  else none

/-! #### `select_candidates` -/

/-- The edges at the ones of a 0/1 vector. -/
def edgesAt (edges : List Edge) (result : List Bool) : List Edge :=
  (ones result).filterMap fun i => edges[i]?

/-- `sparsification_comparison_logs`. -/
def sparsificationComparisonLogs (rekeyedCandidateEdges : List Edge) (isRobotIncluded : ℕ → Bool)
    (greedyResult macResult : List Bool) : AlgebraicConnectivityMaximization :=
  { s with
    logGreedyEdges :=
      s.recoverInterRobotEdges (edgesAt rekeyedCandidateEdges greedyResult) isRobotIncluded
    logMacEdges :=
      s.recoverInterRobotEdges (edgesAt rekeyedCandidateEdges macResult) isRobotIncluded }

/-- The block "Compute number of poses". -/
def countPoses : AlgebraicConnectivityMaximization :=
  { s with totalNbPoses := ((List.range s.maxNbRobots).map s.nbPoses).sum }

/-- The block "Initial guess". -/
def initialGuess (env : Env) (greedyInit : Bool) (nbCandidatesToChoose : ℕ)
    (rekeyedCandidateEdges : List Edge) : Option Guess :=
  if greedyInit then
    (greedyInitialization env.argpartition nbCandidatesToChoose rekeyedCandidateEdges).map
      fun wInit => { wInit := wInit, edges := rekeyedCandidateEdges, rand := env.rand }
  else randomInitialization env.argpartition env.rand nbCandidatesToChoose rekeyedCandidateEdges

/-- The choice between the solver and the connection-biased selection. -/
def solve (env : Env) (guess : Guess) (isRobotIncluded : ℕ → Bool) (nbCandidatesToChoose : ℕ) :
    Option (List Bool) :=
  let rekeyedFixedEdges := s.rekeyEdges s.fixedEdges isRobotIncluded ++ s.fillOdometry
  if s.enableSparsification && s.checkInitialFixedMeasurementsExists isRobotIncluded then
    s.runMacSolver env guess.rand rekeyedFixedEdges guess.edges guess.wInit nbCandidatesToChoose
  else
    s.connectionBiasedGreedySelection env.argpartition nbCandidatesToChoose
      (getIncludedEdges s.candidateEdges.values isRobotIncluded) isRobotIncluded

/-- The end of `select_candidates`: log, recover the selected edges, remove them and return them. -/
def returnSelection (guess : Guess) (isRobotIncluded : ℕ → Bool) (result : List Bool) :
    AlgebraicConnectivityMaximization × List EdgeInterRobot :=
  let s :=
    if s.enableSparsificationComparison then
      s.sparsificationComparisonLogs guess.edges isRobotIncluded guess.wInit result
    else s
  let interRobotEdges := s.recoverInterRobotEdges (edgesAt guess.edges result) isRobotIncluded
  (s.removeCandidateEdges interRobotEdges, interRobotEdges)

/-- `select_candidates`; `none` if it raises. -/
def selectCandidates (env : Env) (nbCandidatesToChoose : ℕ) (isOtherRobotConsidered : ℕ → Bool)
    (greedyInit : Bool) : Option (AlgebraicConnectivityMaximization × List EdgeInterRobot) :=
  let isRobotIncluded := s.checkGraphDisconnections isOtherRobotConsidered
  let s := s.computeOffsets isRobotIncluded
  let rekeyedCandidateEdges := s.rekeyEdges s.candidateEdges.values isRobotIncluded
  let nb := min nbCandidatesToChoose rekeyedCandidateEdges.length
  if 0 < rekeyedCandidateEdges.length then
    let s := s.countPoses
    (initialGuess env greedyInit nb rekeyedCandidateEdges).bind fun guess =>
      (s.solve env guess isRobotIncluded nb).map (s.returnSelection guess isRobotIncluded)
  else some (s, [])

end AlgebraicConnectivityMaximization

/-! ### Runs -/

/-- The arguments of the constructor. -/
structure Params where
  robotId : ℕ
  maxNbRobots : ℕ
  maxIters : ℕ
  fixedWeight : ℚ
  enableSparsification : Bool
  enableSparsificationComparison : Bool

/-- Both robots have entries in the dictionaries over the robots. -/
def EdgeInterRobot.Known (R : Params) (e : EdgeInterRobot) : Prop :=
  e.robot0Id < R.maxNbRobots ∧ e.robot1Id < R.maxNbRobots

instance (R : Params) (e : EdgeInterRobot) : Decidable (e.Known R) :=
  inferInstanceAs (Decidable (_ ∧ _))

inductive Event
  | addMatch (m : EdgeInterRobot)
  | addFixedEdge (edge : EdgeInterRobot)
  | candidateEdgesToFixed (edges : List EdgeInterRobot)
  | removeCandidateEdges (edges : List EdgeInterRobot)
  | selectCandidates (env : Env) (nbCandidatesToChoose : ℕ) (isOtherRobotConsidered : ℕ → Bool)
      (greedyInit : Bool)

open AlgebraicConnectivityMaximization in
/-- The calls of the class's methods in any order.  A call with an unknown robot and a call that
raises end the run; the output is what `select_candidates` returns. -/
def selector (R : Params) :
    Machine AlgebraicConnectivityMaximization Event (List EdgeInterRobot) where
  init :=
    { robotId := R.robotId
      maxNbRobots := R.maxNbRobots
      maxIters := R.maxIters
      fixedWeight := R.fixedWeight
      enableSparsification := R.enableSparsification
      enableSparsificationComparison := R.enableSparsificationComparison }
  step s
    | .addMatch m => if m.Known R then some (s.addMatch m, []) else none
    | .addFixedEdge edge => if edge.Known R then some (s.addFixedEdge edge, []) else none
    | .candidateEdgesToFixed edges =>
      if ∀ e ∈ edges, e.Known R then some (s.candidateEdgesToFixed edges, []) else none
    | .removeCandidateEdges edges => some (s.removeCandidateEdges edges, [])
    | .selectCandidates env nb considered greedyInit => s.selectCandidates env nb considered greedyInit

/-! ### Steps

What a step is, method by method; `select_candidates` is the method itself. -/

section Steps

variable {R : Params} {s s' : AlgebraicConnectivityMaximization} {o : List EdgeInterRobot}

theorem selector_step_addMatch {m : EdgeInterRobot}
    (h : (selector R).step s (.addMatch m) = some (s', o)) :
    m.Known R ∧ s.addMatch m = s' ∧ [] = o := by
  obtain ⟨hknown, heq⟩ := Option.ite_none_right_eq_some.mp h
  exact ⟨hknown, Prod.mk.inj (Option.some.inj heq)⟩

theorem selector_step_addFixedEdge {edge : EdgeInterRobot}
    (h : (selector R).step s (.addFixedEdge edge) = some (s', o)) :
    edge.Known R ∧ s.addFixedEdge edge = s' ∧ [] = o := by
  obtain ⟨hknown, heq⟩ := Option.ite_none_right_eq_some.mp h
  exact ⟨hknown, Prod.mk.inj (Option.some.inj heq)⟩

theorem selector_step_candidateEdgesToFixed {edges : List EdgeInterRobot}
    (h : (selector R).step s (.candidateEdgesToFixed edges) = some (s', o)) :
    (∀ e ∈ edges, e.Known R) ∧ s.candidateEdgesToFixed edges = s' ∧ [] = o := by
  obtain ⟨hknown, heq⟩ := Option.ite_none_right_eq_some.mp h
  exact ⟨hknown, Prod.mk.inj (Option.some.inj heq)⟩

theorem selector_step_removeCandidateEdges {edges : List EdgeInterRobot}
    (h : (selector R).step s (.removeCandidateEdges edges) = some (s', o)) :
    s.removeCandidateEdges edges = s' ∧ [] = o :=
  Prod.mk.inj (Option.some.inj h)

end Steps

end RoverSwarm.Selection
