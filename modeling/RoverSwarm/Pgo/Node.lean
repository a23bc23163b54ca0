import Mathlib.Logic.Function.Basic
import Mathlib.Data.Finset.Insert
import Mathlib.Algebra.Group.Defs
import RoverSwarm.GtsamUtils
import RoverSwarm.Lib.Transition

/-!
# Pgo.Node — `DecentralizedPGO`, the pose graph optimizer of one robot

Every callback of the node is a function of its state; `none` is a callback that does not return
(an exception nobody catches, or a null pointer it dereferences).  `pgo` is the machine whose
events are the callbacks, in any order.  The optimization itself runs in its own thread: launching
it and collecting its result are actions of the node, its result comes from outside.

Visualization, GPS recording and the experiment logger read the state and write to nobody in here;
they are left out.
-/

namespace RoverSwarm.Pgo

open Transition

/-! ### Messages -/

structure KeyframeOdom (P : Type*) where
  id : ℕ
  odom : P
deriving DecidableEq, Repr

structure IntraRobotLoopClosure (P : Type*) where
  success : Bool
  keyframe0Id : ℕ
  keyframe1Id : ℕ
  transform : P
deriving DecidableEq, Repr

structure InterRobotLoopClosure (P : Type*) where
  success : Bool
  robot0Id : ℕ
  robot0KeyframeId : ℕ
  robot1Id : ℕ
  robot1KeyframeId : ℕ
  transform : P
deriving DecidableEq, Repr

/-- `RobotIdsAndOrigin`: the ids of robots and, beside them, their origins. -/
structure RobotIdsAndOrigin where
  robots : List ℕ := []
  origins : List ℕ := []
deriving DecidableEq, Repr

structure PoseGraph (P : Type*) where
  robotId : ℕ
  values : List (PoseGraphValue P)
  edges : List (PoseGraphEdge P)
  connectedRobots : List ℕ
deriving DecidableEq, Repr

structure OptimizationResult (P : Type*) where
  success : Bool
  originRobotId : ℕ := 0
  factors : List (PoseGraphEdge P) := []
  estimates : List (PoseGraphValue P)
deriving DecidableEq, Repr

/-! ### The state -/

/-- The parameters of the node; times are in nanoseconds. -/
structure Params where
  robotId : ℕ
  maxNbRobots : ℕ
  maxWaitingTime : ℤ
deriving DecidableEq, Repr

inductive OptimizerState
  | idle
  | waitingForNeighborsInfo
  | posegraphCollection
  | waitingForNeighborsPosegraphs
  | startOptimization
  | optimization
deriving DecidableEq, Repr

/-- `gtsam::GraphAndValues`. -/
structure GraphAndValues (P : Type*) where
  graph : FactorGraph P
  estimates : Values P
deriving DecidableEq

/-- An optimization launched and not collected yet.  `origin` is a ghost: the origin the robot had
at the launch, which the node itself does not keep. -/
structure Job (P : Type*) where
  input : GraphAndValues P
  prior : LabeledSymbol × P
  origin : ℕ
deriving DecidableEq

/-- The header frames and the transform of `origin_to_first_pose_`. -/
structure Transform (P : Type*) where
  frameId : String
  childFrameId : String
  transform : P
deriving DecidableEq, Repr

/-- The members of `DecentralizedPGO` that its callbacks write. -/
structure State (P : Type*) where
  poseGraph : FactorGraph P := []
  currentPoseEstimates : Values P := ∅
  odometryPoseEstimates : Values P := ∅
  otherRobotsGraphAndEstimates : SortedDict ℕ (GraphAndValues P) := ∅
  latestLocalPose : P
  localPoseAtLatestOptimization : P
  tentativeLocalPoseAtLatestOptimization : P
  latestOptimizedPose : P
  latestLocalSymbol : LabeledSymbol := {}
  interRobotLoopClosures : ℕ × ℕ → FactorGraph P := fun _ => []
  receivedPoseGraphs : ℕ → Bool := fun _ => false
  connectedRobots : SortedDict ℕ Unit := ∅
  receivedPoseGraphsConnectivity : SortedDict ℕ (List ℕ) := ∅
  currentNeighborsIds : RobotIdsAndOrigin := {}
  optimizerState : OptimizerState := .idle
  optimizationResult : Option (Job P) := none
  aggregatePoseGraph : Option (GraphAndValues P) := none
  optimizationCount : ℕ := 0
  isWaiting : Bool := false
  startWaitingTime : ℤ := 0
  originRobotId : ℕ
  originToFirstPose : Transform P

/-- What the callbacks do beside writing the state. -/
inductive Action (P : Type*)
  | getCurrentNeighbors
  | getPoseGraph (dest : ℕ) (ids : List ℕ)
  | poseGraph (msg : PoseGraph P)
  /-- `std::async` of `optimize`. -/
  | launch
  /-- `get` on the future of the optimization. -/
  | collect (result : Values P)
  | optimizedEstimates (dest : ℕ) (msg : OptimizationResult P)
  | debugOptimizationResult (msg : OptimizationResult P)
  | optimizerState (state : OptimizerState)
  | referenceFrames (robotId : ℕ) (originToLocal : Transform P)
  | heartbeat (originRobotId : ℕ)
  | tf (msg : Transform P)
  | currentPoseEstimate (frameId : String) (pose : P)
deriving DecidableEq

variable {P : Type*} (R : Params) (s : State P)

/-! ### Waiting -/

/-- `start_waiting` at time `now`. -/
def startWaiting (now : ℤ) : State P :=
  { s with
    optimizerState := match s.optimizerState with
      | .idle => .waitingForNeighborsInfo
      | .posegraphCollection => .waitingForNeighborsPosegraphs
      | state => state
    isWaiting := true
    startWaitingTime := now }

def endWaiting : State P := { s with isWaiting := false }

/-- `check_waiting_timeout` at time `now`. -/
def checkWaitingTimeout (now : ℤ) : State P :=
  if R.maxWaitingTime < now - s.startWaitingTime then
    { endWaiting s with optimizerState := .idle }
  else s

/-! ### Odometry and loop closures -/

/-- `default_noise_model_`. -/
def defaultNoiseModel : Sigmas := [1 / 100, 1 / 100, 1 / 100, 1 / 10, 1 / 10, 1 / 10]

/-- The current estimates with the first keyframe, if the message has it. -/
def insertFirst (msg : KeyframeOdom P) : Option (Values P) :=
  if msg.id = 0 then s.currentPoseEstimates.insertNew (symbol R.robotId msg.id) msg.odom
  else some s.currentPoseEstimates

/-- `odometry_callback`; inserting a keyframe a second time throws. -/
def odometryCallback [Mul P] [Inv P] (msg : KeyframeOdom P) : Option (State P) := do
  let current := symbol R.robotId msg.id
  let odometry ← s.odometryPoseEstimates.insertNew current msg.odom
  let estimates ← insertFirst R s msg
  let factor : BetweenFactor P :=
    ⟨s.latestLocalSymbol, current, s.latestLocalPose⁻¹ * msg.odom, defaultNoiseModel⟩
  some { s with
    odometryPoseEstimates := odometry
    currentPoseEstimates := estimates
    poseGraph := if s.latestLocalSymbol ≠ {} then s.poseGraph ++ [factor] else s.poseGraph
    latestLocalPose := msg.odom
    latestLocalSymbol := current }

/-- The factor of an intra-robot loop closure. -/
def intraFactor (msg : IntraRobotLoopClosure P) : BetweenFactor P :=
  ⟨symbol R.robotId msg.keyframe0Id, symbol R.robotId msg.keyframe1Id, msg.transform,
    defaultNoiseModel⟩

/-- `intra_robot_loop_closure_callback`. -/
def intraRobotLoopClosureCallback (msg : IntraRobotLoopClosure P) : State P :=
  if msg.success then { s with poseGraph := s.poseGraph ++ [intraFactor R msg] } else s

/-- The factor of an inter-robot loop closure. -/
def interFactor (msg : InterRobotLoopClosure P) : BetweenFactor P :=
  ⟨symbol msg.robot0Id msg.robot0KeyframeId, symbol msg.robot1Id msg.robot1KeyframeId,
    msg.transform, defaultNoiseModel⟩

/-- `inter_robot_loop_closure_callback`. -/
def interRobotLoopClosureCallback (msg : InterRobotLoopClosure P) : State P :=
  if !msg.success then s else
  let pair := (min msg.robot0Id msg.robot1Id, max msg.robot0Id msg.robot1Id)
  { s with
    interRobotLoopClosures := Function.update s.interRobotLoopClosures pair
      (s.interRobotLoopClosures pair ++ [interFactor msg])
    connectedRobots :=
      if msg.robot0Id = R.robotId then s.connectedRobots.setDefault msg.robot1Id ()
      else if msg.robot1Id = R.robotId then s.connectedRobots.setDefault msg.robot0Id ()
      else s.connectedRobots }

/-! ### Neighbors -/

/-- What one origin in the list, and the robot beside it, say against this robot as optimizer;
`none` where the robot beside it is needed and missing. -/
def outranks (origin : ℕ) (robot : Option ℕ) : Option Bool :=
  if s.originRobotId > origin then some true
  else if s.originRobotId = origin then robot.map fun id => R.robotId > id
  else some false

/-- `is_optimizer`. -/
def isOptimizer : Option Bool := do
  let ids := s.currentNeighborsIds
  let outranked ← ids.origins.zipIdx.mapM fun o => outranks R s o.1 ids.robots[o.2]?
  some (!outranked.any id && s.odometryPoseEstimates.size ≠ 0)

/-- `current_neighbors_callback`. -/
def currentNeighborsCallback (msg : RobotIdsAndOrigin) : Option (State P) :=
  let s := endWaiting { s with currentNeighborsIds := msg }
  (isOptimizer R s).map fun b =>
    { s with optimizerState := if b then .posegraphCollection else .idle }

/-! ### Pose graphs of the neighbors -/

/-- The pairs of a list, by their positions: each element with every later one. -/
def pairs : List ℕ → List (ℕ × ℕ)
  | [] => []
  | i :: ids => ids.map (fun j => (i, j)) ++ pairs ids

/-- The key of a pair of robots in `inter_robot_loop_closures_`. -/
def robotPair (p : ℕ × ℕ) : ℕ × ℕ := (min p.1 p.2, max p.1 p.2)

/-- `fill_pose_graph_msg`. -/
def fillPoseGraphMsg (ids : List ℕ) : PoseGraph P :=
  let mine := ((pairs ids).map robotPair).filter fun p =>
    !(s.interRobotLoopClosures p).isEmpty && (p.1 = R.robotId || p.2 = R.robotId)
  let graph := s.poseGraph ++
    (mine.filter fun p => p.1 = R.robotId).flatMap fun p => s.interRobotLoopClosures p
  let connected : SortedDict ℕ Unit :=
    mine.foldl (fun d p => (d.setDefault p.1 ()).setDefault p.2 ()) ∅
  { robotId := R.robotId
    values := gtsamValuesToMsg s.odometryPoseEstimates
    edges := gtsamFactorsToMsg graph
    connectedRobots := connected.keys.filter fun id => id ≠ R.robotId }

/-- `get_pose_graph_callback`. -/
def getPoseGraphCallback (ids : List ℕ) : State P × List (Action P) :=
  ({ s with tentativeLocalPoseAtLatestOptimization := s.latestLocalPose },
    [.poseGraph (fillPoseGraphMsg R s ids)])

/-- `check_received_pose_graphs`. -/
def checkReceivedPoseGraphs : Bool := s.currentNeighborsIds.robots.all s.receivedPoseGraphs

/-- `pose_graph_callback`; two values of one key in the message throw. -/
def poseGraphCallback (msg : PoseGraph P) : Option (State P) :=
  if s.optimizerState ≠ .waitingForNeighborsPosegraphs then some s else
  (valuesMsgToGtsam msg.values).map fun values =>
    let s := { s with
      otherRobotsGraphAndEstimates :=
        s.otherRobotsGraphAndEstimates.setDefault msg.robotId ⟨edgesMsgToGtsam msg.edges, values⟩
      receivedPoseGraphs := Function.update s.receivedPoseGraphs msg.robotId true
      receivedPoseGraphsConnectivity :=
        s.receivedPoseGraphsConnectivity.setDefault msg.robotId msg.connectedRobots }
    if checkReceivedPoseGraphs s then { endWaiting s with optimizerState := .startOptimization }
    else s

/-- `reinitialize_received_pose_graphs`. -/
def reinitializeReceivedPoseGraphs : State P :=
  { s with
    receivedPoseGraphs := fun id => if id < R.maxNbRobots then false else s.receivedPoseGraphs id
    otherRobotsGraphAndEstimates := ∅
    receivedPoseGraphsConnectivity := ∅ }

/-! ### Connectivity -/

/-- The variables of the breadth first search; a robot not in `is_robot_connected` counts as not
connected. -/
structure Bfs where
  queue : List ℕ
  visited : ℕ → Bool
  isRobotConnected : ℕ → Bool
  connectivity : SortedDict ℕ (List ℕ)

/-- The body of the inner loop. -/
def Bfs.visit (b : Bfs) (id : ℕ) : Bfs :=
  let b := { b with isRobotConnected := Function.update b.isRobotConnected id true }
  if !b.visited id then
    { b with visited := Function.update b.visited id true, queue := b.queue ++ [id] }
  else b

/-- The outer loop, `fuel` times at most; looking up a robot without connectivity adds an empty
one. -/
def Bfs.run : ℕ → Bfs → Bfs
  | 0, b => b
  | fuel + 1, b =>
    match b.queue with
    | [] => b
    | current :: queue =>
      let connectivity := b.connectivity.setDefault current []
      let ids := (connectivity.get? current).getD []
      (ids.foldl Bfs.visit { b with queue, connectivity }).run fuel

/-- `connected_robot_pose_graph`: the new state and the connected robots.  `visited` has one entry
for every neighbor and is indexed by robot ids; `beyond` is what the memory after it holds.  A
robot enters the queue once, so there are at most as many rounds as ids in the lists and one. -/
def connectedRobotPoseGraph (beyond : ℕ → Bool) : State P × (ℕ → Bool) :=
  let connectivity :=
    if s.connectedRobots.size > 0 then
      s.receivedPoseGraphsConnectivity.setDefault R.robotId s.connectedRobots.keys
    else s.receivedPoseGraphsConnectivity
  let visited := fun i =>
    if i < s.currentNeighborsIds.robots.length then false else beyond i
  let fuel := 1 + (connectivity.entries.map fun e => e.2.length).sum
  let b := Bfs.run fuel
    { queue := [R.robotId]
      visited := Function.update visited R.robotId true
      isRobotConnected := fun id => id = R.robotId
      connectivity }
  ({ s with receivedPoseGraphsConnectivity := b.connectivity }, b.isRobotConnected)

/-! ### Aggregation -/

/-- The graph under construction and the pairs of keys in `added_loop_closures`. -/
structure Added (P : Type*) where
  graph : FactorGraph P
  addedLoopClosures : Finset (LabeledSymbol × LabeledSymbol) := ∅

/-- Push a factor whose keys have estimates and are not paired in the graph already. -/
def Added.push (estimates : Values P) (a : Added P) (factor : BetweenFactor P) : Added P :=
  if estimates.contains factor.key1 && estimates.contains factor.key2 &&
      (factor.key1, factor.key2) ∉ a.addedLoopClosures then
    ⟨a.graph ++ [factor], insert (factor.key1, factor.key2) a.addedLoopClosures⟩
  else a

/-- The estimates of the aggregate: the robot's odometry and the values of every connected
neighbor. -/
def aggregateEstimates (connected : ℕ → Bool) : Option (Values P) :=
  s.currentNeighborsIds.robots.foldlM (fun estimates id =>
    if connected id then
      (s.otherRobotsGraphAndEstimates.get? id).bind fun other =>
        estimates.insertAll other.estimates.entries
    else some estimates) s.odometryPoseEstimates

/-- The inter-robot loop closures this robot knows between connected robots. -/
def localLoopClosures (connected : ℕ → Bool) : FactorGraph P :=
  ((pairs (s.currentNeighborsIds.robots ++ [R.robotId])).filter fun p =>
    connected p.1 && connected p.2).flatMap fun p => s.interRobotLoopClosures (robotPair p)

/-- The factors of the neighbors' graphs between connected robots; every graph is dereferenced. -/
def neighborFactors (connected : ℕ → Bool) : Option (FactorGraph P) :=
  (s.currentNeighborsIds.robots.mapM s.otherRobotsGraphAndEstimates.get?).map fun others =>
    (others.flatMap GraphAndValues.graph).filter fun factor =>
      connected (robotIdOf factor.key1.label) && connected (robotIdOf factor.key2.label)

/-- `aggregate_pose_graphs`. -/
def aggregatePoseGraphs (beyond : ℕ → Bool) : Option (State P × GraphAndValues P) := do
  let (s, connected) := connectedRobotPoseGraph R s beyond
  let estimates ← aggregateEstimates s connected
  let others ← neighborFactors s connected
  let added := (localLoopClosures R s connected ++ others).foldl (Added.push estimates)
    { graph := s.poseGraph }
  some ({ s with tentativeLocalPoseAtLatestOptimization := s.latestLocalPose },
    ⟨added.graph, estimates⟩)

/-! ### Optimization -/

/-- `start_optimization`. -/
def startOptimization (beyond : ℕ → Bool) : Option (State P × List (Action P)) :=
  (aggregatePoseGraphs R s beyond).map fun (s, aggregate) =>
    let s := { s with aggregatePoseGraph := some aggregate }
    let first := symbol R.robotId 0
    match s.currentPoseEstimates.get? first with
    | none => (s, [])
    | some pose =>
      ({ s with
          optimizationResult := some ⟨aggregate, (first, pose), s.originRobotId⟩
          optimizerState := .optimization }, [.launch])

/-- `share_optimized_estimates`; there is a publisher for every robot below `max_nb_robots_`. -/
def shareOptimizedEstimates (estimates : Values P) : Option (List (Action P)) :=
  (s.currentNeighborsIds.robots ++ [R.robotId]).mapM fun id =>
    if id < R.maxNbRobots then
      some (.optimizedEstimates id
        { success := true
          originRobotId := s.originRobotId
          estimates := gtsamValuesToMsg (estimates.filter fun key => key.label = robotLabel id) })
    else none

/-- `check_result_and_finish_optimization`; `result` is what the thread has returned, if it has,
and waiting without a launched optimization fails. -/
def checkResultAndFinishOptimization (result : Option (Values P)) (debugSubscribed : Bool) :
    Option (State P × List (Action P)) :=
  match s.optimizationResult, result with
  | none, _ => none
  | some _, none => some (s, [])
  | some _, some result =>
    (shareOptimizedEstimates R s result).map fun shared =>
      let debug : OptimizationResult P :=
        { success := true
          factors := gtsamFactorsToMsg ((s.aggregatePoseGraph.map GraphAndValues.graph).getD [])
          estimates := gtsamValuesToMsg result }
      ({ s with
          optimizationResult := none
          optimizationCount := s.optimizationCount + 1
          optimizerState := .idle },
        .collect result :: shared ++
          (if debugSubscribed then [.debugOptimizationResult debug] else []))

/-- `MAP_FRAME_ID`. -/
def mapFrameId (id : ℕ) : String := "robot" ++ toString id ++ "_map"

/-- `optimized_estimates_callback`. -/
def optimizedEstimatesCallback [One P] (msg : OptimizationResult P) (framesSubscribed : Bool) :
    Option (State P × List (Action P)) :=
  if s.odometryPoseEstimates.size = 0 ∨ msg.estimates = [] then some (s, []) else do
  let estimates ← valuesMsgToGtsam msg.estimates
  let (_, latest) ← estimates.entries.getLast?
  let frame : Transform P :=
    { frameId := mapFrameId msg.originRobotId
      childFrameId := mapFrameId R.robotId
      transform := (estimates.get? (symbol R.robotId 0)).getD 1 }
  some ({ s with
      currentPoseEstimates := estimates
      originRobotId := msg.originRobotId
      originToFirstPose := frame
      localPoseAtLatestOptimization := s.tentativeLocalPoseAtLatestOptimization
      latestOptimizedPose := latest },
    if framesSubscribed then [.referenceFrames R.robotId frame] else [])

/-! ### Timers -/

/-- `optimization_callback` at time `now`. -/
def optimizationCallback (now : ℤ) : State P × List (Action P) :=
  if s.optimizerState = .idle ∧ 0 < s.odometryPoseEstimates.size then
    (startWaiting (reinitializeReceivedPoseGraphs R s) now, [.getCurrentNeighbors])
  else (s, [])

/-- What `optimization_loop_callback` finds outside: the time, the memory after `visited`, the
result of the optimization if there is one, and who subscribes. -/
structure LoopEnv (P : Type*) where
  now : ℤ := 0
  beyond : ℕ → Bool := fun _ => false
  result : Option (Values P) := none
  debugSubscribed : Bool := false
  stateSubscribed : Bool := false

/-- One step of the state machine, in `optimization_loop_callback`. -/
def loopStep (env : LoopEnv P) : Option (State P × List (Action P)) :=
  match s.optimizerState with
  | .posegraphCollection =>
    let ids := s.currentNeighborsIds.robots
    if ids.length > 0 then
      (ids.mapM fun id => if id < R.maxNbRobots then
          some (Action.getPoseGraph id (ids ++ [R.robotId])) else none).map fun requests =>
        (startWaiting s env.now, requests)
    else some ({ s with optimizerState := .startOptimization }, [])
  | .startOptimization => startOptimization R s env.beyond
  | .optimization => checkResultAndFinishOptimization R s env.result env.debugSubscribed
  | .idle | .waitingForNeighborsInfo | .waitingForNeighborsPosegraphs =>
    some (if s.isWaiting then checkWaitingTimeout R s env.now else s, [])

/-- `optimization_loop_callback`. -/
def optimizationLoopCallback (env : LoopEnv P) : Option (State P × List (Action P)) :=
  (if s.odometryPoseEstimates.size ≠ 0 then loopStep R s env else some (s, [])).map fun (s, as) =>
    (s, as ++ if env.stateSubscribed then [.optimizerState s.optimizerState] else [])

/-- `broadcast_tf_callback`. -/
def broadcastTfCallback [Mul P] [Inv P] : List (Action P) :=
  let diff := s.localPoseAtLatestOptimization⁻¹ * s.latestLocalPose
  let latestOptimized := "robot" ++ toString R.robotId ++ "_latest_optimized_pose"
  let current := "robot" ++ toString R.robotId ++ "_current_pose"
  (if s.originToFirstPose.frameId ≠ s.originToFirstPose.childFrameId then
      [.tf s.originToFirstPose] else []) ++
    [.tf ⟨mapFrameId s.originRobotId, latestOptimized, s.latestOptimizedPose⟩,
      .tf ⟨latestOptimized, current, diff⟩,
      .currentPoseEstimate (mapFrameId s.originRobotId) (s.latestOptimizedPose * diff)]

/-! ### The machine -/

inductive Event (P : Type*)
  | odometry (msg : KeyframeOdom P)
  | intraRobotLoopClosure (msg : IntraRobotLoopClosure P)
  | interRobotLoopClosure (msg : InterRobotLoopClosure P)
  | currentNeighbors (msg : RobotIdsAndOrigin)
  | getPoseGraph (ids : List ℕ)
  | poseGraph (msg : PoseGraph P)
  | optimizedEstimates (msg : OptimizationResult P) (framesSubscribed : Bool)
  | optimization (now : ℤ)
  | optimizationLoop (env : LoopEnv P)
  /-- `alive` is false while a simulated rendezvous keeps the robot silent. -/
  | heartbeat (alive : Bool)
  | broadcastTf

variable [Mul P] [Inv P] [One P]

def State.step : Event P → Option (State P × List (Action P))
  | .odometry msg => (odometryCallback R s msg).map fun s => (s, [])
  | .intraRobotLoopClosure msg => some (intraRobotLoopClosureCallback R s msg, [])
  | .interRobotLoopClosure msg => some (interRobotLoopClosureCallback R s msg, [])
  | .currentNeighbors msg => (currentNeighborsCallback R s msg).map fun s => (s, [])
  | .getPoseGraph ids => some (getPoseGraphCallback R s ids)
  | .poseGraph msg => (poseGraphCallback s msg).map fun s => (s, [])
  | .optimizedEstimates msg framesSubscribed =>
    optimizedEstimatesCallback R s msg framesSubscribed
  | .optimization now => some (optimizationCallback R s now)
  | .optimizationLoop env => optimizationLoopCallback R s env
  | .heartbeat alive => some (s, if alive then [.heartbeat s.originRobotId] else [])
  | .broadcastTf => some (s, broadcastTfCallback R s)

/-- The node after its constructor. -/
def initialState : State P :=
  { latestLocalPose := 1
    localPoseAtLatestOptimization := 1
    tentativeLocalPoseAtLatestOptimization := 1
    latestOptimizedPose := 1
    originRobotId := R.robotId
    originToFirstPose := ⟨"", "", 1⟩ }

def pgo (P : Type*) [Mul P] [Inv P] [One P] (R : Params) :
    Machine (State P) (Event P) (List (Action P)) where
  init := initialState R
  step := fun s => State.step R s

end RoverSwarm.Pgo
