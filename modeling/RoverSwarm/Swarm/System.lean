import RoverSwarm.Selection.Budget
import RoverSwarm.Swarm.Detection

/-!
# Swarm.System — the front ends of all robots and the messages between them

Every robot runs a `LidarHandler` and a `GlobalDescriptorLoopClosureDetection`.  The network keeps
every message that was ever published, and may deliver any of them to a robot that subscribes to it,
at any time and any number of times: messages can be delayed, reordered, duplicated and lost.
A callback that raises ends the run.
-/

namespace RoverSwarm.Swarm

open Exchange LidarHandler Pgo Selection Transition

/-- What the robots publish; a message on a topic of one robot carries its id. -/
inductive Message (P D T : Type*)
  | keyframeData (robot id : ℕ) (pointcloud : List P)
  | globalDescriptors (descriptors : List (GlobalDescriptor D))
  | interRobotMatches (msg : InterRobotMatches)
  | localKeyframeMatch (robot keyframe0Id keyframe1Id : ℕ)
  | localDescriptorsRequest (robot : ℕ) (request : LocalDescriptorsRequest)
  | localDescriptors (msg : LocalPointCloudDescriptors P)
  | interRobotLoopClosure (msg : InterRobotLoopClosure T)
  | intraRobotLoopClosure (robot : ℕ) (msg : IntraRobotLoopClosure T)
deriving DecidableEq

/-- What the robots have in common: the parameters, and the code outside the repository. -/
structure Setup (K Cloud P D T : Type*) [Arithmetic K] where
  matcher : Matcher D
  handler : LidarHandler.Params K
  detection : DetectionParams
  selection : Selection.Params
  monitors : Exchange.Params
  downsample : Cloud → K → Option (List P)
  computeEmbedding : List P → D
  computeTransform : List P → List P → T × Bool
  unset : T
  nx : GraphAlgorithms Vertex
  order : SetOrder Vertex

variable {K Cloud P D T Gps : Type*} [Arithmetic K] (S : Setup K Cloud P D T)

namespace Setup

/-- The number of robots. -/
def nbRobots : ℕ := S.detection.maxNbRobots

def handlerOf (r : ℕ) : LidarHandler.Params K := { S.handler with robotId := r }

def detectionOf (r : ℕ) : DetectionParams := { S.detection with robotId := r }

def selectionOf (r : ℕ) : Selection.Params :=
  { S.selection with robotId := r, maxNbRobots := S.nbRobots }

def monitorsOf (r : ℕ) : NeighborManager :=
  Exchange.Params.manager { S.monitors with maxNbRobots := S.nbRobots } r

end Setup

structure Robot (Gps : Type*) where
  handler : LidarHandler.State K Cloud P Gps
  detector : GlobalDescriptorLoopClosureDetection S.matcher

/-- The robots, and every message published so far. -/
structure State (Gps : Type*) where
  robots : ℕ → Robot S Gps
  published : List (Message P D T) := []

inductive Event (K Cloud Gps : Type*)
  /-- A sensor message or the timer of the handler. -/
  | sensor (r : ℕ) (e : LidarHandler.Event K Cloud Gps)
  | heartbeat (r rid data : ℕ) (now later : ℚ)
  | descriptorsTimer (r : ℕ) (now now' : ℕ → ℚ)
  | matchesTimer (r : ℕ) (now now' now'' : ℕ → ℚ)
  | detectInter (r : ℕ) (env : GlobalDescriptorLoopClosureDetection.DetectEnv)
  /-- The `i`-th message published reaches robot `r`. -/
  | deliver (r i : ℕ)

namespace Event

/-- The robot that acts. -/
def robot : Event K Cloud Gps → ℕ
  | sensor r _ | heartbeat r _ _ _ _ | descriptorsTimer r _ _ | matchesTimer r _ _ _
  | detectInter r _ | deliver r _ => r

end Event

variable {S}

/-- What robot `r` does with a message; `none` if it does not subscribe to it, or if its callback
raises. -/
def Robot.receive (S : Setup K Cloud P D T) (r : ℕ) (robot : Robot S Gps) :
    Message P D T → Option (Robot S Gps × List (Message P D T))
  | .keyframeData dest id pointcloud =>
    if dest = r then
      (robot.detector.addGlobalDescriptorToMap (S.detectionOf r) (S.computeEmbedding pointcloud)
        id).map fun (detector, localMatch) => ({ robot with detector := detector },
          (localMatch.map fun m => .localKeyframeMatch r m.1 m.2).toList)
    else none
  | .globalDescriptors descriptors =>
    (robot.detector.globalDescriptorCallback (S.detectionOf r) descriptors).map fun detector =>
      ({ robot with detector := detector }, [])
  | .interRobotMatches msg =>
    (robot.detector.interRobotMatchesCallback (S.detectionOf r) msg).map fun detector =>
      ({ robot with detector := detector }, [])
  | .localKeyframeMatch dest keyframe0Id keyframe1Id =>
    if dest = r then
      (receiveLocalKeyframeMatch S.computeTransform S.unset robot.handler keyframe0Id
        keyframe1Id).map fun msg => (robot, [.intraRobotLoopClosure r msg])
    else none
  | .localDescriptorsRequest dest request =>
    if dest = r then
      (sendLocalDescriptorsRequest (S.handlerOf r) robot.handler request).map fun msg =>
        (robot, [.localDescriptors msg])
    else none
  | .localDescriptors msg =>
    let (closures, done) := receiveLocalDescriptors S.computeTransform S.unset (S.handlerOf r)
      robot.handler msg
    if done then some (robot, closures.map .interRobotLoopClosure) else none
  | .interRobotLoopClosure msg =>
    some ({ robot with detector := robot.detector.receiveInterRobotLoopClosure msg }, [])
  | .intraRobotLoopClosure _ _ => none

/-- A step of one robot; `none` if it raises, or if nobody subscribes to the heartbeat. -/
def Robot.act (S : Setup K Cloud P D T) (published : List (Message P D T)) (robot : Robot S Gps) :
    Event K Cloud Gps → Option (Robot S Gps × List (Message P D T))
  | .sensor r e =>
    (LidarHandler.step (S.handlerOf r) S.downsample robot.handler e).map fun (handler, msgs) =>
      ({ robot with handler := handler }, (clouds msgs).map fun x => .keyframeData r x.1 x.2)
  | .heartbeat _ rid data now later =>
    let m := robot.detector.neighborManager
    if rid ∈ m.others then
      let monitor := (m.neighborsMonitors rid).heartbeatCallback data now later
      let m := { m with neighborsMonitors := Function.update m.neighborsMonitors rid monitor }
      some ({ robot with detector := { robot.detector with neighborManager := m } }, [])
    else none
  | .descriptorsTimer r now now' =>
    let (detector, msgs) :=
      robot.detector.globalDescriptorsTimerCallback (S.detectionOf r) now now'
    some ({ robot with detector := detector }, msgs.map .globalDescriptors)
  | .matchesTimer r now now' now'' =>
    let (detector, msgs) :=
      robot.detector.interRobotMatchesTimerCallback (S.detectionOf r) now now' now''
    some ({ robot with detector := detector }, msgs.map .interRobotMatches)
  | .detectInter r env =>
    (robot.detector.detectInter (S.detectionOf r) S.nx S.order env).map
      fun (detector, _, requests) => ({ robot with detector := detector },
        requests.map fun x => .localDescriptorsRequest x.1 x.2)
  | .deliver r i => published[i]?.bind (robot.receive S r)

/-- The front end of robot `r` when it starts. -/
def Robot.init (S : Setup K Cloud P D T) [Inhabited Gps] (r : ℕ) : Robot S Gps where
  handler := { latestGps := default }
  detector :=
    { lcm := { candidateSelector := (selector (S.selectionOf r)).init }
      neighborManager := S.monitorsOf r }

/-- All front ends and the network; the output is what a step publishes. -/
def swarm (S : Setup K Cloud P D T) (Gps : Type*) [Inhabited Gps] :
    Machine (State S Gps) (Event K Cloud Gps) (List (Message P D T)) where
  init := { robots := Robot.init S }
  step s e :=
    if e.robot < S.nbRobots then
      ((s.robots e.robot).act S s.published e).map fun x =>
        ({ robots := Function.update s.robots e.robot x.1
           published := s.published ++ x.2 }, x.2)
    else none

/-! ### Two robots -/

open scoped Arithmetic.Exact

/-- Two robots whose clouds are their own descriptors. -/
def pair : Setup ℚ (List ℚ) ℚ (NearestNeighborsMatching.Vec 2) ℚ where
  matcher := LoopClosureSparseMatching.plane
  handler := {}
  detection :=
    { LoopClosureSparseMatching.two with
      enableIntraRobotLoopClosures := true
      detectionPublicationMaxElemsPerMsg := 10
      interRobotLoopClosureBudget := 1
      useVertexCoverSelection := true }
  selection := Selection.two
  monitors :=
    { robotId := 0, maxNbRobots := 2, maxElems := 10, enableNeighborMonitoring := true
      initDelaySec := 0, maxDelaySec := 5, initTime := 0 }
  downsample cloud _ := some cloud
  computeEmbedding points := if h : points.length = 2 then ⟨points, h⟩ else ⟨[0, 1], rfl⟩
  computeTransform points0 points1 := (points0.sum - points1.sum, points0.length = points1.length)
  unset := 0
  nx := GraphAlgorithms.exhaustive Vertex
  order := SetOrder.byVertex

/-- A selection in which the solver always raises. -/
def selectNow : GlobalDescriptorLoopClosureDetection.DetectEnv where
  now _ := 2
  now' _ := 2
  selection := Env.raising (TopK.sorted fun _ => false)
  randint _ := false

/-- Both robots make a keyframe of the same place, and they hear of each other. -/
def encounter : List (Event ℚ (List ℚ) ℚ) :=
  [.sensor 0 (.lidarCallback [3, 4] ⟨⟨0, 0, 0⟩, 0⟩), .sensor 0 .processNewSensorData,
    .sensor 1 (.lidarCallback [6, 8] ⟨⟨5, 0, 0⟩, 0⟩), .sensor 1 .processNewSensorData,
    .deliver 0 0, .deliver 1 1, .heartbeat 0 1 1 1 1, .heartbeat 1 0 0 1 1,
    .descriptorsTimer 1 (fun _ => 2) fun _ => 2, .deliver 0 2]

/-- Robot 0 selects the match and sends its keyframe, which reaches robot 1 twice. -/
def verify : List (Event ℚ (List ℚ) ℚ) :=
  [.detectInter 0 selectNow, .deliver 0 3, .deliver 1 4, .deliver 1 4, .deliver 0 5]

/-- The loop closure of robot 1. -/
def verified : InterRobotLoopClosure ℚ := ⟨true, 1, 0, 0, 0, 7⟩

example : ((swarm pair ℚ).exec (encounter ++ verify)).map (fun x => x.2.published.drop 5) =
    some [.interRobotLoopClosure verified, .interRobotLoopClosure verified] := by decide +kernel

end RoverSwarm.Swarm
