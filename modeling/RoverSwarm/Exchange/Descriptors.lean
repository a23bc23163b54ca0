import RoverSwarm.Exchange.Neighbors
import RoverSwarm.Lib.HighWater
import RoverSwarm.Lib.SortedDict
import RoverSwarm.Lib.Transition

/-!
# Exchange.Descriptors — the global descriptors of one robot and its neighbors

The sender side and the receiver side of `GlobalDescriptorLoopClosureDetection`, and `network`: one
sender, its broadcast topic, and the robots that receive from it.  A chunk is put into the inbox of
every robot connected when it is published, and delivered in order.  What a descriptor is matched
with does not matter here; a receiver is what it has handed to
`add_other_robot_global_descriptor`.
-/

namespace RoverSwarm.Exchange

open Transition HighWater

variable {D : Type*}

structure GlobalDescriptor (D : Type*) where
  keyframeId : ℕ
  robotId : ℕ
  descriptor : D
deriving DecidableEq, Repr

/-- The keyframe id as the monitors compare it. -/
def GlobalDescriptor.key (d : GlobalDescriptor D) : ℤ := d.keyframeId

/-! ### The sender -/

/-- The loop of `dict_to_list_chunks`, with the chunk under construction. -/
def chunksFrom {β : Type*} (start : ℤ) (chunkSize : ℕ) : List (ℕ × β) → List β → List (List β)
  | [], tmp => if 0 < tmp.length then [tmp] else []
  | (k, v) :: es, tmp =>
    if start ≤ k then
      if (tmp ++ [v]).length = chunkSize then (tmp ++ [v]) :: chunksFrom start chunkSize es []
      else chunksFrom start chunkSize es (tmp ++ [v])
    else chunksFrom start chunkSize es tmp

/-- `dict_to_list_chunks`. -/
def dictToListChunks {β : Type*} (d : SortedDict ℕ β) (start : ℤ) (chunkSize : ℕ) :
    List (List β) := chunksFrom start chunkSize d.entries []

/-- What a robot sends from. -/
structure Sender (D : Type*) where
  neighborManager : NeighborManager
  globalDescriptorsBuffer : SortedDict ℕ (GlobalDescriptor D) := ∅

/-- `add_global_descriptor_to_map`: the part that stores the descriptor. -/
def addGlobalDescriptorToMap (s : Sender D) (embedding : D) (kfId : ℕ) : Sender D :=
  let msg : GlobalDescriptor D :=
    { keyframeId := kfId, robotId := s.neighborManager.robotId, descriptor := embedding }
  { s with globalDescriptorsBuffer := s.globalDescriptorsBuffer.set kfId msg }

/-- `delete_useless_descriptors` on a buffer from `first` to `last`. -/
def deleteUselessDescriptors (s : Sender D) (first last : ℕ) : Sender D :=
  let fromKfId := s.neighborManager.uselessDescriptors last
  if first ≤ fromKfId then
    { s with globalDescriptorsBuffer :=
        s.globalDescriptorsBuffer.deleteWalking fun k => (k : ℤ) < fromKfId }
  else s

/-- `global_descriptors_timer_callback`, with the clock readings of the two loops of
`select_from_which_kf_to_send`; the chunks are published in order. -/
def globalDescriptorsTimerCallback (s : Sender D) (maxElems : ℕ) (now now' : ℕ → ℚ) :
    Sender D × List (List (GlobalDescriptor D)) :=
  match s.globalDescriptorsBuffer.firstKey?, s.globalDescriptorsBuffer.lastKey? with
  | some first, some last =>
    let (manager, fromKfId) := s.neighborManager.selectFromWhichKfToSend last now now'
    let msgs := dictToListChunks s.globalDescriptorsBuffer (fromKfId - first) maxElems
    (deleteUselessDescriptors { s with neighborManager := manager } first last, msgs)
  | _, _ => (s, [])

/-! ### The receivers -/

/-- What a robot receives into; `handed` is what went to `add_other_robot_global_descriptor`. -/
structure Receiver (D : Type*) where
  neighborManager : NeighborManager
  handed : List (GlobalDescriptor D) := []

/-- `get_unknown_range`: the descriptors at the positions it returns, in order. -/
def getUnknownRange (m : NeighborManager) (descriptors : List (GlobalDescriptor D))
    (otherRobotId : ℕ) : NeighborManager × List (GlobalDescriptor D) :=
  let received := (m.neighborsMonitors otherRobotId).lastKeyframeReceived
  let lastId := ((descriptors.map GlobalDescriptor.key).max?).getD received
  (m.updateReceivedKfId otherRobotId (max received lastId),
    descriptors.filter fun d => received < d.key)

/-- `global_descriptor_callback`; a message without descriptors is not published. -/
def globalDescriptorCallback (r : Receiver D) (msg : List (GlobalDescriptor D)) : Receiver D :=
  match msg.head? with
  | none => r
  | some d =>
    if d.robotId ≠ r.neighborManager.robotId then
      let (manager, unknown) := getUnknownRange r.neighborManager msg d.robotId
      { neighborManager := manager, handed := r.handed ++ unknown }
    else r

/-! ### The network -/

structure Params where
  robotId : ℕ
  maxNbRobots : ℕ
  maxElems : ℕ
  enableNeighborMonitoring : Bool
  initDelaySec : ℚ
  maxDelaySec : ℚ
  initTime : ℚ

/-- The manager of robot `id` after its constructor. -/
def Params.manager (R : Params) (id : ℕ) : NeighborManager where
  robotId := id
  maxNbRobots := R.maxNbRobots
  neighborsMonitors rid :=
    { isEnabled := R.enableNeighborMonitoring
      originRobotId := rid
      initDelaySec := R.initDelaySec
      maxDelaySec := R.maxDelaySec
      initTime := R.initTime
      latestTimeStamp := R.initTime }

/-- The sender, the robots that receive from it, and the chunks on their way.  `added` is a ghost:
every descriptor the sender has added, in order. -/
structure Net (D : Type*) where
  sender : Sender D
  receivers : ℕ → Receiver D
  connected : ℕ → Bool := fun _ => false
  inbox : ℕ → List (List (GlobalDescriptor D)) := fun _ => []
  added : List (GlobalDescriptor D) := []

inductive Event (D : Type*)
  | addKeyframe (embedding : D) (kfId : ℕ)
  /-- A heartbeat of a neighbor reaches the sender. -/
  | heartbeat (rid data : ℕ) (now later : ℚ)
  | timer (now now' : ℕ → ℚ)
  | connect (rid : ℕ)
  | disconnect (rid : ℕ)
  /-- The oldest chunk in the inbox of a robot reaches its callback. -/
  | deliver (rid : ℕ)

def Net.step (R : Params) (s : Net D) : Event D → Net D × List (List (GlobalDescriptor D))
  | .addKeyframe embedding kfId =>
    ({ s with
        sender := addGlobalDescriptorToMap s.sender embedding kfId
        added := s.added ++ [⟨kfId, s.sender.neighborManager.robotId, embedding⟩] }, [])
  | .heartbeat rid data now later =>
    let m := s.sender.neighborManager
    let monitor := (m.neighborsMonitors rid).heartbeatCallback data now later
    let m := { m with neighborsMonitors := Function.update m.neighborsMonitors rid monitor }
    ({ s with sender := { s.sender with neighborManager := m } }, [])
  | .timer now now' =>
    let (sender, msgs) := globalDescriptorsTimerCallback s.sender R.maxElems now now'
    ({ s with
        sender := sender
        inbox := fun r => if s.connected r then s.inbox r ++ msgs else s.inbox r }, msgs)
  | .connect rid => ({ s with connected := Function.update s.connected rid true }, [])
  | .disconnect rid => ({ s with connected := Function.update s.connected rid false }, [])
  | .deliver rid =>
    match s.inbox rid with
    | [] => (s, [])
    | chunk :: rest =>
      ({ s with
          inbox := Function.update s.inbox rid rest
          receivers := Function.update s.receivers rid
            (globalDescriptorCallback (s.receivers rid) chunk) }, [])

/-- One sender and its neighbors, nobody connected. -/
def network (D : Type*) (R : Params) :
    Process (Net D) (Event D) (List (List (GlobalDescriptor D))) where
  init :=
    { sender := { neighborManager := R.manager R.robotId }
      receivers := fun id => { neighborManager := R.manager id } }
  step := Net.step R

@[simp] theorem network_step (R : Params) : (network D R).step = Net.step R := rfl

end RoverSwarm.Exchange
