import Mathlib.Data.Rat.Defs
import Mathlib.Algebra.Order.Ring.Unbundled.Rat
import Mathlib.Logic.Function.Basic
import Mathlib.Order.MinMax
import Mathlib.Tactic.Tauto

/-!
# Exchange.Neighbors — `NeighborMonitor` and `NeighborManager`

Whether a neighbor is alive depends on the clock at the moment of the question, so every function
that asks takes the readings as an argument; a function that asks in two loops takes two.
-/

namespace RoverSwarm.Exchange

/-- `NeighborMonitor`; times are in seconds. -/
structure NeighborMonitor where
  isEnabled : Bool
  originRobotId : ℕ
  initDelaySec : ℚ
  maxDelaySec : ℚ
  firstHeartbeatReceived : Bool := false
  initTime : ℚ
  latestTimeStamp : ℚ
  lastKeyframeReceived : ℤ := -1
  lastKeyframeSent : ℤ := -1
  lastMatchSent : ℤ := -1
deriving DecidableEq, Repr

namespace NeighborMonitor

/-- `heartbeat_callback`; the clock is read once for the time stamp and, at the first heartbeat,
once more. -/
def heartbeatCallback (m : NeighborMonitor) (data : ℕ) (now later : ℚ) : NeighborMonitor :=
  let m := { m with originRobotId := data, latestTimeStamp := now }
  if !m.firstHeartbeatReceived then { m with firstHeartbeatReceived := true, initTime := later }
  else m

@[simp] theorem heartbeatCallback_lastKeyframeSent (m : NeighborMonitor) (data : ℕ)
    (now later : ℚ) :
    (m.heartbeatCallback data now later).lastKeyframeSent = m.lastKeyframeSent := by
  unfold heartbeatCallback
  dsimp only
  split_ifs <;> rfl

@[simp] theorem heartbeatCallback_lastMatchSent (m : NeighborMonitor) (data : ℕ) (now later : ℚ) :
    (m.heartbeatCallback data now later).lastMatchSent = m.lastMatchSent := by
  unfold heartbeatCallback
  dsimp only
  split_ifs <;> rfl

/-- `is_alive`; without monitoring the function has no return statement, and None is false. -/
def isAlive (m : NeighborMonitor) (now : ℚ) : Bool :=
  if m.isEnabled then
    m.firstHeartbeatReceived && m.initDelaySec < now - m.initTime &&
      now - m.latestTimeStamp < m.maxDelaySec
  else false

end NeighborMonitor

/-- `NeighborManager`. -/
structure NeighborManager where
  robotId : ℕ
  maxNbRobots : ℕ
  neighborsMonitors : ℕ → NeighborMonitor

namespace NeighborManager

variable (m : NeighborManager)

/-- The ids the loops over the robots visit: all but the robot's own. -/
def others : List ℕ := (List.range m.maxNbRobots).filter fun i => i ≠ m.robotId

/-- The neighbor is alive at the reading for it. -/
def alive (now : ℕ → ℚ) (i : ℕ) : Bool := (m.neighborsMonitors i).isAlive (now i)

/-- `check_neighbors_in_range`: which robots are in range, and the list of them. -/
def checkNeighborsInRange (now : ℕ → ℚ) : (ℕ → Bool) × List ℕ :=
  let inRange := fun i => i == m.robotId || m.alive now i
  (inRange, (List.range m.maxNbRobots).filter inRange)

/-- `local_robot_is_broker`. -/
def localRobotIsBroker (now : ℕ → ℚ) : Bool :=
  (m.others.filter (m.alive now)).all fun i => !(m.robotId > i)

/-- The least `last_keyframe_sent` of the neighbors `ids`, and `start`. -/
def leastSent (ids : List ℕ) (start : ℤ) : ℤ :=
  ids.foldl (fun fromKfId i => min (m.neighborsMonitors i).lastKeyframeSent fromKfId) start

/-- `select_from_which_kf_to_send`, with the clock readings of its two loops. -/
def selectFromWhichKfToSend (latestLocalId : ℤ) (now now' : ℕ → ℚ) : NeighborManager × ℤ :=
  let fromKfId := m.leastSent (m.others.filter (m.alive now)) latestLocalId
  ({ m with neighborsMonitors := fun i =>
      if i ∈ m.others ∧ m.alive now' i = true then
        { m.neighborsMonitors i with lastKeyframeSent := latestLocalId }
      else m.neighborsMonitors i },
    fromKfId + 1)

/-- `useless_descriptors`. -/
def uselessDescriptors (lastKfId : ℤ) : ℤ := m.leastSent m.others lastKfId

/-- The least `last_match_sent` of the neighbors `ids`, and `start`. -/
def leastMatchSent (ids : List ℕ) (start : ℤ) : ℤ :=
  ids.foldl (fun fromMatchId i => min (m.neighborsMonitors i).lastMatchSent fromMatchId) start

/-- `select_from_which_match_to_send`, with the clock readings of its two loops. -/
def selectFromWhichMatchToSend (latestLocalMatchIdx : ℤ) (now now' : ℕ → ℚ) :
    NeighborManager × ℤ :=
  let fromMatchId := m.leastMatchSent (m.others.filter (m.alive now)) latestLocalMatchIdx
  ({ m with neighborsMonitors := fun i =>
      if i ∈ m.others ∧ m.alive now' i = true then
        { m.neighborsMonitors i with lastMatchSent := latestLocalMatchIdx }
      else m.neighborsMonitors i },
    fromMatchId + 1)

/-- `useless_matches`. -/
def uselessMatches (lastMatchId : ℤ) : ℤ := m.leastMatchSent m.others lastMatchId

/-- `update_received_kf_id`. -/
def updateReceivedKfId (otherRobotId : ℕ) (kfId : ℤ) : NeighborManager :=
  let monitor := { m.neighborsMonitors otherRobotId with lastKeyframeReceived := kfId }
  { m with neighborsMonitors := Function.update m.neighborsMonitors otherRobotId monitor }

variable {m}

/-- What has been sent does not tell who is alive. -/
theorem checkNeighborsInRange_selectFromWhichMatchToSend (latestLocalMatchIdx : ℤ)
    (now now' now'' : ℕ → ℚ) :
    (m.selectFromWhichMatchToSend latestLocalMatchIdx now now').1.checkNeighborsInRange now'' =
      m.checkNeighborsInRange now'' := by
  have halive (i : ℕ) :
      (m.selectFromWhichMatchToSend latestLocalMatchIdx now now').1.alive now'' i =
        m.alive now'' i := by
    unfold selectFromWhichMatchToSend alive
    dsimp only
    split_ifs <;> rfl
  unfold checkNeighborsInRange
  simp only [halive]
  rfl

/-- A bound of the least of some values and a start is one of them all. -/
theorem le_foldl_min_iff {sent : ℕ → ℤ} {ids : List ℕ} {start b : ℤ} :
    b ≤ ids.foldl (fun fromId i => min (sent i) fromId) start ↔ b ≤ start ∧ ∀ i ∈ ids, b ≤ sent i := by
  induction ids generalizing start with
  | nil => simp
  | cons i ids ih =>
    rw [List.foldl_cons, ih, le_min_iff, List.forall_mem_cons]
    tauto

theorem le_leastSent_iff {ids : List ℕ} {start b : ℤ} :
    b ≤ m.leastSent ids start ↔
      b ≤ start ∧ ∀ i ∈ ids, b ≤ (m.neighborsMonitors i).lastKeyframeSent := le_foldl_min_iff

theorem leastSent_le {ids : List ℕ} {start : ℤ} {i : ℕ} (hi : i ∈ ids) :
    m.leastSent ids start ≤ (m.neighborsMonitors i).lastKeyframeSent :=
  (le_leastSent_iff.mp le_rfl).2 i hi

end NeighborManager

end RoverSwarm.Exchange
