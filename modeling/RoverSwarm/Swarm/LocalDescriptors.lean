import RoverSwarm.LidarHandler
import RoverSwarm.Selection.FixedEdges

/-!
# Swarm.LocalDescriptors — the point clouds that are sent to be registered

A robot that is asked for the local descriptors of a keyframe broadcasts its cloud, with the
keyframes it is to be registered with.  Every robot registers it with those of them that are its
own.  All three callbacks look clouds up in `local_descriptors_map`, and raise if one is missing.
The machines have one byte order, so that a cloud can be read again and again, and the messages hold
the points themselves.  `computeTransform` is `icp_utils.compute_transform`.
-/

namespace RoverSwarm.LidarHandler

open Pgo

variable {K Cloud P Gps T : Type*} [Arithmetic K]

/-- The two parallel lists of the matches are one list of pairs. -/
structure LocalDescriptorsRequest where
  keyframeId : ℕ
  matchesRobotAndKeyframeId : List (ℕ × ℕ)
deriving DecidableEq

deriving instance DecidableEq for Selection.LocalPointCloudDescriptors

/-- With its point cloud. -/
structure LocalPointCloudDescriptors (P : Type*) extends Selection.LocalPointCloudDescriptors where
  data : List P
deriving DecidableEq

/-- The answer to a request, with the cloud of its keyframe. -/
def answer (p : Params K) (request : LocalDescriptorsRequest) (data : List P) :
    LocalPointCloudDescriptors P where
  robotId := p.robotId
  keyframeId := request.keyframeId
  matchesRobotAndKeyframeId := request.matchesRobotAndKeyframeId
  data := data

/-- `send_local_descriptors_request`; `none` if the keyframe has no cloud. -/
def sendLocalDescriptorsRequest (p : Params K) (s : State K Cloud P Gps)
    (request : LocalDescriptorsRequest) : Option (LocalPointCloudDescriptors P) :=
  (s.localDescriptorsMap.get? request.keyframeId).map (answer p request)

section Register

variable (computeTransform : List P → List P → T × Bool) (unset : T)

/-- `receive_local_descriptors`, with the clouds there are. -/
def receiveLocalDescriptors (p : Params K) (s : State K Cloud P Gps)
    (msg : LocalPointCloudDescriptors P) : List (InterRobotLoopClosure T) × Bool :=
  Selection.receiveLocalDescriptors p.robotId
    (fun frameId => (s.localDescriptorsMap.get? frameId).map fun pc => computeTransform pc msg.data)
    unset msg.toLocalPointCloudDescriptors

/-- `receive_local_keyframe_match`; `none` if one of the keyframes has no cloud. -/
def receiveLocalKeyframeMatch (s : State K Cloud P Gps) (keyframe0Id keyframe1Id : ℕ) :
    Option (IntraRobotLoopClosure T) :=
  (s.localDescriptorsMap.get? keyframe0Id).bind fun pc0 =>
    (s.localDescriptorsMap.get? keyframe1Id).map fun pc1 =>
      let (transform, success) := computeTransform pc0 pc1
      { keyframe0Id, keyframe1Id, success
        transform := if success then transform else unset }

end Register

/-! ### The map only grows -/

section Map

variable {p : Params K} {downsample : Cloud → K → Option (List P)} {s : State K Cloud P Gps}

/-- The clouds published by a step, with their ids. -/
def clouds (msgs : List (Msg K P Gps)) : List (ℕ × List P) :=
  msgs.filterMap fun
    | .keyframeData id points => some (id, points)
    | _ => none

theorem clouds_keyframeMsgs (id : ℕ) (points : List P) (odom : Odometry K) (gps : Option Gps) :
    clouds (keyframeMsgs p id points odom gps) = [(id, points)] := by
  unfold keyframeMsgs
  split_ifs <;> rfl

/-- What a step does to the clouds: those below the counter stay, and one that is published is the
one at the counter, which goes on. -/
structure Keeps (s s' : State K Cloud P Gps) (published : List (ℕ × List P)) : Prop where
  counter : s.nbLocalKeyframes ≤ s'.nbLocalKeyframes
  old : ∀ id < s.nbLocalKeyframes,
    s'.localDescriptorsMap.get? id = s.localDescriptorsMap.get? id
  new : ∀ x ∈ published, x.1 < s'.nbLocalKeyframes ∧
    s'.localDescriptorsMap.get? x.1 = some x.2

omit [Arithmetic K] in
theorem Keeps.of_same {s' : State K Cloud P Gps} (hnb : s'.nbLocalKeyframes = s.nbLocalKeyframes)
    (hmap : s'.localDescriptorsMap = s.localDescriptorsMap) : Keeps s s' [] where
  counter := hnb.ge
  old id _ := by rw [hmap]
  new x hx := absurd hx List.not_mem_nil

theorem storeKeyframe_keeps (p : Params K) (downsample : Cloud → K → Option (List P))
    (s : State K Cloud P Gps) (cloud : Cloud) (odom : Odometry K)
    (gps : Option Gps) : Keeps s (storeKeyframe p downsample s cloud odom gps).1
      (clouds (storeKeyframe p downsample s cloud odom gps).2) := by
  unfold storeKeyframe
  cases downsample cloud p.voxelSize with
  | none =>
    refine ⟨le_rfl, fun id hid => ?_, fun x hx => absurd hx List.not_mem_nil⟩
    show (s.localDescriptorsMap.set _ _).get? id = _
    rw [Dict.get?_set, if_neg (by omega)]
  | some points =>
    refine ⟨Nat.le_succ _, fun id hid => ?_, fun x hx => ?_⟩
    · show (s.localDescriptorsMap.set _ _).get? id = _
      rw [Dict.get?_set, if_neg (by omega)]
    · have hx : x ∈ clouds (keyframeMsgs p s.nbLocalKeyframes points odom gps) := hx
      rw [clouds_keyframeMsgs, List.mem_singleton] at hx
      subst hx
      refine ⟨Nat.lt_succ_self _, ?_⟩
      show (s.localDescriptorsMap.set _ _).get? _ = _
      rw [Dict.get?_set, if_pos rfl]

omit [Arithmetic K] in
/-- Where the queues and the reference have changed, nothing has. -/
theorem Keeps.of_start {t s' : State K Cloud P Gps} {published : List (ℕ × List P)}
    (h : Keeps t s' published) (hnb : t.nbLocalKeyframes = s.nbLocalKeyframes)
    (hmap : t.localDescriptorsMap = s.localDescriptorsMap) : Keeps s s' published where
  counter := hnb ▸ h.counter
  old id hid := hmap ▸ h.old id (hnb ▸ hid)
  new := h.new

theorem popGps_same {s' : State K Cloud P Gps} {gps : Option Gps} (h : popGps p s = some (s', gps)) :
    s'.nbLocalKeyframes = s.nbLocalKeyframes ∧ s'.localDescriptorsMap = s.localDescriptorsMap := by
  unfold popGps at h
  split_ifs at h
  · cases hgps : s.gpsData with
    | nil => simp [hgps] at h
    | cons gps rest =>
      rw [hgps] at h
      obtain ⟨rfl, -⟩ := Prod.mk.inj (Option.some.inj h)
      exact ⟨rfl, rfl⟩
  · obtain ⟨rfl, -⟩ := Prod.mk.inj (Option.some.inj h)
    exact ⟨rfl, rfl⟩

theorem generateNewKeyframe_same (s : State K Cloud P Gps) (odom : Odometry K) :
    (generateNewKeyframe p s odom).1.nbLocalKeyframes = s.nbLocalKeyframes ∧
      (generateNewKeyframe p s odom).1.localDescriptorsMap = s.localDescriptorsMap := by
  unfold generateNewKeyframe
  split_ifs <;> exact ⟨rfl, rfl⟩

theorem processNewSensorData_keeps {s' : State K Cloud P Gps} {msgs : List (Msg K P Gps)}
    (hs : processNewSensorData p downsample s = some (s', msgs)) : Keeps s s' (clouds msgs) := by
  unfold processNewSensorData at hs
  cases hdata : s.receivedData with
  | nil =>
    rw [hdata] at hs
    obtain ⟨rfl, rfl⟩ := Prod.mk.inj (Option.some.inj hs)
    exact .of_same rfl rfl
  | cons data rest =>
    rw [hdata] at hs
    obtain ⟨⟨t, gps⟩, hpop, hresult⟩ := Option.map_eq_some_iff.mp hs
    obtain ⟨hnb, hmap⟩ := popGps_same hpop
    obtain ⟨hnb', hmap'⟩ := generateNewKeyframe_same (p := p) t data.2
    dsimp only at hresult
    split_ifs at hresult
    · have hkeeps := storeKeyframe_keeps p downsample
        (generateNewKeyframe p t data.2).1 data.1 data.2 gps
      rw [hresult] at hkeeps
      exact hkeeps.of_start (hnb'.trans hnb) (hmap'.trans hmap)
    · obtain ⟨rfl, rfl⟩ := Prod.mk.inj hresult
      exact .of_same (hnb'.trans hnb) (hmap'.trans hmap)

/-- **Step lemma**, one case per callback. -/
theorem step_keeps {s' : State K Cloud P Gps} {e : Event K Cloud Gps} {msgs : List (Msg K P Gps)}
    (hs : step p downsample s e = some (s', msgs)) : Keeps s s' (clouds msgs) := by
  cases e with
  | lidarCallback cloud odom =>
    obtain ⟨rfl, rfl⟩ := Prod.mk.inj (Option.some.inj hs)
    have hsame : (lidarCallback p s cloud odom).nbLocalKeyframes = s.nbLocalKeyframes ∧
        (lidarCallback p s cloud odom).localDescriptorsMap = s.localDescriptorsMap := by
      unfold lidarCallback
      split_ifs <;> exact ⟨rfl, rfl⟩
    exact .of_same hsame.1 hsame.2
  | gpsCallback gps =>
    obtain ⟨rfl, rfl⟩ := Prod.mk.inj (Option.some.inj hs)
    exact .of_same rfl rfl
  | processNewSensorData => exact processNewSensorData_keeps hs

end Map

end RoverSwarm.LidarHandler
