import Mathlib.Algebra.Order.Field.Rat
import Mathlib.Tactic.NormNum
import RoverSwarm.Lib.Arithmetic
import RoverSwarm.Lib.Dict
import RoverSwarm.Lib.Transition

/-!
# LidarHandler — keyframes from lidar clouds

The handler queues pairs of a cloud and an odometry, and a timer takes one of them at a time.  A
pair becomes a keyframe if it is the first or far enough from the last one, and its cloud is then
downsampled, which may fail.  The reference odometry is set before that, and a failure leaves an
empty cloud behind.  A callback that raises ends the run.

Distances are computed in an arithmetic `K`, and an odometry is far from another one if the code's
own test says so.
-/

namespace RoverSwarm.LidarHandler

open Transition

structure Point (K : Type*) where
  x : K
  y : K
  z : K
deriving DecidableEq

/-- What the handler reads of an odometry message. -/
structure Odometry (K : Type*) where
  position : Point K
  covariance0 : K
deriving DecidableEq

structure Params (K : Type*) [Arithmetic K] where
  ratioDistance : K := 0.5
  voxelSize : K := 0.5
  robotId : ℕ := 0
  enableGpsRecording : Bool := false
  enableVisualization : Bool := false

/-- What the handler publishes. -/
inductive Msg (K P Gps : Type*)
  | keyframeData (id : ℕ) (pointcloud : List P)
  | keyframeOdom (id : ℕ) (odom : Odometry K) (gps : Option Gps)
  | viz (robotId keyframeId : ℕ) (pointcloud : List P)
deriving DecidableEq

structure State (K Cloud P Gps : Type*) where
  receivedData : List (Cloud × Odometry K) := []
  localDescriptorsMap : Dict ℕ (List P) := ∅
  nbLocalKeyframes : ℕ := 0
  previousOdom : Option (Odometry K) := none
  gpsData : List Gps := []
  latestGps : Gps

inductive Event (K Cloud Gps : Type*)
  | lidarCallback (cloud : Cloud) (odom : Odometry K)
  | gpsCallback (gps : Gps)
  | processNewSensorData
deriving DecidableEq

variable {K Cloud P Gps : Type*}

/-! ### The callbacks -/

section Code

variable [Arithmetic K]

def lidarCallback (p : Params K) (s : State K Cloud P Gps) (cloud : Cloud) (odom : Odometry K) :
    State K Cloud P Gps :=
  if odom.covariance0 > (1000 : ℕ) then s
  else
    { s with
      receivedData := s.receivedData ++ [(cloud, odom)]
      gpsData := if p.enableGpsRecording then s.gpsData ++ [s.latestGps] else s.gpsData }

def odomDistanceSquared (odom0 odom1 : Odometry K) : K :=
  (odom0.position.x - odom1.position.x) ^ 2 + (odom0.position.y - odom1.position.y) ^ 2 +
    (odom0.position.z - odom1.position.z) ^ 2

/-- The test that makes a keyframe of an odometry: it is far from the reference. -/
def farther (p : Params K) (odom0 odom1 : Odometry K) : Bool :=
  odomDistanceSquared odom0 odom1 > p.ratioDistance ^ 2

/-- Whether an odometry calls for a keyframe: there is no reference, or it is far from it. -/
def due (p : Params K) (reference : Option (Odometry K)) (odom : Odometry K) : Bool :=
  reference.all fun prev => farther p prev odom

/-- `generate_new_keyframe`: the new reference is set here already. -/
def generateNewKeyframe (p : Params K) (s : State K Cloud P Gps) (odom : Odometry K) :
    State K Cloud P Gps × Bool :=
  if due p s.previousOdom odom then ({ s with previousOdom := some odom }, true) else (s, false)

/-- Takes the GPS fix of the next pair; `none` if there is none, and `gps_data[0]` raises. -/
def popGps (p : Params K) (s : State K Cloud P Gps) : Option (State K Cloud P Gps × Option Gps) :=
  if p.enableGpsRecording then
    match s.gpsData with
    | [] => none
    | gps :: rest => some ({ s with gpsData := rest }, some gps)
  else some (s, none)

/-- The messages of a keyframe. -/
def keyframeMsgs (p : Params K) (id : ℕ) (points : List P) (odom : Odometry K) (gps : Option Gps) :
    List (Msg K P Gps) :=
  [.keyframeData id points, .keyframeOdom id odom gps] ++
    if p.enableVisualization then [.viz p.robotId id points] else []

section Handler

variable (p : Params K) (downsample : Cloud → K → Option (List P))

/-- What is done with a pair that is due. -/
def storeKeyframe (s : State K Cloud P Gps) (cloud : Cloud) (odom : Odometry K) (gps : Option Gps) :
    State K Cloud P Gps × List (Msg K P Gps) :=
  match downsample cloud p.voxelSize with
  | none =>
    ({ s with localDescriptorsMap := s.localDescriptorsMap.set s.nbLocalKeyframes [] }, [])
  | some points =>
    ({ s with
      localDescriptorsMap := s.localDescriptorsMap.set s.nbLocalKeyframes points
      nbLocalKeyframes := s.nbLocalKeyframes + 1 },
      keyframeMsgs p s.nbLocalKeyframes points odom gps)

/-- `process_new_sensor_data`; `downsample` is `none` where it raises, and the whole is if there is
no GPS fix for the pair. -/
def processNewSensorData (s : State K Cloud P Gps) :
    Option (State K Cloud P Gps × List (Msg K P Gps)) :=
  match s.receivedData with
  | [] => some (s, [])
  | data :: rest =>
    (popGps p { s with receivedData := rest }).map fun (s, gps) =>
      let (s, isNew) := generateNewKeyframe p s data.2
      if isNew then storeKeyframe p downsample s data.1 data.2 gps else (s, [])

def step (s : State K Cloud P Gps) :
    Event K Cloud Gps → Option (State K Cloud P Gps × List (Msg K P Gps))
  | .lidarCallback cloud odom => some (lidarCallback p s cloud odom, [])
  | .gpsCallback gps => some ({ s with latestGps := gps }, [])
  | .processNewSensorData => processNewSensorData p downsample s

/-- The handler; the first GPS fix is the message with no fields set. -/
def handler [Inhabited Gps] :
    Machine (State K Cloud P Gps) (Event K Cloud Gps) (List (Msg K P Gps)) where
  init := { latestGps := default }
  step := step p downsample

end Handler

end Code

/-! ### One call -/

section Process

variable [Arithmetic K] {p : Params K} {downsample : Cloud → K → Option (List P)}
  {s : State K Cloud P Gps}

/-- As many GPS fixes wait as pairs, if they are recorded. -/
def Aligned (p : Params K) (s : State K Cloud P Gps) : Prop :=
  p.enableGpsRecording = true → s.gpsData.length = s.receivedData.length

theorem popGps_of_aligned (h : Aligned p s) {data : Cloud × Odometry K}
    {rest : List (Cloud × Odometry K)} (hdata : s.receivedData = data :: rest) :
    ∃ gpsData gps, popGps p { s with receivedData := rest } =
        some ({ s with receivedData := rest, gpsData := gpsData }, gps) ∧
      (p.enableGpsRecording = true → gpsData.length = rest.length) := by
  unfold popGps
  by_cases hgps : p.enableGpsRecording = true
  · have hlen := h hgps
    rw [if_pos hgps]
    cases hd : s.gpsData with
    | nil =>
      rw [hd, hdata] at hlen
      simp at hlen
    | cons gps gpsData =>
      rw [hd, hdata] at hlen
      refine ⟨gpsData, some gps, rfl, fun _ => ?_⟩
      simpa using hlen
  · rw [if_neg hgps]
    exact ⟨s.gpsData, none, rfl, fun hon => absurd hon hgps⟩

theorem processNewSensorData_nil (downsample : Cloud → K → Option (List P))
    (hdata : s.receivedData = []) : processNewSensorData p downsample s = some (s, []) := by
  unfold processNewSensorData
  rw [hdata]

/-- **What a call does with a pair**: nothing to keyframes if the pair is not due, a keyframe if the
downsampling works, and an empty cloud in the map if it fails. -/
theorem processNewSensorData_cons (downsample : Cloud → K → Option (List P)) (h : Aligned p s)
    {cloud : Cloud} {odom : Odometry K} {rest : List (Cloud × Odometry K)}
    (hdata : s.receivedData = (cloud, odom) :: rest) :
    ∃ gpsData gps, (p.enableGpsRecording = true → gpsData.length = rest.length) ∧
      processNewSensorData p downsample s = some (
        if due p s.previousOdom odom then
          storeKeyframe p downsample { s with
            receivedData := rest
            gpsData := gpsData
            previousOdom := some odom } cloud odom gps
        else ({ s with receivedData := rest, gpsData := gpsData }, [])) := by
  obtain ⟨gpsData, gps, hpop, hlen⟩ := popGps_of_aligned h hdata
  refine ⟨gpsData, gps, hlen, ?_⟩
  unfold processNewSensorData
  rw [hdata]
  dsimp only
  rw [hpop, Option.map_some]
  unfold generateNewKeyframe
  by_cases hdue : due p s.previousOdom odom = true
  · simp [hdue]
  · simp [hdue]

/-- The trace of a keyframe that fails. -/
theorem processNewSensorData_failed (h : Aligned p s) {cloud : Cloud} {odom : Odometry K}
    {rest : List (Cloud × Odometry K)} (hdata : s.receivedData = (cloud, odom) :: rest)
    (hdue : due p s.previousOdom odom = true) (hnone : downsample cloud p.voxelSize = none) :
    ∃ s' : State K Cloud P Gps, processNewSensorData p downsample s = some (s', []) ∧
      s'.previousOdom = some odom ∧ s'.nbLocalKeyframes = s.nbLocalKeyframes ∧
      s'.localDescriptorsMap = s.localDescriptorsMap.set s.nbLocalKeyframes [] := by
  obtain ⟨gpsData, gps, -, heq⟩ := processNewSensorData_cons downsample h hdata
  rw [if_pos hdue] at heq
  unfold storeKeyframe at heq
  rw [hnone] at heq
  exact ⟨_, heq, rfl, rfl, rfl⟩

/-- A call on a pair that is not due. -/
theorem processNewSensorData_notDue (downsample : Cloud → K → Option (List P)) (h : Aligned p s)
    {cloud : Cloud} {odom : Odometry K} {rest : List (Cloud × Odometry K)}
    (hdata : s.receivedData = (cloud, odom) :: rest) (hdue : ¬ due p s.previousOdom odom = true) :
    ∃ gpsData, processNewSensorData p downsample s =
      some ({ s with receivedData := rest, gpsData := gpsData }, []) := by
  obtain ⟨gpsData, gps, -, heq⟩ := processNewSensorData_cons downsample h hdata
  exact ⟨gpsData, heq.trans (congrArg some (if_neg hdue))⟩

/-- **No callback raises** while the GPS fixes are aligned with the pairs. -/
theorem Aligned.exists_step (downsample : Cloud → K → Option (List P)) (h : Aligned p s)
    (e : Event K Cloud Gps) : ∃ r, step p downsample s e = some r := by
  cases e with
  | lidarCallback cloud odom => exact ⟨_, rfl⟩
  | gpsCallback gps => exact ⟨_, rfl⟩
  | processNewSensorData =>
    cases hdata : s.receivedData with
    | nil => exact ⟨_, processNewSensorData_nil downsample hdata⟩
    | cons data rest =>
      obtain ⟨gpsData, gps, -, heq⟩ := processNewSensorData_cons downsample h hdata
      exact ⟨_, heq⟩

/-- **Step lemma**: the GPS fixes stay aligned with the pairs. -/
theorem Aligned.step {s s' : State K Cloud P Gps} (h : Aligned p s) {e : Event K Cloud Gps}
    {msgs : List (Msg K P Gps)} (hs : step p downsample s e = some (s', msgs)) : Aligned p s' := by
  cases e with
  | lidarCallback cloud odom =>
    obtain ⟨rfl, -⟩ := Prod.mk.inj (Option.some.inj hs)
    intro hgps
    have hlen := h hgps
    unfold lidarCallback
    split_ifs
    · exact hlen
    · simp [hlen]
  | gpsCallback gps =>
    obtain ⟨rfl, -⟩ := Prod.mk.inj (Option.some.inj hs)
    exact h
  | processNewSensorData =>
    cases hdata : s.receivedData with
    | nil =>
      obtain ⟨rfl, -⟩ := Prod.mk.inj (Option.some.inj
        ((processNewSensorData_nil downsample hdata).symm.trans hs))
      exact h
    | cons data rest =>
      obtain ⟨cloud, odom⟩ := data
      obtain ⟨gpsData, gps, hlen, heq⟩ := processNewSensorData_cons downsample h hdata
      have hresult := Option.some.inj (heq.symm.trans hs)
      split_ifs at hresult
      · unfold storeKeyframe at hresult
        cases hpoints : downsample cloud p.voxelSize with
        | none =>
          rw [hpoints] at hresult
          obtain ⟨rfl, -⟩ := Prod.mk.inj hresult
          exact hlen
        | some points =>
          rw [hpoints] at hresult
          obtain ⟨rfl, -⟩ := Prod.mk.inj hresult
          exact hlen
      · obtain ⟨rfl, -⟩ := Prod.mk.inj hresult
        exact hlen

/-- The reference odometry, the counter and the map are as before. -/
def NoTrace (s s' : State K Cloud P Gps) : Prop :=
  s'.previousOdom = s.previousOdom ∧ s'.nbLocalKeyframes = s.nbLocalKeyframes ∧
    s'.localDescriptorsMap = s.localDescriptorsMap

/-- An odometry that is due differs from the reference. -/
theorem ne_of_due (hself : ∀ odom : Odometry K, farther p odom odom = false)
    {reference : Option (Odometry K)} {odom : Odometry K} (h : due p reference odom = true) :
    some odom ≠ reference := by
  rintro rfl
  have hfar : farther p odom odom = true := by simpa [due] using h
  exact absurd (hfar.symm.trans (hself odom)) (by decide)

theorem noTrace_step_iff (hself : ∀ odom : Odometry K, farther p odom odom = false)
    (halign : Aligned p s) {cloud : Cloud} {odom : Odometry K} {rest : List (Cloud × Odometry K)}
    (hdata : s.receivedData = (cloud, odom) :: rest) (hnone : downsample cloud p.voxelSize = none) :
    ∃ s' : State K Cloud P Gps, processNewSensorData p downsample s = some (s', []) ∧
      (NoTrace s s' ↔ due p s.previousOdom odom = false) := by
  by_cases hdue : due p s.previousOdom odom = true
  · obtain ⟨s', hs, hodom, -⟩ := processNewSensorData_failed halign hdata hdue hnone
    refine ⟨s', hs, ?_⟩
    rw [hdue]
    constructor
    · rintro ⟨hsame, -⟩
      exact absurd (hodom.symm.trans hsame) (ne_of_due hself hdue)
    · intro hfalse
      exact absurd hfalse (by decide)
  · obtain ⟨gpsData, heq⟩ := processNewSensorData_notDue downsample halign hdata hdue
    exact ⟨_, heq, fun _ => Bool.eq_false_iff.mpr hdue, fun _ => ⟨rfl, rfl, rfl⟩⟩

end Process

/-! ### What is published -/

/-- The ids and odometries of the keyframes among the messages. -/
def keyframes (msgs : List (Msg K P Gps)) : List (ℕ × Odometry K) :=
  msgs.filterMap fun
    | .keyframeOdom id odom _ => some (id, odom)
    | _ => none

/-- The ids of the clouds among the messages. -/
def cloudIds (msgs : List (Msg K P Gps)) : List ℕ :=
  msgs.filterMap fun
    | .keyframeData id _ => some id
    | _ => none

theorem keyframes_append (msgs msgs' : List (Msg K P Gps)) :
    keyframes (msgs ++ msgs') = keyframes msgs ++ keyframes msgs' := List.filterMap_append

theorem cloudIds_append (msgs msgs' : List (Msg K P Gps)) :
    cloudIds (msgs ++ msgs') = cloudIds msgs ++ cloudIds msgs' := List.filterMap_append

theorem keyframes_keyframeMsgs [Arithmetic K] (p : Params K) (id : ℕ) (points : List P)
    (odom : Odometry K) (gps : Option Gps) :
    keyframes (keyframeMsgs p id points odom gps) = [(id, odom)] := by
  unfold keyframeMsgs
  split_ifs <;> rfl

theorem cloudIds_keyframeMsgs [Arithmetic K] (p : Params K) (id : ℕ) (points : List P)
    (odom : Odometry K) (gps : Option Gps) :
    cloudIds (keyframeMsgs p id points odom gps) = [id] := by
  unfold keyframeMsgs
  split_ifs <;> rfl

/-- All messages of a run. -/
def published (tr : List (Event K Cloud Gps × List (Msg K P Gps))) : List (Msg K P Gps) :=
  (tr.map Prod.snd).flatten

theorem published_concat (tr : List (Event K Cloud Gps × List (Msg K P Gps)))
    (e : Event K Cloud Gps) (msgs : List (Msg K P Gps)) :
    published (tr ++ [(e, msgs)]) = published tr ++ msgs := by
  simp [published]

/-- The published ids count up from zero, and they are the keys of the descriptor map. -/
structure Consistent (tr : List (Event K Cloud Gps × List (Msg K P Gps)))
    (s : State K Cloud P Gps) : Prop where
  ids : (keyframes (published tr)).map Prod.fst = List.range s.nbLocalKeyframes
  cloudIds : cloudIds (published tr) = List.range s.nbLocalKeyframes
  keys : s.localDescriptorsMap.keys = (keyframes (published tr)).map Prod.fst

/-- What holds after a run without a failed keyframe: the reference is the last keyframe. -/
structure Follows (tr : List (Event K Cloud Gps × List (Msg K P Gps)))
    (s : State K Cloud P Gps) : Prop where
  ids : (keyframes (published tr)).map Prod.fst = List.range s.nbLocalKeyframes
  cloudIds : LidarHandler.cloudIds (published tr) = List.range s.nbLocalKeyframes
  keys : s.localDescriptorsMap.keys = List.range s.nbLocalKeyframes
  reference : s.previousOdom = (keyframes (published tr)).getLast?.map Prod.snd

variable {tr : List (Event K Cloud Gps × List (Msg K P Gps))} {s : State K Cloud P Gps}

theorem Follows.length (h : Follows tr s) :
    (keyframes (published tr)).length = s.nbLocalKeyframes := by
  have hlen := congrArg List.length h.ids
  rwa [List.length_map, List.length_range] at hlen

/-- Nothing that matters to keyframes happens. -/
theorem Follows.of_same {s' : State K Cloud P Gps} (e : Event K Cloud Gps) (h : Follows tr s)
    (hnb : s'.nbLocalKeyframes = s.nbLocalKeyframes)
    (hmap : s'.localDescriptorsMap = s.localDescriptorsMap)
    (hodom : s'.previousOdom = s.previousOdom) : Follows (tr ++ [(e, [])]) s' := by
  have hmsgs : published (tr ++ [(e, [])]) = published tr := by
    rw [published_concat, List.append_nil]
  refine ⟨?_, ?_, ?_, ?_⟩
  · rw [hmsgs, hnb, h.ids]
  · rw [hmsgs, hnb, h.cloudIds]
  · rw [hmap, hnb, h.keys]
  · rw [hodom, hmsgs, h.reference]

section Runs

variable [Arithmetic K] (p : Params K) (downsample : Cloud → K → Option (List P))

/-- An odometry is the first one, or farther than the configured distance from the last keyframe
that was published. -/
def FirstOrFarther (tr : List (Event K Cloud Gps × List (Msg K P Gps))) (odom : Odometry K) :
    Prop :=
  ∀ last, (keyframes (published tr)).getLast? = some last → farther p last.2 odom = true

/-- The next pair becomes a keyframe exactly if it is the first or far enough. -/
def Decides (tr : List (Event K Cloud Gps × List (Msg K P Gps))) (s : State K Cloud P Gps) :
    Prop :=
  ∀ cloud odom rest, s.receivedData = (cloud, odom) :: rest →
    ∃ s' msgs, processNewSensorData p downsample s = some (s', msgs) ∧
      (FirstOrFarther p tr odom →
        keyframes msgs = [((keyframes (published tr)).length, odom)]) ∧
      (¬ FirstOrFarther p tr odom → keyframes msgs = [])

/-- The event is not the processing of a pair that is due and cannot be downsampled. -/
def NoFailedKeyframe (s : State K Cloud P Gps) : Event K Cloud Gps → Prop
  | .processNewSensorData => ∀ data ∈ s.receivedData.head?,
    due p s.previousOdom data.2 = true → (downsample data.1 p.voxelSize).isSome = true
  | _ => True

instance (s : State K Cloud P Gps) : (e : Event K Cloud Gps) →
    Decidable (NoFailedKeyframe p downsample s e)
  | .processNewSensorData => inferInstanceAs (Decidable (∀ data ∈ s.receivedData.head?,
    due p s.previousOdom data.2 = true → (downsample data.1 p.voxelSize).isSome = true))
  | .lidarCallback _ _ => isTrue trivial
  | .gpsCallback _ => isTrue trivial

variable {p downsample}

theorem aligned_of_reaches [Inhabited Gps] (h : (handler p downsample).Reaches tr s) :
    Aligned p s := by
  refine Machine.Run.invariant (I := fun _ s => Aligned p s) (fun _ => rfl) ?_ h
  intro tr s e s' msgs _ halign _ hs
  exact halign.step hs

theorem Follows.due_iff (h : Follows tr s) (odom : Odometry K) :
    due p s.previousOdom odom = true ↔ FirstOrFarther p tr odom := by
  unfold due FirstOrFarther
  rw [h.reference]
  cases (keyframes (published tr)).getLast? with
  | none => simp
  | some last => simp

/-- A keyframe is stored and published. -/
theorem Follows.of_keyframe {s' : State K Cloud P Gps} {points : List P} {odom : Odometry K}
    {gps : Option Gps} (e : Event K Cloud Gps) (h : Follows tr s)
    (hnb : s'.nbLocalKeyframes = s.nbLocalKeyframes + 1)
    (hmap : s'.localDescriptorsMap = s.localDescriptorsMap.set s.nbLocalKeyframes points)
    (hodom : s'.previousOdom = some odom) :
    Follows (tr ++ [(e, keyframeMsgs p s.nbLocalKeyframes points odom gps)]) s' := by
  have hnew : s.nbLocalKeyframes ∉ s.localDescriptorsMap.keys := by
    rw [h.keys, List.mem_range]
    omega
  refine ⟨?_, ?_, ?_, ?_⟩
  · rw [published_concat, hnb, keyframes_append, keyframes_keyframeMsgs, List.map_append, h.ids,
      List.range_succ]
    rfl
  · rw [published_concat, hnb, cloudIds_append, cloudIds_keyframeMsgs, h.cloudIds,
      List.range_succ]
  · rw [hmap, hnb, Dict.keys_set_of_notMem _ hnew, h.keys, List.range_succ]
  · rw [hodom, published_concat, keyframes_append, keyframes_keyframeMsgs, List.getLast?_concat]
    rfl

/-- What a call publishes and leaves if no due pair fails. -/
theorem Follows.process (h : Follows tr s) (halign : Aligned p s)
    (hok : NoFailedKeyframe p downsample s .processNewSensorData) :
    ∃ s' msgs, processNewSensorData p downsample s = some (s', msgs) ∧
      Follows (tr ++ [(.processNewSensorData, msgs)]) s' ∧
      ∀ cloud odom rest, s.receivedData = (cloud, odom) :: rest → keyframes msgs =
        if due p s.previousOdom odom then [(s.nbLocalKeyframes, odom)] else [] := by
  cases hdata : s.receivedData with
  | nil =>
    refine ⟨s, [], processNewSensorData_nil downsample hdata, h.of_same _ rfl rfl rfl, ?_⟩
    intro cloud odom rest hcons
    exact absurd hcons (List.cons_ne_nil _ _).symm
  | cons data rest =>
    obtain ⟨cloud, odom⟩ := data
    by_cases hdue : due p s.previousOdom odom = true
    · obtain ⟨gpsData, gps, -, heq⟩ := processNewSensorData_cons downsample halign hdata
      rw [if_pos hdue] at heq
      have hsome := hok (cloud, odom) (by rw [hdata]; rfl) hdue
      cases hpoints : downsample cloud p.voxelSize with
      | none =>
        rw [hpoints] at hsome
        exact absurd hsome Bool.false_ne_true
      | some points =>
        unfold storeKeyframe at heq
        rw [hpoints] at heq
        refine ⟨_, _, heq, h.of_keyframe _ rfl rfl rfl, ?_⟩
        rintro cloud' odom' rest' hcons
        obtain ⟨hdata', -⟩ := List.cons.inj hcons
        obtain ⟨-, rfl⟩ := Prod.mk.inj hdata'
        rw [if_pos hdue]
        exact keyframes_keyframeMsgs _ _ _ _ _
    · obtain ⟨gpsData, heq⟩ := processNewSensorData_notDue downsample halign hdata hdue
      refine ⟨_, _, heq, h.of_same _ rfl rfl rfl, ?_⟩
      rintro cloud' odom' rest' hcons
      obtain ⟨hdata', -⟩ := List.cons.inj hcons
      obtain ⟨-, rfl⟩ := Prod.mk.inj hdata'
      rw [if_neg hdue]
      rfl

theorem Follows.decides (h : Follows tr s) (halign : Aligned p s)
    (hok : NoFailedKeyframe p downsample s .processNewSensorData) : Decides p downsample tr s := by
  intro cloud odom rest hdata
  obtain ⟨s', msgs, hs, -, hkeyframes⟩ := h.process halign hok
  have hmsgs := hkeyframes cloud odom rest hdata
  refine ⟨s', msgs, hs, fun hfirst => ?_, fun hnot => ?_⟩
  · rw [hmsgs, if_pos ((h.due_iff odom).mpr hfirst), h.length]
  · rw [hmsgs, if_neg fun hdue => hnot ((h.due_iff odom).mp hdue)]

/-- **Run lemma**: without a failed keyframe the reference follows what is published. -/
theorem follows_of_run [Inhabited Gps]
    (h : (handler p downsample).Run (NoFailedKeyframe p downsample) tr s) :
    Follows tr s ∧ Aligned p s := by
  refine Machine.Run.invariant (I := fun tr s => Follows tr s ∧ Aligned p s)
    ⟨⟨rfl, rfl, rfl, rfl⟩, fun _ => rfl⟩ ?_ h
  rintro tr s e s' msgs - ⟨hfollows, halign⟩ hok hs
  refine ⟨?_, halign.step hs⟩
  cases e with
  | lidarCallback cloud odom =>
    obtain ⟨rfl, rfl⟩ := Prod.mk.inj (Option.some.inj hs)
    unfold lidarCallback
    split_ifs <;> exact hfollows.of_same _ rfl rfl rfl
  | gpsCallback gps =>
    obtain ⟨rfl, rfl⟩ := Prod.mk.inj (Option.some.inj hs)
    exact hfollows.of_same _ rfl rfl rfl
  | processNewSensorData =>
    obtain ⟨s₁, msgs₁, hs₁, hfollows₁, -⟩ := hfollows.process halign hok
    obtain ⟨rfl, rfl⟩ := Prod.mk.inj (Option.some.inj (hs₁.symm.trans hs))
    exact hfollows₁

/-- A failed keyframe leaves a key that is not published. -/
theorem noFailedKeyframe_of_consistent {s' : State K Cloud P Gps} {e : Event K Cloud Gps}
    {msgs : List (Msg K P Gps)} (halign : Aligned p s)
    (hs : step p downsample s e = some (s', msgs)) (h : Consistent tr s)
    (h' : Consistent (tr ++ [(e, msgs)]) s') : NoFailedKeyframe p downsample s e := by
  obtain _ | _ | _ := e
  · trivial
  · trivial
  intro data hhead hdue
  obtain ⟨rest, hdata⟩ := List.head?_eq_some_iff.mp hhead
  rw [Option.isSome_iff_ne_none]
  intro hnone
  obtain ⟨s₁, hs₁, -, hnb, hmap⟩ := processNewSensorData_failed halign hdata hdue hnone
  obtain ⟨rfl, rfl⟩ := Prod.mk.inj (Option.some.inj (hs₁.symm.trans hs))
  have hkeys := h.keys.trans h.ids
  have hkeys' := h'.keys.trans h'.ids
  have hnew : s.nbLocalKeyframes ∉ s.localDescriptorsMap.keys := by
    rw [hkeys, List.mem_range]
    omega
  rw [hmap, hnb, Dict.keys_set_of_notMem _ hnew, hkeys] at hkeys'
  have hlen := congrArg List.length hkeys'
  rw [List.length_append, List.length_range, List.length_singleton] at hlen
  omega

end Runs

/-- **A keyframe that fails leaves a trace exactly if it was due**: and the ids, the keys of the map
and the choice of keyframes are right throughout a run exactly if no such keyframe fails in it.  All
that is asked of the arithmetic is that no odometry is far from itself. -/
theorem noTrace_iff [Arithmetic K] [Inhabited Gps] (p : Params K)
    (downsample : Cloud → K → Option (List P))
    (hself : ∀ odom : Odometry K, farther p odom odom = false) :
    (∀ (tr : List (Event K Cloud Gps × List (Msg K P Gps))) (s : State K Cloud P Gps),
      (handler p downsample).Reaches tr s →
      ∀ cloud odom rest, s.receivedData = (cloud, odom) :: rest →
      downsample cloud p.voxelSize = none →
      ∃ s', processNewSensorData p downsample s = some (s', []) ∧
        (NoTrace s s' ↔ due p s.previousOdom odom = false)) ∧
    ∀ (tr : List (Event K Cloud Gps × List (Msg K P Gps))) (s : State K Cloud P Gps),
      (handler p downsample).Reaches tr s →
      (((∀ pre s₀, pre <+: tr → (handler p downsample).Reaches pre s₀ → Consistent pre s₀) ∧
        ∀ pre msgs s₀, pre ++ [(.processNewSensorData, msgs)] <+: tr →
          (handler p downsample).Reaches pre s₀ → Decides p downsample pre s₀) ↔
        (handler p downsample).Run (NoFailedKeyframe p downsample) tr s) := by
  refine ⟨fun tr s h cloud odom rest hdata hnone => ?_, fun tr s h => ⟨fun ⟨hcons, _⟩ => ?_, ?_⟩⟩
  · exact noTrace_step_iff hself (aligned_of_reaches h) hdata hnone
  · refine h.iff_forall_steps.mpr fun pre x s₀ hp h₀ => ?_
    obtain ⟨s₁, h₁⟩ := h.of_prefix hp
    obtain ⟨s₀', h₀', -, hs⟩ := h₁.last_step
    obtain rfl := h₀'.unique h₀
    exact noFailedKeyframe_of_consistent (aligned_of_reaches h₀) hs
      (hcons pre s₀' ((List.prefix_append pre [x]).trans hp) h₀) (hcons _ s₁ hp h₁)
  · intro hrun
    refine ⟨fun pre s₀ hp h₀ => ?_, fun pre msgs s₀ hp h₀ => ?_⟩
    · obtain ⟨s₁, h₁⟩ := hrun.of_prefix hp
      obtain rfl := h₁.unique h₀
      obtain ⟨⟨hids, hclouds, hkeys, -⟩, -⟩ := follows_of_run h₁
      exact ⟨hids, hclouds, hkeys.trans hids.symm⟩
    · obtain ⟨s₁, h₁⟩ := hrun.of_prefix hp
      obtain ⟨s₀', h₀', hok, -⟩ := h₁.last_step
      obtain rfl := h₀'.unique h₀
      obtain ⟨hfollows, halign⟩ := follows_of_run h₀'
      exact hfollows.decides halign hok

/-! ### Clouds that fail -/

open scoped Arithmetic.Exact

/-- The cloud `true` cannot be downsampled. -/
def failing (cloud : Bool) (_ : ℚ) : Option (List ℕ) := if cloud then none else some [7]

/-- The handler with its default parameters, in exact arithmetic. -/
abbrev exactHandler : Machine (State ℚ Bool ℕ Unit) (Event ℚ Bool Unit) (List (Msg ℚ ℕ Unit)) :=
  handler {} failing

theorem farther_self (odom : Odometry ℚ) : farther ({} : Params ℚ) odom odom = false := by
  unfold farther odomDistanceSquared
  simp only [sub_self]
  decide +kernel

def steadyRun : List (Event ℚ Bool Unit) :=
  [.lidarCallback false ⟨⟨0, 0, 0⟩, 0⟩, .processNewSensorData,
    .lidarCallback true ⟨⟨0.3, 0.4, 0⟩, 0⟩, .processNewSensorData,
    .lidarCallback false ⟨⟨0.3, 0.5, 0⟩, 0⟩, .processNewSensorData]

/-- A cloud that fails is not due: the keyframes are as they should be. -/
theorem noTrace_steadyRun : ∃ tr s, exactHandler.Reaches tr s ∧
    keyframes (published tr) = [(0, ⟨⟨0, 0, 0⟩, 0⟩), (1, ⟨⟨0.3, 0.5, 0⟩, 0⟩)] ∧
    ∀ pre s₀, pre <+: tr → exactHandler.Reaches pre s₀ → Consistent pre s₀ := by
  obtain ⟨tr, s, hrun, hkeyframes⟩ := Machine.exists_run_of_exec (M := exactHandler) steadyRun
    (C := NoFailedKeyframe {} failing) (p := fun x => keyframes (published x.1) =
      [(0, ⟨⟨0, 0, 0⟩, 0⟩), (1, ⟨⟨0.3, 0.5, 0⟩, 0⟩)]) (by decide +kernel) (by decide +kernel)
  exact ⟨tr, s, hrun.reaches, hkeyframes,
    (((noTrace_iff {} failing farther_self).2 tr s hrun.reaches).mpr hrun).1⟩

/-- The first cloud fails, and the next one is near it. -/
def failingRun : List (Event ℚ Bool Unit) :=
  [.lidarCallback true ⟨⟨0, 0, 0⟩, 0⟩, .processNewSensorData,
    .lidarCallback false ⟨⟨0.3, 0, 0⟩, 0⟩, .processNewSensorData]

/-- The first frame that can be downsampled is not published, for being near one that failed, and
the map has a key that was never published. -/
theorem failingRun_trace :
    (∃ tr s, exactHandler.Reaches tr s ∧ ∃ s', processNewSensorData {} failing s = some (s', []) ∧
      ¬ NoTrace s s') ∧
    ∃ tr s, exactHandler.Reaches tr s ∧ tr.map Prod.fst = failingRun ∧
      keyframes (published tr) = [] ∧ s.localDescriptorsMap.keys = [0] := by
  constructor
  · obtain ⟨tr, s, h, hprocess⟩ := Machine.exists_reaches_of_exec (M := exactHandler)
      (failingRun.take 1) (p := fun x => ((processNewSensorData {} failing x.2).any fun r =>
        r.2 = [] ∧ r.1.previousOdom ≠ x.2.previousOdom) = true) (by decide +kernel)
    obtain ⟨⟨s', msgs⟩, hs, hp⟩ := (Option.any_eq_true _ _).mp hprocess
    obtain ⟨rfl, hne⟩ := of_decide_eq_true hp
    exact ⟨tr, s, h, s', hs, fun hsame => hne hsame.1⟩
  · obtain ⟨tr, s, h, hp⟩ := Machine.exists_reaches_of_exec (M := exactHandler) failingRun
      (p := fun x => x.1.map Prod.fst = failingRun ∧ keyframes (published x.1) = [] ∧
        x.2.localDescriptorsMap.keys = [0]) (by decide +kernel)
    exact ⟨tr, s, h, hp⟩

end RoverSwarm.LidarHandler
