import Mathlib.Algebra.Ring.Rat
import Mathlib.Data.Fin.VecNotation
import Mathlib.Data.Fintype.Basic
import Mathlib.Data.List.FinRange
import Mathlib.Tactic.FinCases
import RoverSwarm.GtsamUtils

/-!
# GtsamUtils/Packed — the conversions on packed keys and message fields

`GtsamUtils` has keys as symbols, poses as values of any type and integers of any size.  Here a key
is the packed word of gtsam, the fields of a message have a width, a pose is a rotation with a
translation and travels as a quaternion, and the deviations of a factor are copied one by one.
-/

namespace RoverSwarm.Packed

/-! ### gtsam -/

/-- `gtsam::Key`. -/
abbrev Key := ℕ

/-- The key of a symbol: eight bits of character, eight of label and 48 of index. -/
def pack (s : LabeledSymbol) : Key := s.c * 2 ^ 56 + s.label * 2 ^ 48 + s.index

/-- `LabeledSymbol(key)`. -/
def unpack (key : Key) : LabeledSymbol :=
  { c := key / 2 ^ 56 % 2 ^ 8, label := key / 2 ^ 48 % 2 ^ 8, index := key % 2 ^ 48 }

/-- `gtsam::Rot3` over `R`, with its quaternion of `w`, `x`, `y` and `z` in this order. -/
structure Rot3 (R S : Type*) where
  quaternion : R → Fin 4 → S
  ofQuaternion : S → S → S → S → R
  ofQuaternion_quaternion : ∀ r, ofQuaternion (quaternion r 0) (quaternion r 1) (quaternion r 2)
    (quaternion r 3) = r

/-- Rotations that are stored as their quaternions. -/
def Rot3.stored (S : Type*) : Rot3 (Fin 4 → S) S where
  quaternion r := r
  ofQuaternion w x y z := ![w, x, y, z]
  ofQuaternion_quaternion r := by
    funext i
    fin_cases i <;> rfl

/-- `gtsam::Pose3`. -/
structure Pose3 (R S : Type*) where
  rotation : R
  x : S
  y : S
  z : S

/-- `gtsam::BetweenFactor<gtsam::Pose3>` with a diagonal noise model. -/
structure Between (R S : Type*) where
  key1 : Key
  key2 : Key
  measured : Pose3 R S
  sigmas : Fin 6 → S

/-- The factors of a graph. -/
inductive Factor (R S : Type*)
  | between (f : Between R S)
  | other

/-- What `gtsam::Values` holds. -/
inductive Value (R S : Type*)
  | pose (p : Pose3 R S)
  | other

/-- `gtsam::Values`, in the order of the keys. -/
abbrev Values (R S : Type*) := SortedDict Key (Value R S)

/-! ### Messages -/

/-- `geometry_msgs/Pose`. -/
structure PoseMsg (S : Type*) where
  positionX : S
  positionY : S
  positionZ : S
  orientationX : S
  orientationY : S
  orientationZ : S
  orientationW : S

/-- The numbers of bits of the fields of a `MultiRobotKey`. -/
structure Widths where
  robotBits : ℕ
  keyframeBits : ℕ

structure EdgeMsg (S : Type*) where
  keyFrom : MultiRobotKey
  keyTo : MultiRobotKey
  measurement : PoseMsg S
  noiseStd : Fin 6 → S

/-! ### Conversions -/

variable {R S : Type*}

/-- `gtsam_pose_to_msg`. -/
def gtsamPoseToMsg (rot : Rot3 R S) (pose : Pose3 R S) : PoseMsg S where
  positionX := pose.x
  positionY := pose.y
  positionZ := pose.z
  orientationW := rot.quaternion pose.rotation 0
  orientationX := rot.quaternion pose.rotation 1
  orientationY := rot.quaternion pose.rotation 2
  orientationZ := rot.quaternion pose.rotation 3

/-- `pose_msg_to_gtsam`. -/
def poseMsgToGtsam (rot : Rot3 R S) (msg : PoseMsg S) : Pose3 R S where
  rotation := rot.ofQuaternion msg.orientationW msg.orientationX msg.orientationY msg.orientationZ
  x := msg.positionX
  y := msg.positionY
  z := msg.positionZ

/-- The key of a message: `ROBOT_ID` of the label and the index, as the fields hold them. -/
def keyToMsg (w : Widths) (key : Key) : MultiRobotKey :=
  ⟨robotIdOf (unpack key).label % 2 ^ w.robotBits, (unpack key).index % 2 ^ w.keyframeBits⟩

/-- `LabeledSymbol(GRAPH_LABEL, ROBOT_LABEL(robot_id), keyframe_id)` as a key. -/
def keyToGtsam (key : MultiRobotKey) : Key := pack (symbol key.robotId key.keyframeId)

/-- The loop over the deviations, into an array of zeros. -/
def copySigmas [Zero S] (sigmas : Fin 6 → S) : Fin 6 → S :=
  (List.finRange 6).foldl (fun noiseStd i => Function.update noiseStd i (sigmas i)) 0

/-- `gtsam_values_to_msg`; what is not a pose is left out. -/
def gtsamValuesToMsg (rot : Rot3 R S) (w : Widths) (values : Values R S) :
    List (PoseGraphValue (PoseMsg S)) :=
  values.entries.filterMap fun
    | (key, .pose p) => some ⟨keyToMsg w key, gtsamPoseToMsg rot p⟩
    | (_, .other) => none

/-- `gtsam_factors_to_msg`; what is not a between-factor is left out. -/
def gtsamFactorsToMsg [Zero S] (rot : Rot3 R S) (w : Widths) (factors : List (Factor R S)) :
    List (EdgeMsg S) :=
  factors.filterMap fun
    | .between f => some ⟨keyToMsg w f.key1, keyToMsg w f.key2, gtsamPoseToMsg rot f.measured,
        copySigmas f.sigmas⟩
    | .other => none

/-- `values_msg_to_gtsam`; `Values::insert` throws at a key that is there already. -/
def valuesMsgToGtsam (rot : Rot3 R S) (msg : List (PoseGraphValue (PoseMsg S))) :
    Option (Values R S) :=
  (∅ : Values R S).insertAll
    (msg.map fun v => (keyToGtsam v.key, .pose (poseMsgToGtsam rot v.pose)))

/-- `edges_msg_to_gtsam`. -/
def edgesMsgToGtsam (rot : Rot3 R S) (msg : List (EdgeMsg S)) : List (Factor R S) :=
  msg.map fun e => .between
    { key1 := keyToGtsam e.keyFrom
      key2 := keyToGtsam e.keyTo
      measured := poseMsgToGtsam rot e.measurement
      sigmas := ![e.noiseStd 0, e.noiseStd 1, e.noiseStd 2, e.noiseStd 3, e.noiseStd 4,
        e.noiseStd 5] }

/-! ### Keys -/

theorem unpack_pack {s : LabeledSymbol} (hc : s.c < 2 ^ 8) (hlabel : s.label < 2 ^ 8)
    (hindex : s.index < 2 ^ 48) : unpack (pack s) = s := by
  obtain ⟨c, label, index⟩ := s
  unfold unpack pack
  dsimp only at *
  congr 1 <;> omega

/-- The label of an id is a character, and names the id again. -/
theorem robotIdOf_robotLabel {id : ℕ} (h : id ≤ 190) :
    robotIdOf (robotLabel id) = id ∧ robotLabel id < 2 ^ 8 := by
  unfold robotIdOf robotLabel
  omega

/-- The key of a keyframe that a message can hold. -/
def Admissible (w : Widths) (key : Key) : Prop :=
  ∃ id index, id ≤ 190 ∧ index < 2 ^ 48 ∧ id < 2 ^ w.robotBits ∧ index < 2 ^ w.keyframeBits ∧
    key = pack (symbol id index)

theorem unpack_symbol {id index : ℕ} (hid : id ≤ 190) (hindex : index < 2 ^ 48) :
    unpack (pack (symbol id index)) = symbol id index :=
  unpack_pack (show 103 < 2 ^ 8 by omega) (robotIdOf_robotLabel hid).2 hindex

/-- On admissible keys the packed conversions are those on symbols. -/
theorem keyToMsg_symbol {w : Widths} {id index : ℕ} (hid : id ≤ 190) (hindex : index < 2 ^ 48)
    (hrobot : id < 2 ^ w.robotBits) (hkeyframe : index < 2 ^ w.keyframeBits) :
    keyToMsg w (pack (symbol id index)) = RoverSwarm.keyToMsg (symbol id index) := by
  unfold keyToMsg RoverSwarm.keyToMsg
  rw [unpack_symbol hid hindex]
  show MultiRobotKey.mk (robotIdOf (robotLabel id) % _) (index % _) =
    ⟨robotIdOf (robotLabel id), index⟩
  rw [(robotIdOf_robotLabel hid).1, Nat.mod_eq_of_lt hrobot, Nat.mod_eq_of_lt hkeyframe]

theorem keyToGtsam_eq (key : MultiRobotKey) : keyToGtsam key = pack (RoverSwarm.keyToGtsam key) :=
  rfl

theorem keyToGtsam_symbol {id : ℕ} (hid : id ≤ 190) (index : ℕ) :
    RoverSwarm.keyToGtsam (RoverSwarm.keyToMsg (symbol id index)) = symbol id index := by
  show symbol (robotIdOf (robotLabel id)) index = _
  rw [(robotIdOf_robotLabel hid).1]

theorem Admissible.keyToGtsam_keyToMsg {w : Widths} {key : Key} (h : Admissible w key) :
    keyToGtsam (keyToMsg w key) = key := by
  obtain ⟨id, index, hid, hindex, hrobot, hkeyframe, rfl⟩ := h
  rw [keyToMsg_symbol hid hindex hrobot hkeyframe, keyToGtsam_eq, keyToGtsam_symbol hid]

/-! ### Round trips -/

theorem poseMsgToGtsam_gtsamPoseToMsg (rot : Rot3 R S) (pose : Pose3 R S) :
    poseMsgToGtsam rot (gtsamPoseToMsg rot pose) = pose := by
  obtain ⟨r, x, y, z⟩ := pose
  unfold poseMsgToGtsam gtsamPoseToMsg
  dsimp only
  rw [rot.ofQuaternion_quaternion]

theorem copySigmas_eq [Zero S] (sigmas : Fin 6 → S) : copySigmas sigmas = sigmas := by
  funext i
  fin_cases i <;> rfl

theorem sixEntries (v : Fin 6 → S) : ![v 0, v 1, v 2, v 3, v 4, v 5] = v := by
  funext i
  fin_cases i <;> rfl

/-- The message of a factor. -/
def edgeMsg [Zero S] (rot : Rot3 R S) (w : Widths) (f : Between R S) : EdgeMsg S :=
  ⟨keyToMsg w f.key1, keyToMsg w f.key2, gtsamPoseToMsg rot f.measured, copySigmas f.sigmas⟩

theorem gtsamFactorsToMsg_map_between [Zero S] (rot : Rot3 R S) (w : Widths)
    (g : List (Between R S)) :
    gtsamFactorsToMsg rot w (g.map .between) = g.map (edgeMsg rot w) := by
  unfold gtsamFactorsToMsg
  rw [List.filterMap_map]
  exact congrFun List.filterMap_eq_map g

theorem edges_roundTrip [Zero S] (rot : Rot3 R S) {w : Widths} {g : List (Between R S)}
    (h : ∀ f ∈ g, Admissible w f.key1 ∧ Admissible w f.key2) :
    edgesMsgToGtsam rot (gtsamFactorsToMsg rot w (g.map .between)) = g.map .between := by
  rw [gtsamFactorsToMsg_map_between]
  unfold edgesMsgToGtsam
  rw [List.map_map]
  refine List.map_congr_left fun f hf => ?_
  obtain ⟨h1, h2⟩ := h f hf
  show Factor.between ⟨keyToGtsam (keyToMsg w f.key1), keyToGtsam (keyToMsg w f.key2),
    poseMsgToGtsam rot (gtsamPoseToMsg rot f.measured), ![_, _, _, _, _, _]⟩ = _
  rw [h1.keyToGtsam_keyToMsg, h2.keyToGtsam_keyToMsg, poseMsgToGtsam_gtsamPoseToMsg, sixEntries]
  unfold edgeMsg
  rw [copySigmas_eq]

theorem values_roundTrip (rot : Rot3 R S) {w : Widths} {v : Values R S}
    (h : ∀ e ∈ v.entries, Admissible w e.1 ∧ ∃ p, e.2 = .pose p) :
    valuesMsgToGtsam rot (gtsamValuesToMsg rot w v) = some v := by
  have hentries : (gtsamValuesToMsg rot w v).map (fun m =>
      (keyToGtsam m.key, Value.pose (poseMsgToGtsam rot m.pose))) = v.entries := by
    unfold gtsamValuesToMsg
    rw [List.map_filterMap]
    generalize v.entries = es at h
    induction es with
    | nil => rfl
    | cons e es ih =>
      obtain ⟨key, value⟩ := e
      obtain ⟨hkey, p, rfl⟩ := h (key, value) List.mem_cons_self
      have hrest := ih fun e he => h e (List.mem_cons_of_mem _ he)
      rw [List.filterMap_cons]
      dsimp only [Option.map_some]
      rw [hrest]
      congr 2
      · exact hkey.keyToGtsam_keyToMsg
      · exact congrArg Value.pose (poseMsgToGtsam_gtsamPoseToMsg rot p)
  unfold valuesMsgToGtsam
  rw [hentries]
  exact SortedDict.insertAll_entries v

/-- **Messages of pose graphs round-trip**: between-factors with diagonal noise, and values that are
poses, with keys of keyframes that a message can hold. -/
theorem roundTrip [Zero S] (rot : Rot3 R S) (w : Widths) :
    (∀ g : List (Between R S), (∀ f ∈ g, Admissible w f.key1 ∧ Admissible w f.key2) →
      edgesMsgToGtsam rot (gtsamFactorsToMsg rot w (g.map .between)) = g.map .between) ∧
    ∀ v : Values R S, (∀ e ∈ v.entries, Admissible w e.1 ∧ ∃ p, e.2 = .pose p) →
      valuesMsgToGtsam rot (gtsamValuesToMsg rot w v) = some v :=
  ⟨fun _ hg => edges_roundTrip rot hg, fun _ hv => values_roundTrip rot hv⟩

/-- A factor between the highest keyframes of the first and the last robot. -/
def farEdge : Between (Fin 4 → ℚ) ℚ where
  key1 := pack (symbol 0 (2 ^ 32 - 1))
  key2 := pack (symbol 190 0)
  measured := ⟨![1, 0, 0, 0], 3, 4, 5⟩
  sigmas := ![1, 2, 3, 4, 5, 6]

/-- The values of that factor's keyframes. -/
def farValues : Values (Fin 4 → ℚ) ℚ where
  entries := [(pack (symbol 0 (2 ^ 32 - 1)), .pose farEdge.measured),
    (pack (symbol 190 0), .pose farEdge.measured)]
  sorted := by
    refine List.pairwise_pair.mpr ?_
    decide

theorem roundTrip_far :
    edgesMsgToGtsam (.stored ℚ) (gtsamFactorsToMsg (.stored ℚ) ⟨8, 32⟩ [.between farEdge]) =
        [.between farEdge] ∧
      valuesMsgToGtsam (.stored ℚ) (gtsamValuesToMsg (.stored ℚ) ⟨8, 32⟩ farValues) =
        some farValues := by
  have hfirst : Admissible ⟨8, 32⟩ (pack (symbol 0 (2 ^ 32 - 1))) :=
    ⟨0, 2 ^ 32 - 1, by decide, by decide, by decide, by decide, rfl⟩
  have hlast : Admissible ⟨8, 32⟩ (pack (symbol 190 0)) :=
    ⟨190, 0, by decide, by decide, by decide, by decide, rfl⟩
  refine ⟨(roundTrip (.stored ℚ) ⟨8, 32⟩).1 [farEdge] fun f hf => ?_,
    (roundTrip (.stored ℚ) ⟨8, 32⟩).2 farValues fun e he => ?_⟩
  · rw [List.mem_singleton.mp hf]
    exact ⟨hfirst, hlast⟩
  · rcases List.mem_cons.mp he with rfl | he
    · exact ⟨hfirst, _, rfl⟩
    · rw [List.mem_singleton.mp he]
      exact ⟨hlast, _, rfl⟩

end RoverSwarm.Packed
