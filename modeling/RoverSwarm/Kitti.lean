import RoverSwarm.Lib.RigidMotion
import RoverSwarm.Relay

/-!
# Kitti — the frames of the KITTI bags

`kitti_rec.py` records a sequence into a bag, with the poses of the ground truth and the mount of
the velodyne turned from camera axes to those of ROS; `patch_tf.py` adds the same transforms to a
bag that was recorded without them.  Arithmetic is exact, in the reals.
-/

namespace RoverSwarm.Kitti

open Relay (Stamp)
open Matrix Quaternion RigidMotion Transition

noncomputable section

/-! ### The quaternion of a matrix -/

/-- `[w, x, y, z]`. -/
def wxyz (w x y z : ℝ) : ℍ[ℝ] := ⟨w, x, y, z⟩

/-- The four branches of `rotationmtx_to_quaternion`, before the result is normalized. -/
def shepperd (m : Matrix (Fin 3) (Fin 3) ℝ) : ℍ[ℝ] :=
  let trace := m 0 0 + m 1 1 + m 2 2
  if trace > 0 then
    let s := 2.0 * √(trace + 1.0)
    wxyz (0.25 * s) ((m 2 1 - m 1 2) / s) ((m 0 2 - m 2 0) / s) ((m 1 0 - m 0 1) / s)
  else if m 0 0 > m 1 1 ∧ m 0 0 > m 2 2 then
    let s := 2.0 * √(1.0 + m 0 0 - m 1 1 - m 2 2)
    wxyz ((m 2 1 - m 1 2) / s) (0.25 * s) ((m 0 1 + m 1 0) / s) ((m 0 2 + m 2 0) / s)
  else if m 1 1 > m 2 2 then
    let s := 2.0 * √(1.0 + m 1 1 - m 0 0 - m 2 2)
    wxyz ((m 0 2 - m 2 0) / s) ((m 0 1 + m 1 0) / s) (0.25 * s) ((m 1 2 + m 2 1) / s)
  else
    let s := 2.0 * √(1.0 + m 2 2 - m 0 0 - m 1 1)
    wxyz ((m 1 0 - m 0 1) / s) ((m 0 2 + m 2 0) / s) ((m 1 2 + m 2 1) / s) (0.25 * s)

/-- `rotationmtx_to_quaternion`. -/
def rotationmtxToQuaternion (m : Matrix (Fin 3) (Fin 3) ℝ) : ℍ[ℝ] :=
  (√(normSq (shepperd m)))⁻¹ • shepperd m

/-! ### Data and messages -/

/-- The first three rows of a homogeneous matrix: a pose of the ground truth, or `Tr`. -/
structure Homogeneous where
  rotation : Matrix (Fin 3) (Fin 3) ℝ
  translation : Fin 3 → ℝ

abbrev TransformStamped := Relay.TransformStamped (Transform ℝ)

/-- `Odometry`, whose twist stays zero. -/
structure Odometry where
  stamp : Stamp
  frameId : String
  childFrameId : String
  pose : Transform ℝ

structure PoseStamped where
  stamp : Stamp
  frameId : String
  pose : Transform ℝ

structure Path where
  stamp : Stamp
  frameId : String
  poses : List PoseStamped

/-! ### kitti_rec -/

namespace KittiRec

/-- `R_perm`: from camera axes (right, down, forward) to those of ROS (forward, left, up). -/
def rPerm : Matrix (Fin 3) (Fin 3) ℝ := !![0, 0, 1; -1, 0, 0; 0, -1, 0]

/-- The angles of an OXTS entry. -/
structure Oxts where
  roll : ℝ
  pitch : ℝ
  yaw : ℝ

structure Velodyne where
  scans : ℕ
  tr : Homogeneous

/-- The OXTS entries, and the calibration towards the velodyne if its file is there. -/
structure Imu where
  oxtsFiles : List Oxts
  imuCalib : Option Homogeneous

/-- `Kitti_Odom` after its setup: the numbers of images, the times, and what the parameters `odom`,
`velodyne` and `imu` make it read. -/
structure KittiOdom where
  leftImgs : ℕ
  rightImgs : ℕ
  timesFile : List ℝ
  groundTruth : Option (List Homogeneous)
  velodyne : Option Velodyne
  imu : Option Imu

/-- `counter_limit`. -/
def KittiOdom.counterLimit (k : KittiOdom) : ℤ :=
  let limit : ℤ := k.leftImgs - 1
  let limit := k.velodyne.elim limit fun v => min limit (v.scans - 1)
  k.imu.elim limit fun imu => min limit (imu.oxtsFiles.length - 1)

/-- Python's `int`. -/
def int (x : ℝ) : ℤ := if 0 ≤ x then ⌊x⌋ else ⌈x⌉

def stamp (timestamp : ℤ) : Stamp := ⟨timestamp / 10 ^ 9, (timestamp % 10 ^ 9).toNat⟩

/-- `make_transform`. -/
def makeTransform (parentFrame childFrame : String) (translation : Fin 3 → ℝ) (quaternion : ℍ[ℝ])
    (timestamp : ℤ) : TransformStamped :=
  ⟨parentFrame, stamp timestamp, childFrame, ⟨translation, quaternion⟩⟩

/-- `odom → velodyne`. -/
def odomToVelodyne (tr : Homogeneous) (timestamp : ℤ) : TransformStamped :=
  makeTransform "odom" "velodyne" (rPerm *ᵥ tr.translation)
    (rotationmtxToQuaternion (rPerm * tr.rotation)) timestamp

/-- `velodyne → imu_link`. -/
def velodyneToImuLink (calib : Homogeneous) (timestamp : ℤ) : TransformStamped :=
  makeTransform "velodyne" "imu_link" calib.translation (rotationmtxToQuaternion calib.rotation)
    timestamp

/-- The pose of the vehicle. -/
def vehiclePose (pose : Homogeneous) : Transform ℝ where
  translation := rPerm *ᵥ pose.translation
  rotation := rotationmtxToQuaternion (rPerm * pose.rotation * rPermᵀ)

/-- `map → odom`. -/
def mapToOdom (pose : Homogeneous) (timestamp : ℤ) : TransformStamped :=
  makeTransform "map" "odom" (vehiclePose pose).translation (vehiclePose pose).rotation timestamp

/-- The orientation of the IMU: `Rz(yaw) Ry(pitch) Rx(roll)`. -/
def imuOrientation (oxts : Oxts) : ℍ[ℝ] :=
  let rx := !![1, 0, 0; 0, Real.cos oxts.roll, -Real.sin oxts.roll;
    0, Real.sin oxts.roll, Real.cos oxts.roll]
  let ry := !![Real.cos oxts.pitch, 0, Real.sin oxts.pitch; 0, 1, 0;
    -Real.sin oxts.pitch, 0, Real.cos oxts.pitch]
  let rz := !![Real.cos oxts.yaw, -Real.sin oxts.yaw, 0;
    Real.sin oxts.yaw, Real.cos oxts.yaw, 0; 0, 0, 1]
  rotationmtxToQuaternion (rz * ry * rx)

/-- What a callback writes beside images, points and positions: the pose and the path, the
orientation of the IMU, and the transforms of the message on `/tf`, which is not written if there
are none. -/
structure Recorded where
  timestamp : ℤ
  odom : Option (Odometry × Path)
  imu : Option ℍ[ℝ]
  transforms : List TransformStamped

structure State where
  counter : ℕ := 0
  poses : List PoseStamped := []
  done : Bool := false

/-- `rec_odom_msg` and `rec_path_msg`. -/
def recOdomMsg (poses : List PoseStamped) (pose : Transform ℝ) (timestamp : ℤ) : Odometry × Path :=
  (⟨stamp timestamp, "map", "odom", pose⟩,
    ⟨stamp timestamp, "map", poses ++ [⟨stamp timestamp, "odom", pose⟩]⟩)

/-- `rec_callback`; an index that is out of range raises. -/
def recCallback (k : KittiOdom) (s : State) : Option (State × Recorded) := do
  let time ← k.timesFile[s.counter]?
  let timestamp := int (time * 1e9)
  guard (s.counter < k.leftImgs ∧ s.counter < k.rightImgs)
  let velodyneTfs ← k.velodyne.elim (some []) fun v =>
    if s.counter < v.scans then some [odomToVelodyne v.tr timestamp] else none
  let oxts ← k.imu.elim (some none) fun imu => imu.oxtsFiles[s.counter]?.map some
  -- the calibration is only looked up with the velodyne
  let imuTfs := if k.velodyne.isSome then
    ((k.imu.bind Imu.imuCalib).map fun calib => velodyneToImuLink calib timestamp).toList else []
  let pose ← k.groundTruth.elim (some none) fun poses => poses[s.counter]?.map some
  let odom := pose.map fun pose => recOdomMsg s.poses (vehiclePose pose) timestamp
  let mapTfs := (pose.map fun pose => mapToOdom pose timestamp).toList
  some ({ counter := s.counter + 1
          poses := odom.elim s.poses fun o => o.2.poses
          done := (s.counter : ℤ) ≥ k.counterLimit },
    ⟨timestamp, odom, oxts.map imuOrientation, velodyneTfs ++ imuTfs ++ mapTfs⟩)

/-- The node: the timer calls it until it is done. -/
def kittiRec (k : KittiOdom) : Machine State Unit Recorded where
  init := {}
  step s _ := if s.done then none else recCallback k s

end KittiRec

/-! ### patch_tf -/

namespace PatchTf

/-- `R_PERM`. -/
def rPerm : Matrix (Fin 3) (Fin 3) ℝ := !![0, 0, 1; -1, 0, 0; 0, -1, 0]

def stamp (timestampNs : ℤ) : Stamp := ⟨timestampNs / 10 ^ 9, (timestampNs % 10 ^ 9).toNat⟩

/-- `make_transform`. -/
def makeTransform (parentFrame childFrame : String) (translation : Fin 3 → ℝ) (quaternion : ℍ[ℝ])
    (timestampNs : ℤ) : TransformStamped :=
  ⟨parentFrame, stamp timestampNs, childFrame, ⟨translation, quaternion⟩⟩

/-- A serialized message of a bag. -/
structure BagMessage (β : Type*) where
  topic : String
  data : β
  timestampNs : ℤ

/-- What is written for a message of the source bag. -/
inductive Written (β : Type*)
  | copied (msg : BagMessage β)
  | regenerated (timestampNs : ℤ) (odom : Odometry) (path : Path) (tf : List TransformStamped)

structure State where
  counter : ℕ := 0
  poses : List PoseStamped := []

/-- The branch of the loop for a pose. -/
def regenerate {β : Type*} (tr pose : Homogeneous) (s : State) (timestampNs : ℤ) :
    State × List (Written β) :=
  let velodyneTranslation := rPerm *ᵥ tr.translation
  let velodyneRotation := rotationmtxToQuaternion (rPerm * tr.rotation)
  let translation := rPerm *ᵥ pose.translation
  let rotation := rPerm * pose.rotation * rPermᵀ
  let quaternion := rotationmtxToQuaternion rotation
  let poses := s.poses ++ [⟨stamp timestampNs, "odom", ⟨translation, quaternion⟩⟩]
  (⟨s.counter + 1, poses⟩,
    [.regenerated timestampNs ⟨stamp timestampNs, "map", "odom", ⟨translation, quaternion⟩⟩
      ⟨stamp timestampNs, "map", poses⟩
      [makeTransform "map" "odom" translation quaternion timestampNs,
        makeTransform "odom" "velodyne" velodyneTranslation velodyneRotation timestampNs]])

/-- `main`: one turn of the loop for every message of the source bag; a pose more than there are in
the ground truth raises. -/
def patchTf (β : Type*) (groundTruth : List Homogeneous) (tr : Homogeneous) :
    Machine State (BagMessage β) (List (Written β)) where
  init := {}
  step s msg :=
    if msg.topic = "/car/base/odom" then
      groundTruth[s.counter]?.map fun pose => regenerate tr pose s msg.timestampNs
    else if msg.topic = "/car/base/odom_path" then some (s, [])
    else some (s, [.copied msg])

end PatchTf

end

/-! ### Quaternions -/

theorem two_sqrt {x : ℝ} (hx : 0 < x) :
    0 < 2 * √x ∧ (2 * √x) ^ 2 = 4 * x ∧ 1 / 4 * (2 * √x) = x / (2 * √x) := by
  have hpos : 0 < 2 * √x := mul_pos two_pos (Real.sqrt_pos.mpr hx)
  have hsq : (2 * √x) ^ 2 = 4 * x := by
    rw [mul_pow, Real.sq_sqrt hx.le]
    norm_num
  refine ⟨hpos, hsq, ?_⟩
  rw [eq_div_iff hpos.ne']
  linear_combination hsq / 4

/-- Every branch takes a row of the table of products; the diagonal entry, whose root it divides by,
is positive for every matrix. -/
theorem shepperd_row (m : Matrix (Fin 3) (Fin 3) ℝ) : ∃ a s, 0 < s ∧ s ^ 2 = 4 * products m a a ∧
    ∀ i, components (shepperd m) i = products m a i / s := by
  generalize hq : shepperd m = q
  unfold shepperd at hq
  simp only [show (2.0 : ℝ) = 2 by norm_num, show (1.0 : ℝ) = 1 by norm_num,
    show (0.25 : ℝ) = 1 / 4 by norm_num] at hq
  split_ifs at hq with htrace h0 h1
  · obtain ⟨hpos, hsq, hdiag⟩ := two_sqrt (show 0 < m 0 0 + m 1 1 + m 2 2 + 1 by linarith)
    have hproducts : products m 0 0 = m 0 0 + m 1 1 + m 2 2 + 1 := by
      show 1 + m 0 0 + m 1 1 + m 2 2 = _
      ring
    refine ⟨0, _, hpos, hproducts ▸ hsq, fun i => ?_⟩
    rw [← hq]
    fin_cases i
    · exact hdiag.trans (congrArg (· / _) hproducts.symm)
    all_goals rfl
  · obtain ⟨hpos, hsq, hdiag⟩ := two_sqrt (show 0 < 1 + m 0 0 - m 1 1 - m 2 2 by linarith)
    refine ⟨1, _, hpos, hsq, fun i => ?_⟩
    rw [← hq]
    fin_cases i
    · rfl
    · exact hdiag
    all_goals rfl
  · have hmax : m 0 0 ≤ m 1 1 := by
      by_contra hlt
      exact h0 ⟨not_le.mp hlt, h1.trans (not_le.mp hlt)⟩
    obtain ⟨hpos, hsq, hdiag⟩ := two_sqrt (show 0 < 1 + m 1 1 - m 0 0 - m 2 2 by linarith)
    refine ⟨2, _, hpos, hsq, fun i => ?_⟩
    rw [← hq]
    fin_cases i
    · rfl
    · rfl
    · exact hdiag
    · rfl
  · have hmax : m 0 0 ≤ m 2 2 := by
      by_contra hlt
      exact h0 ⟨(not_lt.mp h1).trans_lt (not_le.mp hlt), not_le.mp hlt⟩
    obtain ⟨hpos, hsq, hdiag⟩ := two_sqrt (show 0 < 1 + m 2 2 - m 0 0 - m 1 1 by linarith)
    refine ⟨3, _, hpos, hsq, fun i => ?_⟩
    rw [← hq]
    fin_cases i
    · rfl
    · rfl
    · rfl
    · exact hdiag

theorem shepperd_ne_zero (m : Matrix (Fin 3) (Fin 3) ℝ) : shepperd m ≠ 0 := by
  intro hzero
  obtain ⟨a, s, hpos, hsq, hrow⟩ := shepperd_row m
  have hcomponent : components (shepperd m) a = 0 := by
    rw [hzero]
    fin_cases a
    all_goals rfl
  rw [hrow, div_eq_zero_iff, or_iff_left hpos.ne'] at hcomponent
  rw [hcomponent, mul_zero] at hsq
  exact hpos.ne' (pow_eq_zero_iff two_ne_zero |>.mp hsq)

/-- The quaternion of any matrix is a unit quaternion. -/
theorem normSq_rotationmtxToQuaternion (m : Matrix (Fin 3) (Fin 3) ℝ) :
    normSq (rotationmtxToQuaternion m) = 1 := by
  have hne : normSq (shepperd m) ≠ 0 := normSq_ne_zero.mpr (shepperd_ne_zero m)
  unfold rotationmtxToQuaternion
  rw [normSq_smul, inv_pow, Real.sq_sqrt normSq_nonneg, inv_mul_cancel₀ hne]

/-- The quaternion of a rotation matrix has its products. -/
theorem hasProducts_rotationmtxToQuaternion {m : Matrix (Fin 3) (Fin 3) ℝ}
    (h : m ∈ specialOrthogonalGroup (Fin 3) ℝ) : HasProducts (rotationmtxToQuaternion m) m := by
  obtain ⟨a, s, hpos, hsq, hrow⟩ := shepperd_row m
  have hproducts : HasProducts (shepperd m) m := hasProducts_of_row h hpos.ne' hsq hrow
  unfold rotationmtxToQuaternion
  rw [hproducts.normSq_eq, Real.sqrt_one, inv_one, one_smul]
  exact hproducts

/-- The quaternion of a rotation matrix rotates as the matrix does. -/
theorem rotate_rotationmtxToQuaternion {m : Matrix (Fin 3) (Fin 3) ℝ}
    (h : m ∈ specialOrthogonalGroup (Fin 3) ℝ) (v : Fin 3 → ℝ) :
    rotate (rotationmtxToQuaternion m) v = m *ᵥ v :=
  (hasProducts_rotationmtxToQuaternion h).rotate_eq v

/-! ### The chain of frames -/

namespace KittiRec

theorem rPerm_mul_transpose : rPerm * rPermᵀ = 1 := by
  unfold rPerm
  ext i j
  fin_cases i <;> fin_cases j
  all_goals simp [mul_apply, Fin.sum_univ_three]

theorem rPerm_mem : rPerm ∈ specialOrthogonalGroup (Fin 3) ℝ := by
  refine mem_specialOrthogonalGroup_iff.mpr ⟨(mem_orthogonalGroup_iff _ _).mpr
    rPerm_mul_transpose, ?_⟩
  unfold rPerm
  rw [det_fin_three]
  simp

/-- The vehicle is rotated as the camera is, in other axes. -/
theorem vehiclePose_apply {pose : Homogeneous}
    (h : pose.rotation ∈ specialOrthogonalGroup (Fin 3) ℝ) (w : Fin 3 → ℝ) :
    (vehiclePose pose).apply (rPerm *ᵥ w) =
      rPerm *ᵥ (pose.rotation *ᵥ w + pose.translation) := by
  have hmem : rPerm * pose.rotation * rPermᵀ ∈ specialOrthogonalGroup (Fin 3) ℝ :=
    mul_mem (mul_mem rPerm_mem h) (transpose_mem rPerm_mem)
  have hinv : rPermᵀ * rPerm = 1 :=
    (mem_orthogonalGroup_iff' _ _).mp (mem_specialOrthogonalGroup_iff.mp rPerm_mem).1
  show rotate (rotationmtxToQuaternion _) _ + rPerm *ᵥ pose.translation = _
  rw [rotate_rotationmtxToQuaternion hmem, mulVec_add, mulVec_mulVec, mulVec_mulVec,
    Matrix.mul_assoc _ _ rPerm, hinv, Matrix.mul_one]

theorem odomToVelodyne_apply {tr : Homogeneous}
    (h : tr.rotation ∈ specialOrthogonalGroup (Fin 3) ℝ) (timestamp : ℤ) (p : Fin 3 → ℝ) :
    (odomToVelodyne tr timestamp).transform.apply p =
      rPerm *ᵥ (tr.rotation *ᵥ p + tr.translation) := by
  show rotate (rotationmtxToQuaternion _) _ + rPerm *ᵥ tr.translation = _
  rw [rotate_rotationmtxToQuaternion (mul_mem rPerm_mem h), mulVec_add, mulVec_mulVec]

/-- **The chain of frames**: a point of the velodyne is put where the ground truth puts it. -/
theorem chain_apply {tr pose : Homogeneous} (htr : tr.rotation ∈ specialOrthogonalGroup (Fin 3) ℝ)
    (hpose : pose.rotation ∈ specialOrthogonalGroup (Fin 3) ℝ) (timestamp : ℤ) (p : Fin 3 → ℝ) :
    (mapToOdom pose timestamp).transform.apply ((odomToVelodyne tr timestamp).transform.apply p) =
      rPerm *ᵥ (pose.rotation *ᵥ (tr.rotation *ᵥ p + tr.translation) + pose.translation) := by
  rw [odomToVelodyne_apply htr]
  exact vehiclePose_apply hpose _

end KittiRec

/-! ### What is written -/

/-- The transforms from one frame to another. -/
def between (parent child : String) (tfs : List TransformStamped) : List TransformStamped :=
  tfs.filter fun t => t.frameId = parent ∧ t.childFrameId = child

theorem between_append (parent child : String) (tfs tfs' : List TransformStamped) :
    between parent child (tfs ++ tfs') = between parent child tfs ++ between parent child tfs' :=
  List.filter_append _ _

theorem zipWith_concat {α β γ : Type*} {f : α → β → γ} {l : List α} {l' : List β} {a : α}
    (h : l[l'.length]? = some a) (b : β) :
    List.zipWith f l (l' ++ [b]) = List.zipWith f l l' ++ [f a b] := by
  induction l' generalizing l with
  | nil =>
    cases l with
    | nil => simp at h
    | cons x l =>
      obtain rfl : x = a := by simpa using h
      simp
  | cons y l' ih =>
    cases l with
    | nil => simp at h
    | cons x l =>
      rw [List.cons_append, List.zipWith_cons_cons, List.zipWith_cons_cons, List.cons_append]
      exact congrArg _ (ih (by simpa using h))

namespace KittiRec

/-- The timestamps of the frames, those of the poses among them. -/
def timestamps (tr : List (Unit × Recorded)) : List ℤ := tr.map fun x => x.2.timestamp

def written (tr : List (Unit × Recorded)) : List TransformStamped :=
  tr.flatMap fun x => x.2.transforms

/-- The quaternions a callback writes. -/
def Recorded.quaternions (r : Recorded) : List ℍ[ℝ] :=
  r.odom.elim [] (fun o => o.1.pose.rotation :: o.2.poses.map fun pose => pose.pose.rotation) ++
    r.imu.toList ++ r.transforms.map fun t => t.transform.rotation

/-- What is written for a frame: its pose and the mount, at the time of the frame. -/
structure IsFrame (gt : List Homogeneous) (v : Velodyne) (i : ℕ) (r : Recorded) : Prop where
  mapOdom : ∃ pose, gt[i]? = some pose ∧
    between "map" "odom" r.transforms = [mapToOdom pose r.timestamp]
  odomVelodyne : between "odom" "velodyne" r.transforms = [odomToVelodyne v.tr r.timestamp]

theorem between_imuLink {parent : String} (h : parent ≠ "velodyne") (child : String)
    (calib : Option Homogeneous) (timestamp : ℤ) :
    between parent child (calib.map fun c => velodyneToImuLink c timestamp).toList = [] := by
  refine List.filter_eq_nil_iff.mpr fun t ht hframes => ?_
  obtain ⟨c, -, rfl⟩ := Option.map_eq_some_iff.mp (Option.mem_toList.mp ht)
  exact h (of_decide_eq_true hframes).1.symm

/-- What a callback reads, and all that it writes. -/
theorem recCallback_eq {k : KittiOdom} {s s' : State} {r : Recorded}
    (h : recCallback k s = some (s', r)) :
    ∃ (calib : Option Homogeneous) (oxts : Option Oxts) (pose : Option Homogeneous),
      (k.groundTruth.elim (some none) fun poses => poses[s.counter]?.map some) = some pose ∧
      s'.counter = s.counter + 1 ∧ s'.poses = r.odom.elim s.poses (fun o => o.2.poses) ∧
      r.odom = pose.map (fun pose => recOdomMsg s.poses (vehiclePose pose) r.timestamp) ∧
      r.imu = oxts.map imuOrientation ∧
      r.transforms = (k.velodyne.map fun v => odomToVelodyne v.tr r.timestamp).toList ++
        (calib.map fun c => velodyneToImuLink c r.timestamp).toList ++
        (pose.map fun pose => mapToOdom pose r.timestamp).toList := by
  unfold recCallback at h
  simp only [Option.bind_eq_bind, Option.bind_eq_some_iff] at h
  obtain ⟨time, -, -, -, velodyneTfs, hvelodyneTfs, oxts, -, pose, hpose, h⟩ := h
  obtain ⟨rfl, rfl⟩ := Prod.mk.inj (Option.some.inj h)
  refine ⟨if k.velodyne.isSome then k.imu.bind Imu.imuCalib else none, oxts, pose, hpose, rfl, rfl,
    rfl, rfl, ?_⟩
  have hmount : velodyneTfs = (k.velodyne.map fun v =>
      odomToVelodyne v.tr (int (time * 1e9))).toList := by
    cases hk : k.velodyne with
    | none =>
      rw [hk] at hvelodyneTfs
      exact (Option.some.inj hvelodyneTfs).symm
    | some v =>
      rw [hk] at hvelodyneTfs
      exact (Option.some.inj (Option.ite_none_right_eq_some.mp hvelodyneTfs).2).symm
  rw [hmount]
  split_ifs
  · rfl
  · rfl

/-- **Step lemma**: a callback writes the frame its counter points to. -/
theorem recCallback_isFrame {k : KittiOdom} {gt : List Homogeneous} {v : Velodyne} {s s' : State}
    {r : Recorded} (hodom : k.groundTruth = some gt) (hvelodyne : k.velodyne = some v)
    (h : recCallback k s = some (s', r)) :
    IsFrame gt v s.counter r ∧ s'.counter = s.counter + 1 := by
  obtain ⟨calib, oxts, pose, hpose, hcounter, -, -, -, htransforms⟩ := recCallback_eq h
  rw [hodom] at hpose
  obtain ⟨pose, hget, rfl⟩ := Option.map_eq_some_iff.mp hpose
  rw [hvelodyne] at htransforms
  refine ⟨⟨⟨pose, hget, ?_⟩, ?_⟩, hcounter⟩
  · rw [htransforms, between_append, between_append, between_imuLink (by decide)]
    rfl
  · rw [htransforms, between_append, between_append, between_imuLink (by decide)]
    rfl

/-- The quaternions in a path under construction are unit quaternions. -/
def UnitPath (poses : List PoseStamped) : Prop :=
  ∀ pose ∈ poses, normSq pose.pose.rotation = 1

theorem UnitPath.recOdomMsg {poses : List PoseStamped} (h : UnitPath poses) (pose : Homogeneous)
    (timestamp : ℤ) : UnitPath (recOdomMsg poses (vehiclePose pose) timestamp).2.poses := by
  intro p hp
  rcases List.mem_append.mp hp with hp | hp
  · exact h p hp
  · obtain rfl := List.mem_singleton.mp hp
    exact normSq_rotationmtxToQuaternion _

/-- A transform that may be written has a unit quaternion. -/
theorem unit_of_mem_toList {α : Type*} {f : α → TransformStamped}
    (hf : ∀ a, normSq (f a).transform.rotation = 1) {o : Option α} {t : TransformStamped}
    (ht : t ∈ (o.map f).toList) : normSq t.transform.rotation = 1 := by
  obtain ⟨a, -, rfl⟩ := Option.map_eq_some_iff.mp (Option.mem_toList.mp ht)
  exact hf a

/-- **Step lemma**: the quaternions a callback writes are unit quaternions. -/
theorem recCallback_unit {k : KittiOdom} {s s' : State} {r : Recorded} (hpath : UnitPath s.poses)
    (h : recCallback k s = some (s', r)) :
    UnitPath s'.poses ∧ ∀ q ∈ r.quaternions, normSq q = 1 := by
  obtain ⟨calib, oxts, pose, -, -, hposes, hodom, himu, htransforms⟩ := recCallback_eq h
  have hodoms : UnitPath s'.poses ∧ ∀ q ∈ r.odom.elim [] (fun o =>
      o.1.pose.rotation :: o.2.poses.map fun pose => pose.pose.rotation), normSq q = 1 := by
    rw [hposes, hodom]
    cases pose with
    | none => exact ⟨hpath, fun q hq => absurd hq List.not_mem_nil⟩
    | some pose =>
      have hlonger := hpath.recOdomMsg pose r.timestamp
      refine ⟨hlonger, fun q hq => ?_⟩
      rcases List.mem_cons.mp hq with rfl | hq
      · exact normSq_rotationmtxToQuaternion _
      · obtain ⟨p, hp, rfl⟩ := List.mem_map.mp hq
        exact hlonger p hp
  refine ⟨hodoms.1, fun q hq => ?_⟩
  rw [Recorded.quaternions, List.mem_append, List.mem_append] at hq
  rcases hq with (hq | hq) | hq
  · exact hodoms.2 q hq
  · obtain ⟨o, -, rfl⟩ := Option.map_eq_some_iff.mp (Option.mem_toList.mp (himu ▸ hq))
    exact normSq_rotationmtxToQuaternion _
  · obtain ⟨t, ht, rfl⟩ := List.mem_map.mp hq
    rw [htransforms, List.mem_append, List.mem_append] at ht
    rcases ht with (ht | ht) | ht
    · exact unit_of_mem_toList (fun _ => normSq_rotationmtxToQuaternion _) ht
    · exact unit_of_mem_toList (fun _ => normSq_rotationmtxToQuaternion _) ht
    · exact unit_of_mem_toList (fun _ => normSq_rotationmtxToQuaternion _) ht

/-- What a run has written, frame by frame. -/
structure Records (gt : List Homogeneous) (v : Velodyne) (tr : List (Unit × Recorded)) (s : State) :
    Prop where
  counter : s.counter = tr.length
  frames : ∀ i r, (tr.map Prod.snd)[i]? = some r → IsFrame gt v i r
  mapOdom : between "map" "odom" (written tr) = List.zipWith mapToOdom gt (timestamps tr)
  odomVelodyne : between "odom" "velodyne" (written tr) =
    (timestamps tr).map (odomToVelodyne v.tr)

theorem Records.concat {gt : List Homogeneous} {v : Velodyne} {tr : List (Unit × Recorded)}
    {s s' : State} {r : Recorded} (h : Records gt v tr s) (hframe : IsFrame gt v s.counter r)
    (hcounter : s'.counter = s.counter + 1) : Records gt v (tr ++ [((), r)]) s' := by
  have hwritten : written (tr ++ [((), r)]) = written tr ++ r.transforms := by
    unfold written
    rw [List.flatMap_append, List.flatMap_singleton]
  have htimestamps : timestamps (tr ++ [((), r)]) = timestamps tr ++ [r.timestamp] :=
    List.map_append
  rw [h.counter] at hframe hcounter
  obtain ⟨⟨pose, hpose, hmapOdom⟩, hodomVelodyne⟩ := hframe
  refine ⟨?_, fun i r' hr' => ?_, ?_, ?_⟩
  · rw [hcounter, List.length_append, List.length_singleton]
  · rw [List.map_append, List.getElem?_append, List.length_map] at hr'
    split_ifs at hr' with hlt
    · exact h.frames i r' hr'
    · obtain ⟨hi, rfl⟩ : i = tr.length ∧ r = r' := by
        rw [List.map_singleton, List.getElem?_singleton] at hr'
        obtain ⟨hzero, hr'⟩ := Option.ite_none_right_eq_some.mp hr'
        exact ⟨by omega, Option.some.inj hr'⟩
      rw [hi]
      exact ⟨⟨pose, hpose, hmapOdom⟩, hodomVelodyne⟩
  · have hlast : gt[(timestamps tr).length]? = some pose := by
      rw [timestamps, List.length_map]
      exact hpose
    rw [hwritten, between_append, h.mapOdom, hmapOdom, htimestamps, zipWith_concat hlast]
  · rw [hwritten, between_append, h.odomVelodyne, hodomVelodyne, htimestamps, List.map_append]
    rfl

/-- **Run lemma** for `kitti_rec`. -/
theorem records_of_reaches {k : KittiOdom} {gt : List Homogeneous} {v : Velodyne} {s : State}
    {tr : List (Unit × Recorded)} (hodom : k.groundTruth = some gt)
    (hvelodyne : k.velodyne = some v) (h : (kittiRec k).Reaches tr s) : Records gt v tr s := by
  refine h.invariant ⟨rfl, fun i r hr => by simp at hr, List.zipWith_nil_right.symm, rfl⟩ ?_
  rintro tr s ⟨⟩ s' r - ih - hstep
  obtain ⟨-, hstep⟩ := Option.ite_none_left_eq_some.mp hstep
  obtain ⟨hframe, hcounter⟩ := recCallback_isFrame hodom hvelodyne hstep
  exact ih.concat hframe hcounter

theorem unit_of_reaches {k : KittiOdom} {s : State} {tr : List (Unit × Recorded)}
    (h : (kittiRec k).Reaches tr s) :
    UnitPath s.poses ∧ ∀ x ∈ tr, ∀ q ∈ x.2.quaternions, normSq q = 1 := by
  refine h.invariant (I := fun tr s => UnitPath s.poses ∧ ∀ x ∈ tr, ∀ q ∈ x.2.quaternions,
    normSq q = 1) ⟨fun _ hp => absurd hp List.not_mem_nil,
    fun _ hx => absurd hx List.not_mem_nil⟩ ?_
  rintro tr s ⟨⟩ s' r - ⟨hpath, hunit⟩ - hstep
  obtain ⟨-, hstep⟩ := Option.ite_none_left_eq_some.mp hstep
  obtain ⟨hpath', hr⟩ := recCallback_unit hpath hstep
  refine ⟨hpath', fun x hx => ?_⟩
  rcases List.mem_append.mp hx with hx | hx
  · exact hunit x hx
  · obtain rfl := List.mem_singleton.mp hx
    exact hr

end KittiRec

namespace PatchTf

variable {β : Type*} {gt : List Homogeneous} {trCalib : Homogeneous}

def Written.transforms : Written β → List TransformStamped
  | .copied _ => []
  | .regenerated _ _ _ tf => tf

/-- The quaternions that are written anew. -/
def Written.quaternions : Written β → List ℍ[ℝ]
  | .copied _ => []
  | .regenerated _ odom path tf => odom.pose.rotation ::
    (path.poses.map (fun pose => pose.pose.rotation) ++ tf.map fun t => t.transform.rotation)

def written (tr : List (BagMessage β × List (Written β))) : List TransformStamped :=
  tr.flatMap fun x => x.2.flatMap Written.transforms

/-- The timestamps of the poses in the source bag. -/
def odomTimestamps (tr : List (BagMessage β × List (Written β))) : List ℤ :=
  (tr.filter fun x => x.1.topic = "/car/base/odom").map fun x => x.1.timestampNs

/-- What a run has written, pose by pose. -/
structure Patches (gt : List Homogeneous) (trCalib : Homogeneous)
    (tr : List (BagMessage β × List (Written β))) (s : State) : Prop where
  counter : s.counter = (odomTimestamps tr).length
  mapOdom : between "map" "odom" (written tr) =
    List.zipWith KittiRec.mapToOdom gt (odomTimestamps tr)
  odomVelodyne : between "odom" "velodyne" (written tr) =
    (odomTimestamps tr).map (KittiRec.odomToVelodyne trCalib)
  path : KittiRec.UnitPath s.poses
  unit : ∀ x ∈ tr, ∀ w ∈ x.2, ∀ q ∈ w.quaternions, normSq q = 1

theorem written_concat (tr : List (BagMessage β × List (Written β)))
    (x : BagMessage β × List (Written β)) :
    written (tr ++ [x]) = written tr ++ x.2.flatMap Written.transforms := by
  unfold written
  rw [List.flatMap_append, List.flatMap_singleton]

theorem odomTimestamps_concat (tr : List (BagMessage β × List (Written β)))
    (x : BagMessage β × List (Written β)) : odomTimestamps (tr ++ [x]) =
      if x.1.topic = "/car/base/odom" then odomTimestamps tr ++ [x.1.timestampNs]
      else odomTimestamps tr := by
  unfold odomTimestamps
  rw [List.filter_append, List.map_append]
  split_ifs with h
  · simp [h]
  · simp [h]

/-- A pose of the source bag is written anew, with the transforms `kitti_rec` records for it. -/
theorem Patches.regenerate {tr : List (BagMessage β × List (Written β))} {s : State}
    (h : Patches gt trCalib tr s) {msg : BagMessage β} (htopic : msg.topic = "/car/base/odom")
    {pose : Homogeneous} (hpose : gt[s.counter]? = some pose) :
    Patches gt trCalib (tr ++ [(msg, (PatchTf.regenerate trCalib pose s msg.timestampNs).2)])
      (PatchTf.regenerate (β := β) trCalib pose s msg.timestampNs).1 := by
  have htimestamps := (odomTimestamps_concat tr
    (msg, (PatchTf.regenerate trCalib pose s msg.timestampNs).2)).trans (if_pos htopic)
  have hpath : KittiRec.UnitPath
      (PatchTf.regenerate (β := β) trCalib pose s msg.timestampNs).1.poses :=
    h.path.recOdomMsg pose msg.timestampNs
  refine ⟨?_, ?_, ?_, hpath, fun x hx w hw q hq => ?_⟩
  · rw [htimestamps, List.length_append, List.length_singleton, ← h.counter]
    rfl
  · rw [h.counter] at hpose
    rw [written_concat, between_append, h.mapOdom, htimestamps, zipWith_concat hpose]
    rfl
  · rw [written_concat, between_append, h.odomVelodyne, htimestamps, List.map_append]
    rfl
  · rcases List.mem_append.mp hx with hx | hx
    · exact h.unit x hx w hw q hq
    · obtain rfl := List.mem_singleton.mp hx
      obtain rfl := List.mem_singleton.mp hw
      rcases List.mem_cons.mp hq with rfl | hq
      · exact normSq_rotationmtxToQuaternion _
      · rcases List.mem_append.mp hq with hq | hq
        · obtain ⟨p, hp, rfl⟩ := List.mem_map.mp hq
          exact hpath p hp
        · obtain ⟨t, ht, rfl⟩ := List.mem_map.mp hq
          rcases List.mem_cons.mp ht with rfl | ht
          · exact normSq_rotationmtxToQuaternion _
          · obtain rfl := List.mem_singleton.mp ht
            exact normSq_rotationmtxToQuaternion _

/-- Every other message leaves the transforms and the counter alone. -/
theorem Patches.skip {tr : List (BagMessage β × List (Written β))} {s : State}
    (h : Patches gt trCalib tr s) {msg : BagMessage β} (htopic : msg.topic ≠ "/car/base/odom")
    {ws : List (Written β)} (hws : ∀ w ∈ ws, w = .copied msg) :
    Patches gt trCalib (tr ++ [(msg, ws)]) s := by
  have htimestamps := (odomTimestamps_concat tr (msg, ws)).trans (if_neg htopic)
  have hwritten : written (tr ++ [(msg, ws)]) = written tr := by
    have hnone : ws.flatMap Written.transforms = [] := by
      refine List.flatMap_eq_nil_iff.mpr fun w hw => ?_
      rw [hws w hw]
      rfl
    rw [written_concat, hnone, List.append_nil]
  refine ⟨htimestamps ▸ h.counter, ?_, ?_, h.path, fun x hx w hw q hq => ?_⟩
  · rw [hwritten, htimestamps, h.mapOdom]
  · rw [hwritten, htimestamps, h.odomVelodyne]
  · rcases List.mem_append.mp hx with hx | hx
    · exact h.unit x hx w hw q hq
    · obtain rfl := List.mem_singleton.mp hx
      rw [hws w hw] at hq
      exact absurd hq List.not_mem_nil

/-- **Run lemma** for `patch_tf`. -/
theorem patches_of_reaches {tr : List (BagMessage β × List (Written β))} {s : State}
    (h : (patchTf β gt trCalib).Reaches tr s) : Patches gt trCalib tr s := by
  refine h.invariant ⟨rfl, List.zipWith_nil_right.symm, rfl,
    fun _ hp => absurd hp List.not_mem_nil, fun _ hx => absurd hx List.not_mem_nil⟩ ?_
  rintro tr s msg s' ws - ih - hstep
  unfold patchTf at hstep
  dsimp only at hstep
  split_ifs at hstep with hodom hpath
  · obtain ⟨pose, hpose, hstep⟩ := Option.map_eq_some_iff.mp hstep
    obtain rfl : (regenerate trCalib pose s msg.timestampNs).1 = s' := congrArg Prod.fst hstep
    obtain rfl : (regenerate trCalib pose s msg.timestampNs).2 = ws := congrArg Prod.snd hstep
    exact ih.regenerate hodom hpose
  · obtain ⟨rfl, rfl⟩ := Prod.mk.inj (Option.some.inj hstep)
    exact ih.skip hodom fun w hw => absurd hw List.not_mem_nil
  · obtain ⟨rfl, rfl⟩ := Prod.mk.inj (Option.some.inj hstep)
    exact ih.skip hodom fun w hw => List.mem_singleton.mp hw

end PatchTf

/-! ### The chain of frames in the bags -/

/-- The transforms of one frame put a point of the velodyne where the ground truth puts it. -/
def ChainExact (pose tr : Homogeneous) (tfs : List TransformStamped) : Prop :=
  ∃ a b, between "map" "odom" tfs = [a] ∧ between "odom" "velodyne" tfs = [b] ∧
    ∀ p, a.transform.apply (b.transform.apply p) =
      KittiRec.rPerm *ᵥ (pose.rotation *ᵥ (tr.rotation *ᵥ p + tr.translation) + pose.translation)

/-- **The chain of frames is exact** in every frame that is recorded, every quaternion is a unit
quaternion, and the two programs write the same transforms for poses of the same times. -/
theorem frames_exact {k : KittiRec.KittiOdom} {gt : List Homogeneous} {v : KittiRec.Velodyne}
    {β : Type*} (hodom : k.groundTruth = some gt) (hvelodyne : k.velodyne = some v)
    (hgt : ∀ pose ∈ gt, pose.rotation ∈ specialOrthogonalGroup (Fin 3) ℝ)
    (htr : v.tr.rotation ∈ specialOrthogonalGroup (Fin 3) ℝ)
    {tr : List (Unit × KittiRec.Recorded)} {s : KittiRec.State}
    (h : (KittiRec.kittiRec k).Reaches tr s)
    {tr' : List (PatchTf.BagMessage β × List (PatchTf.Written β))} {s' : PatchTf.State}
    (h' : (PatchTf.patchTf β gt v.tr).Reaches tr' s') :
    (∀ (i : ℕ) (r : KittiRec.Recorded), (tr.map Prod.snd)[i]? = some r →
      ∃ pose, gt[i]? = some pose ∧ ChainExact pose v.tr r.transforms) ∧
    ((∀ x ∈ tr, ∀ q ∈ x.2.quaternions, normSq q = 1) ∧
      ∀ x ∈ tr', ∀ w ∈ x.2, ∀ q ∈ w.quaternions, normSq q = 1) ∧
    (PatchTf.odomTimestamps tr' = KittiRec.timestamps tr →
      between "map" "odom" (PatchTf.written tr') = between "map" "odom" (KittiRec.written tr) ∧
      between "odom" "velodyne" (PatchTf.written tr') =
        between "odom" "velodyne" (KittiRec.written tr)) := by
  have hrec := KittiRec.records_of_reaches hodom hvelodyne h
  have hpatch := PatchTf.patches_of_reaches h'
  refine ⟨fun i r hr => ?_, ⟨(KittiRec.unit_of_reaches h).2, hpatch.unit⟩, fun htimes => ?_⟩
  · obtain ⟨⟨pose, hpose, hmapOdom⟩, hodomVelodyne⟩ := hrec.frames i r hr
    refine ⟨pose, hpose, _, _, hmapOdom, hodomVelodyne, fun p => ?_⟩
    exact KittiRec.chain_apply htr (hgt pose (List.mem_of_getElem? hpose)) _ p
  · rw [hpatch.mapOdom, hpatch.odomVelodyne, hrec.mapOdom, hrec.odomVelodyne, htimes]
    exact ⟨rfl, rfl⟩

/-- A mount one meter above the camera, with the axes of ROS. -/
def mount : Homogeneous := ⟨KittiRec.rPermᵀ, ![0, -1, 0]⟩

/-- A quarter turn to the right, and one meter ahead. -/
def turned : Homogeneous := ⟨!![0, 0, 1; 0, 1, 0; -1, 0, 0], ![0, 0, 1]⟩

theorem turned_mem : turned.rotation ∈ specialOrthogonalGroup (Fin 3) ℝ := by
  refine mem_specialOrthogonalGroup_iff.mpr ⟨(mem_orthogonalGroup_iff _ _).mpr ?_, ?_⟩
  · unfold turned
    ext i j
    fin_cases i <;> fin_cases j
    all_goals simp [mul_apply, Fin.sum_univ_three]
  · unfold turned
    rw [det_fin_three]
    simp

/-- A sequence with two frames, the second one turned. -/
def twoFrames : KittiRec.KittiOdom where
  leftImgs := 2
  rightImgs := 2
  timesFile := [0, 1]
  groundTruth := some [⟨1, 0⟩, turned]
  velodyne := some ⟨2, mount⟩
  imu := none

theorem frames_exact_twoFrames :
    ∃ tr s tr' s', (KittiRec.kittiRec twoFrames).Reaches tr s ∧
      (PatchTf.patchTf ℕ [⟨1, 0⟩, turned] mount).Reaches tr' s' ∧ tr.length = 2 ∧
      (∃ r, (tr.map Prod.snd)[1]? = some r ∧ ChainExact turned mount r.transforms) ∧
      between "map" "odom" (PatchTf.written tr') = between "map" "odom" (KittiRec.written tr) := by
  have hrec : (KittiRec.kittiRec twoFrames).Reaches _ _ :=
    (Machine.Run.init.step trivial (e := ()) rfl).step trivial (e := ()) rfl
  have hpatch : (PatchTf.patchTf ℕ [⟨1, 0⟩, turned] mount).Reaches _ _ :=
    (Machine.Run.init.step trivial (e := ⟨"/car/base/odom", 0, KittiRec.int (0 * 1e9)⟩) rfl).step
      trivial (e := ⟨"/car/base/odom", 1, KittiRec.int (1 * 1e9)⟩) rfl
  obtain ⟨hframes, -, hsame⟩ := frames_exact (k := twoFrames) (v := ⟨2, mount⟩) rfl rfl
    (fun pose hpose => by
      rcases List.mem_cons.mp hpose with rfl | hpose
      · exact one_mem _
      · obtain rfl := List.mem_singleton.mp hpose
        exact turned_mem)
    (transpose_mem KittiRec.rPerm_mem) hrec hpatch
  obtain ⟨pose, hpose, hchain⟩ := hframes 1 _ rfl
  obtain rfl : turned = pose := Option.some.inj hpose
  exact ⟨_, _, _, _, hrec, hpatch, rfl, ⟨_, rfl, hchain⟩, (hsame rfl).1⟩

end RoverSwarm.Kitti
