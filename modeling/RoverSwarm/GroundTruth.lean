import Mathlib.Analysis.SpecialFunctions.Complex.Arg
import RoverSwarm.Lib.Dict
import RoverSwarm.Lib.RigidMotion
import RoverSwarm.Relay

/-!
# GroundTruth — odometry from the true poses

`ground_truth_tf.py` publishes every pose it receives relative to the first one, while the launch
file anchors `<ns>/map` at the configured spawn pose.  The two agree as long as the first pose that
arrives is the spawn pose.  Arithmetic is exact, in the reals.
-/

namespace RoverSwarm.GroundTruth

open Relay (Stamp)
open RigidMotion RigidMotion.Transform Transition

noncomputable section

/-! ### Messages -/

abbrev TransformStamped := Relay.TransformStamped (Transform ℝ)

/-- `PoseStamped` without the frame, which holds the name of the gz world. -/
structure PoseStamped where
  stamp : Stamp
  pose : Transform ℝ

structure Twist where
  linear : Fin 3 → ℝ := 0
  angular : Fin 3 → ℝ := 0

structure Odometry where
  stamp : Stamp
  frameId : String
  childFrameId : String
  pose : Transform ℝ
  twist : Twist

/-! ### Angles -/

def atan2 (y x : ℝ) : ℝ := Complex.arg ⟨x, y⟩

/-- `_yaw_from_quat`. -/
def yawFromQuat (q : Quaternion ℝ) : ℝ :=
  atan2 (2.0 * (q.re * q.imK + q.imI * q.imJ)) (1.0 - 2.0 * (q.imJ * q.imJ + q.imK * q.imK))

/-- `_wrap`. -/
def wrap (angle : ℝ) : ℝ := atan2 (Real.sin angle) (Real.cos angle)

/-- `_stamp_to_sec`. -/
def stampToSec (stamp : Stamp) : ℝ := stamp.sec + stamp.nanosec * 1e-9

/-! ### The node -/

/-- `_origin` and `_last`. -/
structure State where
  origin : Dict String (ℝ × ℝ × ℝ) := ∅
  last : Dict String (ℝ × ℝ × ℝ × ℝ) := ∅

/-- What `_on_pose` publishes. -/
structure Published where
  gtBaseLink : TransformStamped
  odom : Option (TransformStamped × Odometry)

/-- The twist since the last pose, in the frame of the rover; zero if there is none or it is not
more than a millisecond old. -/
def twistSince (last : Option (ℝ × ℝ × ℝ × ℝ)) (xr yr yawr now : ℝ) : Twist :=
  match last with
  | none => {}
  | some (x, y, yaw, sec) =>
    let dt := now - sec
    if dt > 1e-3 then
      let vx := (xr - x) / dt
      let vy := (yr - y) / dt
      let cy := Real.cos yawr
      let sy := Real.sin yawr
      { linear := ![cy * vx + sy * vy, -sy * vx + cy * vy, 0]
        angular := ![0, 0, wrap (yawr - yaw) / dt] }
    else {}

/-- `_publish_odom_for`. -/
def publishOdomFor (s : State) (ns : String) (msg : PoseStamped) :
    State × TransformStamped × Odometry :=
  let x := msg.pose.translation 0
  let y := msg.pose.translation 1
  let yaw := yawFromQuat msg.pose.rotation
  let origin := match s.origin.get? ns with
    | none => s.origin.set ns (x, y, yaw)
    | some _ => s.origin
  let (x0, y0, yaw0) := (s.origin.get? ns).getD (x, y, yaw)
  let c0 := Real.cos yaw0
  let s0 := Real.sin yaw0
  let dx := x - x0
  let dy := y - y0
  let xr := c0 * dx + s0 * dy
  let yr := -s0 * dx + c0 * dy
  let yawr := wrap (yaw - yaw0)
  let pose : Transform ℝ := ⟨![xr, yr, 0], ⟨Real.cos (yawr / 2.0), 0, 0, Real.sin (yawr / 2.0)⟩⟩
  let now := stampToSec msg.stamp
  (⟨origin, s.last.set ns (xr, yr, yawr, now)⟩,
    ⟨ns ++ "/odom", msg.stamp, ns ++ "/base_link", pose⟩,
    ⟨msg.stamp, ns ++ "/odom", ns ++ "/base_link", pose,
      twistSince (s.last.get? ns) xr yr yawr now⟩)

/-- `_on_pose`. -/
def onPose (publishOdom : Bool) (s : State) (ns : String) (msg : PoseStamped) :
    State × Published :=
  let gtBaseLink := ⟨"map", msg.stamp, ns ++ "/gt_base_link", msg.pose⟩
  if publishOdom then
    let (s, odom) := publishOdomFor s ns msg
    (s, ⟨gtBaseLink, some odom⟩)
  else (s, ⟨gtBaseLink, none⟩)

/-- `GroundTruthTF`: it hears the poses of its namespaces, those that are not lost. -/
def groundTruthTF (namespaces : List String) (publishOdom : Bool) :
    Machine State (String × PoseStamped) Published where
  init := {}
  step s e := if e.1 ∈ namespaces then some (onPose publishOdom s e.1 e.2) else none

/-- The static transform `map → <ns>/map` of `spawn_rover`, at the spawn pose `(x, y, z, yaw)`. -/
def mapToNsMap (spawn : ℝ × ℝ × ℝ × ℝ) : Transform ℝ :=
  planar spawn.1 spawn.2.1 spawn.2.2.2

end

theorem groundTruthTF_step {namespaces : List String} {ns : String} (h : ns ∈ namespaces)
    (publishOdom : Bool) (s : State) (msg : PoseStamped) :
    (groundTruthTF namespaces publishOdom).step s (ns, msg) = some (onPose publishOdom s ns msg) :=
  if_pos h

theorem onPose_of_step {namespaces : List String} {publishOdom : Bool} {s s' : State}
    {ns : String} {msg : PoseStamped} {p : Published}
    (h : (groundTruthTF namespaces publishOdom).step s (ns, msg) = some (s', p)) :
    (onPose publishOdom s ns msg).1 = s' ∧ (onPose publishOdom s ns msg).2 = p := by
  simp only [groundTruthTF, Option.ite_none_right_eq_some, Option.some.injEq] at h
  exact Prod.mk.inj h.2

/-! ### Headings -/

/-- `atan2` returns the angle of a point on the unit circle. -/
theorem cos_sin_atan2 {x y : ℝ} (h : x ^ 2 + y ^ 2 = 1) :
    Real.cos (atan2 y x) = x ∧ Real.sin (atan2 y x) = y := by
  have hnorm : ‖(⟨x, y⟩ : ℂ)‖ = 1 := by
    rw [Complex.norm_eq_sqrt_sq_add_sq, h, Real.sqrt_one]
  have hne : (⟨x, y⟩ : ℂ) ≠ 0 := by
    intro hzero
    rw [hzero, norm_zero] at hnorm
    exact zero_ne_one hnorm
  unfold atan2
  rw [Complex.cos_arg hne, Complex.sin_arg, hnorm, div_one, div_one]
  exact ⟨rfl, rfl⟩

theorem cos_sin_wrap (angle : ℝ) :
    Real.cos (wrap angle) = Real.cos angle ∧ Real.sin (wrap angle) = Real.sin angle :=
  cos_sin_atan2 (Real.cos_sq_add_sin_sq angle)

/-- The pose of the rover in the plane. -/
def planarPose (pose : Transform ℝ) : Transform ℝ :=
  ⟨![pose.translation 0, pose.translation 1, 0], pose.rotation⟩

/-- `x`, `y` and `yaw` of a message. -/
noncomputable def planarOf (msg : PoseStamped) : ℝ × ℝ × ℝ :=
  (msg.pose.translation 0, msg.pose.translation 1, yawFromQuat msg.pose.rotation)

theorem planarPose_apply {msg : PoseStamped} (h : (planarPose msg.pose).IsPlanar) :
    (planarPose msg.pose).apply =
      (planar (planarOf msg).1 (planarOf msg).2.1 (planarOf msg).2.2).apply := by
  have hI : msg.pose.rotation.imI = 0 := h.imI
  have hJ : msg.pose.rotation.imJ = 0 := h.imJ
  have hsq : msg.pose.rotation.re ^ 2 + msg.pose.rotation.imK ^ 2 = 1 := h.sq_add_sq
  obtain ⟨hcos, hsin⟩ := cos_sin_atan2 (x := 1 - 2 * msg.pose.rotation.imK ^ 2)
    (y := 2 * (msg.pose.rotation.re * msg.pose.rotation.imK))
    (by linear_combination 4 * msg.pose.rotation.imK ^ 2 * hsq)
  have hyaw : (planarOf msg).2.2 = atan2 (2 * (msg.pose.rotation.re * msg.pose.rotation.imK))
      (1 - 2 * msg.pose.rotation.imK ^ 2) := by
    show yawFromQuat msg.pose.rotation = _
    simp only [yawFromQuat, hI, hJ, show (2.0 : ℝ) = 2 by norm_num, show (1.0 : ℝ) = 1 by norm_num]
    ring_nf
  rw [hyaw]
  exact h.apply_eq_planar hcos hsin

/-! ### What is published -/

/-- The pose all poses of the rover are published relative to. -/
noncomputable def originOf (s : State) (ns : String) (msg : PoseStamped) : ℝ × ℝ × ℝ :=
  (s.origin.get? ns).getD (planarOf msg)

/-- A published pose of the rover, seen from `origin`. -/
def RelativeTo (origin : Transform ℝ) (msg : PoseStamped) (p : Published) : Prop :=
  ∃ tf odom, p.odom = some (tf, odom) ∧ Quaternion.normSq tf.transform.rotation = 1 ∧
    (origin.comp tf.transform).apply = (planarPose msg.pose).apply

/-- A pose as it is published, with half the heading. -/
theorem eq_planar (x y yaw : ℝ) :
    (⟨![x, y, 0], ⟨Real.cos (yaw / 2.0), 0, 0, Real.sin (yaw / 2.0)⟩⟩ : Transform ℝ) =
      planar x y yaw := by
  rw [show (2.0 : ℝ) = 2 by norm_num]
  rfl

/-- The pose of the rover, published relative to `origin`. -/
theorem onPose_transform (s : State) (ns : String) (msg : PoseStamped) (origin : ℝ × ℝ × ℝ)
    (h : originOf s ns msg = origin) :
    ∃ tf odom, (onPose true s ns msg).2.odom = some (tf, odom) ∧ tf.transform = planar
      (Real.cos origin.2.2 * ((planarOf msg).1 - origin.1) +
        Real.sin origin.2.2 * ((planarOf msg).2.1 - origin.2.1))
      (-Real.sin origin.2.2 * ((planarOf msg).1 - origin.1) +
        Real.cos origin.2.2 * ((planarOf msg).2.1 - origin.2.1))
      (wrap ((planarOf msg).2.2 - origin.2.2)) := by
  subst h
  refine ⟨_, _, rfl, ?_⟩
  exact eq_planar _ _ _

theorem onPose_relativeTo (s : State) (ns : String) {msg : PoseStamped}
    (h : (planarPose msg.pose).IsPlanar) : RelativeTo
      (planar (originOf s ns msg).1 (originOf s ns msg).2.1 (originOf s ns msg).2.2) msg
      (onPose true s ns msg).2 := by
  obtain ⟨hcos, hsin⟩ := cos_sin_wrap ((planarOf msg).2.2 - (originOf s ns msg).2.2)
  obtain ⟨tf, odom, hodom, htf⟩ := onPose_transform s ns msg _ rfl
  refine ⟨tf, odom, hodom, ?_, ?_⟩
  · rw [htf]
    exact normSq_planar _ _ _
  · rw [htf, planarPose_apply h]
    exact planar_comp_relative _ _ _ _ _ _ hcos hsin

/-- The first pose of a rover becomes its origin and stays it. -/
theorem onPose_origin (s : State) (ns ns' : String) (msg : PoseStamped) :
    (onPose true s ns msg).1.origin.get? ns' =
      if ns' = ns then some (originOf s ns msg) else s.origin.get? ns' := by
  unfold originOf
  cases horigin : s.origin.get? ns with
  | none =>
    have hset : (onPose true s ns msg).1.origin = s.origin.set ns (planarOf msg) := by
      simp [onPose, publishOdomFor, planarOf, horigin]
    rw [hset, Dict.get?_set]
    rfl
  | some origin =>
    have hsame : (onPose true s ns msg).1.origin = s.origin := by
      simp [onPose, publishOdomFor, horigin]
    rw [hsame]
    split_ifs with heq
    · rw [heq, horigin]
      rfl
    · rfl

/-! ### Runs -/

variable {namespaces : List String} {ns : String} {s : State}
  {tr : List ((String × PoseStamped) × Published)}

/-- The poses of the rover that were delivered. -/
def delivered (ns : String) (tr : List ((String × PoseStamped) × Published)) : List PoseStamped :=
  (tr.filter fun x => x.1.1 = ns).map fun x => x.1.2

/-- The rover moves in the plane. -/
def MovesInPlane (ns : String) (_ : State) (e : String × PoseStamped) : Prop :=
  e.1 = ns → (planarPose e.2.pose).IsPlanar

/-- The first pose that was delivered is the origin of all that is published. -/
structure Anchored (ns : String) (tr : List ((String × PoseStamped) × Published)) (s : State) :
    Prop where
  origin : s.origin.get? ns = (delivered ns tr).head?.map planarOf
  relative : ∀ x ∈ tr, x.1.1 = ns → ∃ first ∈ (delivered ns tr).head?,
    RelativeTo (planarPose first.pose) x.1.2 x.2
  planar : ∀ msg ∈ delivered ns tr, (planarPose msg.pose).IsPlanar

theorem delivered_concat (ns : String) (tr : List ((String × PoseStamped) × Published))
    (x : (String × PoseStamped) × Published) : delivered ns (tr ++ [x]) =
      if x.1.1 = ns then delivered ns tr ++ [x.1.2] else delivered ns tr := by
  unfold delivered
  rw [List.filter_append, List.map_append]
  split_ifs with h
  · simp [h]
  · simp [h]

/-- A pose more leaves the first one where it is. -/
theorem mem_head?_delivered_concat {first : PoseStamped} (h : first ∈ (delivered ns tr).head?)
    (x : (String × PoseStamped) × Published) : first ∈ (delivered ns (tr ++ [x])).head? := by
  rw [delivered_concat]
  split_ifs
  · rw [List.head?_append, Option.mem_def.mp h]
    rfl
  · exact h

/-- The origin of the next pose is the first pose, which may be that one. -/
theorem Anchored.exists_first (h : Anchored ns tr s) {msg : PoseStamped}
    (hplanar : (planarPose msg.pose).IsPlanar) :
    ∃ first ∈ (delivered ns tr ++ [msg]).head?, planarOf first = originOf s ns msg ∧
      (planarPose first.pose).IsPlanar := by
  unfold originOf
  rw [h.origin]
  cases hdelivered : delivered ns tr with
  | nil => exact ⟨msg, rfl, rfl, hplanar⟩
  | cons first rest =>
    exact ⟨first, rfl, rfl, h.planar first (hdelivered ▸ List.mem_cons_self)⟩

theorem Anchored.step_self (h : Anchored ns tr s) {msg : PoseStamped}
    (hplanar : (planarPose msg.pose).IsPlanar) :
    Anchored ns (tr ++ [((ns, msg), (onPose true s ns msg).2)]) (onPose true s ns msg).1 := by
  obtain ⟨first, hfirst, horigin, hfirstPlanar⟩ := h.exists_first hplanar
  have hdelivered := delivered_concat ns tr ((ns, msg), (onPose true s ns msg).2)
  rw [if_pos rfl] at hdelivered
  refine ⟨?_, fun x hx hxns => ?_, fun m hm => ?_⟩
  · rw [onPose_origin, if_pos rfl, hdelivered, Option.mem_def.mp hfirst, ← horigin]
    rfl
  · rcases List.mem_append.mp hx with hx | hx
    · obtain ⟨first', hfirst', hrelative⟩ := h.relative x hx hxns
      exact ⟨first', mem_head?_delivered_concat hfirst' _, hrelative⟩
    · obtain rfl := List.mem_singleton.mp hx
      refine ⟨first, hdelivered ▸ hfirst, ?_⟩
      obtain ⟨tf, odom, hodom, hunit, hcomp⟩ := onPose_relativeTo s ns hplanar
      refine ⟨tf, odom, hodom, hunit, ?_⟩
      rw [← hcomp, comp_apply_eq_iff hunit, planarPose_apply hfirstPlanar, horigin]
  · rw [hdelivered] at hm
    rcases List.mem_append.mp hm with hm | hm
    · exact h.planar m hm
    · exact List.mem_singleton.mp hm ▸ hplanar

/-- The poses of other rovers do not matter. -/
theorem Anchored.step_other (h : Anchored ns tr s) {ns' : String} (hne : ns' ≠ ns)
    (msg : PoseStamped) :
    Anchored ns (tr ++ [((ns', msg), (onPose true s ns' msg).2)])
      (onPose true s ns' msg).1 := by
  have hdelivered := delivered_concat ns tr ((ns', msg), (onPose true s ns' msg).2)
  rw [if_neg hne] at hdelivered
  refine ⟨?_, fun x hx hxns => ?_, hdelivered ▸ h.planar⟩
  · rw [onPose_origin, if_neg hne.symm, hdelivered]
    exact h.origin
  · rcases List.mem_append.mp hx with hx | hx
    · exact hdelivered ▸ h.relative x hx hxns
    · obtain rfl := List.mem_singleton.mp hx
      exact absurd hxns hne

/-- **Run lemma**: whatever is lost, the rover is anchored to the first pose that arrives. -/
theorem anchored_of_run (h : (groundTruthTF namespaces true).Run (MovesInPlane ns) tr s) :
    Anchored ns tr s := by
  refine h.invariant ⟨rfl, fun _ hx => absurd hx List.not_mem_nil,
    fun _ hx => absurd hx List.not_mem_nil⟩ ?_
  rintro tr s ⟨ns', msg⟩ s' p - ih hplane hstep
  obtain ⟨rfl, rfl⟩ := onPose_of_step hstep
  by_cases hns : ns' = ns
  · subst hns
    exact ih.step_self (hplane rfl)
  · exact ih.step_other hns msg

/-- With the published pose, `map → <ns>/map` makes up the true pose in the plane. -/
def ExactAt (spawn : ℝ × ℝ × ℝ × ℝ) (msg : PoseStamped) (p : Published) : Prop :=
  ∃ tf odom, p.odom = some (tf, odom) ∧
    ((mapToNsMap spawn).comp tf.transform).apply = (planarPose msg.pose).apply

/-- Both are seen from an anchor; it is the same one if it makes up the same pose. -/
theorem exactAt_iff {spawn : ℝ × ℝ × ℝ × ℝ} {origin : Transform ℝ} {msg : PoseStamped}
    {p : Published} (h : RelativeTo origin msg p) :
    ExactAt spawn msg p ↔ origin.apply = (mapToNsMap spawn).apply := by
  obtain ⟨tf, odom, hodom, hunit, hcomp⟩ := h
  constructor
  · rintro ⟨tf', odom', hodom', hcomp'⟩
    obtain ⟨rfl, -⟩ := Prod.mk.inj (Option.some.inj (hodom.symm.trans hodom'))
    exact (comp_apply_eq_iff hunit).mp (hcomp.trans hcomp'.symm)
  · intro horigin
    refine ⟨tf, odom, hodom, ?_⟩
    rw [← hcomp, comp_apply_eq_iff hunit, horigin]

/-- The frames are exact at every delivered pose of the rover. -/
def ExactFrames (ns : String) (spawn : ℝ × ℝ × ℝ × ℝ)
    (tr : List ((String × PoseStamped) × Published)) : Prop :=
  ∀ x ∈ tr, x.1.1 = ns → ExactAt spawn x.1.2 x.2

/-- **When the frames are exact**: in every run, for a rover that moves in the plane, exactly if the
first of its poses that is delivered is the spawn pose. -/
theorem exactFrames_iff (spawn : ℝ × ℝ × ℝ × ℝ)
    (h : (groundTruthTF namespaces true).Run (MovesInPlane ns) tr s) :
    ExactFrames ns spawn tr ↔ ∀ first ∈ (delivered ns tr).head?,
      (planarPose first.pose).apply = (mapToNsMap spawn).apply := by
  have hanchored := anchored_of_run h
  constructor
  · intro hexact first hfirst
    obtain ⟨x, hx, rfl⟩ := List.mem_map.mp (List.mem_of_mem_head? hfirst)
    obtain ⟨hmem, hns⟩ := List.mem_filter.mp hx
    obtain ⟨first', hfirst', hrelative⟩ := hanchored.relative x hmem (of_decide_eq_true hns)
    obtain rfl := Option.mem_unique hfirst hfirst'
    exact (exactAt_iff hrelative).mp (hexact x hmem (of_decide_eq_true hns))
  · intro hspawn x hx hns
    obtain ⟨first, hfirst, hrelative⟩ := hanchored.relative x hx hns
    exact (exactAt_iff hrelative).mpr (hspawn first hfirst)

/-- A message with a pose in the plane. -/
noncomputable def poseAt (sec : ℤ) (x y yaw : ℝ) : PoseStamped := ⟨⟨sec, 0⟩, planar x y yaw⟩

theorem reaches_poseAt (sec : ℤ) (x y yaw : ℝ) :
    (groundTruthTF ["rover_0"] true).Run (MovesInPlane "rover_0")
      [(("rover_0", poseAt sec x y yaw), (onPose true {} "rover_0" (poseAt sec x y yaw)).2)]
      (onPose true {} "rover_0" (poseAt sec x y yaw)).1 :=
  Machine.Run.init.step (fun _ => planar_isPlanar x y yaw)
    (groundTruthTF_step List.mem_cons_self true {} _)

theorem delivered_poseAt (sec : ℤ) (x y yaw : ℝ) (p : Published) :
    delivered "rover_0" [(("rover_0", poseAt sec x y yaw), p)] = [poseAt sec x y yaw] :=
  (delivered_concat _ [] _).trans (if_pos rfl)

/-- A rover that turns on the spot, all of whose poses arrive. -/
theorem exactFrames_iff_turn :
    ∃ tr s, (groundTruthTF ["rover_0"] true).Run (MovesInPlane "rover_0") tr s ∧
      (delivered "rover_0" tr).length = 2 ∧ ExactFrames "rover_0" (1, 2, 0, 3) tr := by
  have hrun := (reaches_poseAt 0 1 2 3).step (e := ("rover_0", poseAt 1 1 2 4))
    (fun _ => planar_isPlanar 1 2 4) (groundTruthTF_step List.mem_cons_self true _ _)
  refine ⟨_, _, hrun, rfl, (exactFrames_iff (1, 2, 0, 3) hrun).mpr ?_⟩
  rintro first hfirst
  obtain rfl : poseAt 0 1 2 3 = first := Option.some.inj hfirst
  rfl

/-- The rover drives one meter from its spawn pose, and the first pose is lost. -/
theorem not_exactFrames :
    ¬ ∀ (namespaces : List String) (ns : String) (spawn : ℝ × ℝ × ℝ × ℝ)
      (motion : List PoseStamped) (tr : List ((String × PoseStamped) × Published)) (s : State),
      (∀ first ∈ motion.head?, (planarPose first.pose).apply = (mapToNsMap spawn).apply) →
      (delivered ns tr).Sublist motion →
      (groundTruthTF namespaces true).Run (MovesInPlane ns) tr s → ExactFrames ns spawn tr := by
  intro h
  have hrun := reaches_poseAt 1 1 0 0
  have hexact := h _ "rover_0" (0, 0, 0, 0) [poseAt 0 0 0 0, poseAt 1 1 0 0] _ _
    (fun first hfirst => by
      obtain rfl : poseAt 0 0 0 0 = first := Option.some.inj hfirst
      rfl)
    (by
      rw [delivered_poseAt]
      exact List.sublist_cons_self _ _) hrun
  have hplanar : (planarPose (poseAt 1 1 0 0).pose).IsPlanar := planar_isPlanar 1 0 0
  have hrelative := onPose_relativeTo {} "rover_0" hplanar
  rw [show originOf {} "rover_0" (poseAt 1 1 0 0) = planarOf (poseAt 1 1 0 0) from rfl] at hrelative
  have horigin := (exactAt_iff hrelative).mp (hexact _ List.mem_cons_self rfl)
  have hx := congrFun (congrFun horigin 0) 0
  unfold mapToNsMap at hx
  rw [planar_apply, planar_apply] at hx
  simp [planarOf, poseAt, planar] at hx

end RoverSwarm.GroundTruth
