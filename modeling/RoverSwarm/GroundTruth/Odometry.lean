import RoverSwarm.GroundTruth

/-!
# GroundTruth.Odometry — poses and velocities of one rover fit together

What the node publishes for a rover depends on the first, the previous and the current pose of this
rover alone (`report`).  The published pose is the current one seen from the first, and the
published velocity carries the previous published pose to the current one.
-/

namespace RoverSwarm.GroundTruth

open RigidMotion RigidMotion.Transform Transition

noncomputable section

/-- `x`, `y` and `yaw` of a message, as a pose. -/
def poseOf (msg : PoseStamped) : Transform ℝ :=
  planar (planarOf msg).1 (planarOf msg).2.1 (planarOf msg).2.2

/-- The seconds between two messages. -/
def elapsed (prev msg : PoseStamped) : ℝ := stampToSec msg.stamp - stampToSec prev.stamp

/-- What was published for the rover, with the poses it was published for. -/
def published (ns : String) (tr : List ((String × PoseStamped) × Published)) :
    List (PoseStamped × Published) :=
  (tr.filter fun x => x.1.1 = ns).map fun x => (x.1.2, x.2)

def odometryOf (x : PoseStamped × Published) : Option (PoseStamped × Odometry) :=
  x.2.odom.map fun o => (x.1, o.2)

/-- The odometry messages among it. -/
def odometry (ns : String) (tr : List ((String × PoseStamped) × Published)) :
    List (PoseStamped × Odometry) :=
  (published ns tr).filterMap odometryOf

/-! ### The report of one pose -/

/-- `xr`, `yr` and `yawr`: the pose of a message seen from the first one. -/
def relative (first msg : PoseStamped) : ℝ × ℝ × ℝ :=
  let (x0, y0, yaw0) := planarOf first
  let (x, y, yaw) := planarOf msg
  (Real.cos yaw0 * (x - x0) + Real.sin yaw0 * (y - y0),
    -Real.sin yaw0 * (x - x0) + Real.cos yaw0 * (y - y0), wrap (yaw - yaw0))

/-- What `_last` holds after a message. -/
def remembered (first msg : PoseStamped) : ℝ × ℝ × ℝ × ℝ :=
  ((relative first msg).1, (relative first msg).2.1, (relative first msg).2.2,
    stampToSec msg.stamp)

def relativePose (first msg : PoseStamped) : Transform ℝ :=
  planar (relative first msg).1 (relative first msg).2.1 (relative first msg).2.2

/-- The odometry for a message, after the messages `first` and `prev` of the rover. -/
def report (ns : String) (first : PoseStamped) (prev : Option PoseStamped) (msg : PoseStamped) :
    Odometry where
  stamp := msg.stamp
  frameId := ns ++ "/odom"
  childFrameId := ns ++ "/base_link"
  pose := relativePose first msg
  twist := twistSince (prev.map (remembered first)) (relative first msg).1
    (relative first msg).2.1 (relative first msg).2.2 (stampToSec msg.stamp)

/-- All that is published for a message. -/
def reportAll (ns : String) (first : PoseStamped) (prev : Option PoseStamped)
    (msg : PoseStamped) : Published where
  gtBaseLink := ⟨"map", msg.stamp, ns ++ "/gt_base_link", msg.pose⟩
  odom := some (⟨ns ++ "/odom", msg.stamp, ns ++ "/base_link", relativePose first msg⟩,
    report ns first prev msg)

/-- The reports of successive messages. -/
def reportsFrom (ns : String) (first : PoseStamped) :
    Option PoseStamped → List PoseStamped → List (PoseStamped × Published)
  | _, [] => []
  | prev, msg :: msgs =>
    (msg, reportAll ns first prev msg) :: reportsFrom ns first (some msg) msgs

/-- The reports of all messages of a rover. -/
def reports (ns : String) : List PoseStamped → List (PoseStamped × Published)
  | [] => []
  | first :: msgs => reportsFrom ns first none (first :: msgs)

end

theorem reportsFrom_concat (ns : String) (first msg : PoseStamped) (prev : Option PoseStamped)
    (msgs : List PoseStamped) : reportsFrom ns first prev (msgs ++ [msg]) =
      reportsFrom ns first prev msgs ++
        [(msg, reportAll ns first (msgs.getLast?.or prev) msg)] := by
  induction msgs generalizing prev with
  | nil => rfl
  | cons m msgs ih =>
    show (m, reportAll ns first prev m) :: reportsFrom ns first (some m) (msgs ++ [msg]) = _
    rw [ih, List.getLast?_cons]
    cases msgs.getLast? <;> rfl

/-- One report more. -/
theorem reports_concat (ns : String) (msg : PoseStamped) (msgs : List PoseStamped) :
    reports ns (msgs ++ [msg]) = reports ns msgs ++
      [(msg, reportAll ns (msgs.head?.getD msg) msgs.getLast? msg)] := by
  cases msgs with
  | nil => rfl
  | cons first msgs =>
    have hconcat := reportsFrom_concat ns first msg none (first :: msgs)
    rw [Option.or_none] at hconcat
    exact hconcat

/-! ### The node publishes the reports -/

section Step

variable {s : State} {ns : String} {msg first : PoseStamped} {prev : Option PoseStamped}

/-- The pose of the rover is reported relative to its first message, and remembered so. -/
theorem publishOdomFor_eq (horigin : originOf s ns msg = planarOf first)
    (hlast : s.last.get? ns = prev.map (remembered first)) :
    (publishOdomFor s ns msg).1.last = s.last.set ns (remembered first msg) ∧
      (publishOdomFor s ns msg).2 = (⟨ns ++ "/odom", msg.stamp, ns ++ "/base_link",
        relativePose first msg⟩, report ns first prev msg) := by
  have hfirst : (s.origin.get? ns).getD (msg.pose.translation 0, msg.pose.translation 1,
      yawFromQuat msg.pose.rotation) = planarOf first := horigin
  unfold publishOdomFor
  simp only [hfirst, hlast, eq_planar]
  exact ⟨rfl, rfl⟩

theorem onPose_eq (horigin : originOf s ns msg = planarOf first)
    (hlast : s.last.get? ns = prev.map (remembered first)) :
    (onPose true s ns msg).1.last = s.last.set ns (remembered first msg) ∧
      (onPose true s ns msg).2 = reportAll ns first prev msg := by
  obtain ⟨hstate, hpublished⟩ := publishOdomFor_eq horigin hlast
  refine ⟨hstate, ?_⟩
  show (⟨_, some (publishOdomFor s ns msg).2⟩ : Published) = _
  rw [hpublished]
  rfl

end Step

/-! ### Runs -/

section Runs

variable {namespaces : List String} {ns : String} {s : State}
  {tr : List ((String × PoseStamped) × Published)}

theorem published_concat (ns : String) (tr : List ((String × PoseStamped) × Published))
    (x : (String × PoseStamped) × Published) : published ns (tr ++ [x]) =
      if x.1.1 = ns then published ns tr ++ [(x.1.2, x.2)] else published ns tr := by
  unfold published
  rw [List.filter_append, List.map_append]
  split_ifs with h
  · simp [h]
  · simp [h]

/-- The node has reported the poses of the rover, and remembers the first and the last of them. -/
structure Reported (ns : String) (tr : List ((String × PoseStamped) × Published)) (s : State) :
    Prop where
  origin : s.origin.get? ns = (delivered ns tr).head?.map planarOf
  last : s.last.get? ns =
    (delivered ns tr).head?.bind fun first => (delivered ns tr).getLast?.map (remembered first)
  published : published ns tr = reports ns (delivered ns tr)

theorem Reported.step_self (h : Reported ns tr s) (msg : PoseStamped) :
    Reported ns (tr ++ [((ns, msg), (onPose true s ns msg).2)]) (onPose true s ns msg).1 := by
  have hdelivered := delivered_concat ns tr ((ns, msg), (onPose true s ns msg).2)
  have hpublished := published_concat ns tr ((ns, msg), (onPose true s ns msg).2)
  rw [if_pos rfl] at hdelivered hpublished
  -- the first pose of all is the origin, or it is this one
  have horigin : originOf s ns msg = planarOf ((delivered ns tr).head?.getD msg) := by
    unfold originOf
    rw [h.origin]
    cases (delivered ns tr).head? <;> rfl
  have hlast : s.last.get? ns =
      (delivered ns tr).getLast?.map (remembered ((delivered ns tr).head?.getD msg)) := by
    rw [h.last]
    cases delivered ns tr <;> rfl
  have hhead : (delivered ns tr ++ [msg]).head? = some ((delivered ns tr).head?.getD msg) := by
    cases delivered ns tr <;> rfl
  obtain ⟨hstate, hreport⟩ := onPose_eq horigin hlast
  refine ⟨?_, ?_, ?_⟩
  · rw [onPose_origin, if_pos rfl, horigin, hdelivered, hhead]
    rfl
  · rw [hstate, Dict.get?_set, if_pos rfl, hdelivered, hhead, List.getLast?_concat]
    rfl
  · rw [hpublished, hdelivered, h.published, hreport]
    exact (reports_concat ns msg _).symm

/-- The pose of another rover changes nothing. -/
theorem Reported.step_other (h : Reported ns tr s) {ns' : String} (hne : ns' ≠ ns)
    (msg : PoseStamped) :
    Reported ns (tr ++ [((ns', msg), (onPose true s ns' msg).2)]) (onPose true s ns' msg).1 := by
  have hdelivered := delivered_concat ns tr ((ns', msg), (onPose true s ns' msg).2)
  have hpublished := published_concat ns tr ((ns', msg), (onPose true s ns' msg).2)
  rw [if_neg hne] at hdelivered hpublished
  refine ⟨?_, ?_, ?_⟩
  · rw [onPose_origin, if_neg hne.symm, hdelivered]
    exact h.origin
  · have hlast : (onPose true s ns' msg).1.last.get? ns = s.last.get? ns :=
      (Dict.get?_set _ _ _ _).trans (if_neg hne.symm)
    rw [hlast, hdelivered]
    exact h.last
  · rw [hpublished, hdelivered]
    exact h.published

/-- **Run lemma**: what is published for a rover are the reports of its poses. -/
theorem reported_of_run (ns : String) (h : (groundTruthTF namespaces true).Reaches tr s) :
    Reported ns tr s := by
  refine h.invariant ⟨rfl, rfl, rfl⟩ ?_
  rintro tr s ⟨ns', msg⟩ s' p - ih - hstep
  obtain ⟨rfl, rfl⟩ := onPose_of_step hstep
  by_cases hns : ns' = ns
  · subst hns
    exact ih.step_self msg
  · exact ih.step_other hns msg

/-- Any sequence of poses of the rovers is a run. -/
theorem exists_reaches (namespaces : List String) (events : List (String × PoseStamped))
    (h : ∀ e ∈ events, e.1 ∈ namespaces) :
    ∃ tr s, (groundTruthTF namespaces true).Reaches tr s ∧ tr.map Prod.fst = events := by
  induction events using List.reverseRecOn with
  | nil => exact ⟨[], _, .init, rfl⟩
  | append_singleton events e ih =>
    obtain ⟨tr, s, hrun, hevents⟩ := ih fun e he => h e (List.mem_append_left _ he)
    have he : e.1 ∈ namespaces := h e (List.mem_append_right _ List.mem_cons_self)
    refine ⟨_, _, hrun.step trivial (groundTruthTF_step he true s e.2), ?_⟩
    rw [List.map_append, hevents]
    rfl

theorem delivered_eq (ns : String) (tr : List ((String × PoseStamped) × Published)) :
    delivered ns tr = ((tr.map Prod.fst).filter fun e => e.1 = ns).map Prod.snd := by
  unfold delivered
  rw [List.filter_map, List.map_map]
  rfl

end Runs

/-! ### The reports fit together -/

section Consistency

variable {ns : String} {first prev msg : PoseStamped}

/-- The published pose, seen from the first one, is the current one. -/
theorem poseOf_comp_relativePose (first msg : PoseStamped) :
    ((poseOf first).comp (relativePose first msg)).apply = (poseOf msg).apply := by
  obtain ⟨hcos, hsin⟩ := cos_sin_wrap ((planarOf msg).2.2 - (planarOf first).2.2)
  exact planar_comp_relative _ _ _ _ _ _ hcos hsin

theorem wrap_zero : wrap 0 = 0 := by
  unfold wrap atan2
  rw [Real.sin_zero, Real.cos_zero]
  exact Complex.arg_one

/-- The first published pose is the identity. -/
theorem relativePose_self (first : PoseStamped) : relativePose first first = ⟨0, 1⟩ := by
  have hrelative : relative first first = (0, 0, 0) := by
    unfold relative
    simp only [sub_self, mul_zero, add_zero, wrap_zero]
  have htranslation : (![0, 0, 0] : Fin 3 → ℝ) = 0 := by
    ext i
    fin_cases i <;> rfl
  have hrotation : (⟨Real.cos (0 / 2), 0, 0, Real.sin (0 / 2)⟩ : Quaternion ℝ) = 1 := by
    ext <;> simp
  unfold relativePose planar
  simp only [hrelative, htranslation, hrotation]
  rfl

/-- Turned by the heading, the velocity is the displacement over the time. -/
theorem rotate_twistSince {x y yaw sec xr yr yawr now : ℝ} (h : 1e-3 < now - sec) :
    (now - sec) • rotate (planar xr yr yawr).rotation
      (twistSince (some (x, y, yaw, sec)) xr yr yawr now).linear = ![xr - x, yr - y, 0] := by
  have hne : now - sec ≠ 0 := by
    have hpos : (0 : ℝ) < 1e-3 := by norm_num
    linarith
  have hunit := Real.cos_sq_add_sin_sq yawr
  have hx := mul_div_cancel₀ (xr - x) hne
  have hy := mul_div_cancel₀ (yr - y) hne
  have hlinear : (twistSince (some (x, y, yaw, sec)) xr yr yawr now).linear =
      ![Real.cos yawr * ((xr - x) / (now - sec)) + Real.sin yawr * ((yr - y) / (now - sec)),
        -Real.sin yawr * ((xr - x) / (now - sec)) + Real.cos yawr * ((yr - y) / (now - sec)),
        0] := by
    show (if now - sec > 1e-3 then _ else _ : Twist).linear = _
    rw [if_pos h]
  rw [planar_rotate, hlinear]
  ext i
  fin_cases i
  · simp
    linear_combination hx + (now - sec) * ((xr - x) / (now - sec)) * hunit
  · simp
    linear_combination hy + (now - sec) * ((yr - y) / (now - sec)) * hunit
  · simp

/-- The published velocity carries the previous published pose to the current one. -/
theorem report_displacement (ns : String) {first prev msg : PoseStamped}
    (h : 1e-3 < elapsed prev msg) :
    elapsed prev msg • rotate (report ns first (some prev) msg).pose.rotation
        (report ns first (some prev) msg).twist.linear =
      (relativePose first msg).translation - (relativePose first prev).translation := by
  have htranslation : (relativePose first msg).translation - (relativePose first prev).translation =
      ![(relative first msg).1 - (relative first prev).1,
        (relative first msg).2.1 - (relative first prev).2.1, 0] := by
    unfold relativePose planar
    ext i
    fin_cases i
    · rfl
    · rfl
    · exact sub_zero 0
  rw [htranslation]
  exact rotate_twistSince h

/-- The velocity of `x` carries the pose of `prev` to the pose of `x`. -/
def Carries (prev x : PoseStamped × Odometry) : Prop :=
  1e-3 < elapsed prev.1 x.1 → elapsed prev.1 x.1 • rotate x.2.pose.rotation x.2.twist.linear =
    x.2.pose.translation - prev.2.pose.translation

theorem isChain_reportsFrom (ns : String) (first msg : PoseStamped) (prev : Option PoseStamped)
    (msgs : List PoseStamped) :
    ((reportsFrom ns first prev (msg :: msgs)).filterMap odometryOf).IsChain Carries := by
  induction msgs generalizing msg prev with
  | nil => exact List.isChain_singleton _
  | cons next msgs ih =>
    exact List.isChain_cons_cons.mpr ⟨fun h => report_displacement ns h, ih next (some msg)⟩

theorem map_fst_reportsFrom (ns : String) (first : PoseStamped) (prev : Option PoseStamped)
    (msgs : List PoseStamped) :
    ((reportsFrom ns first prev msgs).filterMap odometryOf).map Prod.fst = msgs := by
  induction msgs generalizing prev with
  | nil => rfl
  | cons msg msgs ih => exact congrArg (msg :: ·) (ih (some msg))

theorem pose_of_mem_reportsFrom {ns : String} {first : PoseStamped} {prev : Option PoseStamped}
    {msgs : List PoseStamped} {x : PoseStamped × Odometry}
    (h : x ∈ (reportsFrom ns first prev msgs).filterMap odometryOf) :
    x.2.pose = relativePose first x.1 := by
  induction msgs generalizing prev with
  | nil => exact absurd h List.not_mem_nil
  | cons msg msgs ih =>
    rcases List.mem_cons.mp h with rfl | h
    · rfl
    · exact ih h

theorem map_fst_reports (ns : String) (msgs : List PoseStamped) :
    ((reports ns msgs).filterMap odometryOf).map Prod.fst = msgs := by
  cases msgs with
  | nil => rfl
  | cons first msgs => exact map_fst_reportsFrom ns first none (first :: msgs)

theorem isChain_reports (ns : String) (msgs : List PoseStamped) :
    ((reports ns msgs).filterMap odometryOf).IsChain Carries := by
  cases msgs with
  | nil => exact List.isChain_nil
  | cons first msgs => exact isChain_reportsFrom ns first first none msgs

/-- All poses are reported relative to the first one. -/
theorem pose_of_mem_reports {ns : String} {msgs : List PoseStamped}
    {first x : PoseStamped × Odometry}
    (hfirst : first ∈ ((reports ns msgs).filterMap odometryOf).head?)
    (hx : x ∈ (reports ns msgs).filterMap odometryOf) : x.2.pose = relativePose first.1 x.1 := by
  cases msgs with
  | nil => exact absurd hx List.not_mem_nil
  | cons msg msgs =>
    obtain rfl : (msg, report ns msg none msg) = first := Option.some.inj hfirst
    exact pose_of_mem_reportsFrom hx

end Consistency

/-- **Consistent odometry**: in every run there is an odometry message for every delivered pose of
the rover.  The first published pose is the identity, the first pose and a published one make up the
current pose, a published velocity carries the previous published pose to the current one, and in a
run with the same poses of this rover the same is published for it. -/
theorem odometry_consistent {namespaces namespaces' : List String} (ns : String)
    {tr tr' : List ((String × PoseStamped) × Published)} {s s' : State}
    (h : (groundTruthTF namespaces true).Reaches tr s)
    (h' : (groundTruthTF namespaces' true).Reaches tr' s') :
    (odometry ns tr).map Prod.fst = delivered ns tr ∧
      (∀ first ∈ (odometry ns tr).head?, first.2.pose = ⟨0, 1⟩ ∧ ∀ x ∈ odometry ns tr,
        ((poseOf first.1).comp x.2.pose).apply = (poseOf x.1).apply) ∧
      (odometry ns tr).IsChain Carries ∧
      (delivered ns tr = delivered ns tr' → published ns tr = published ns tr') := by
  have hreported := (reported_of_run ns h).published
  have hreported' := (reported_of_run ns h').published
  have hodometry : odometry ns tr = (reports ns (delivered ns tr)).filterMap odometryOf :=
    congrArg (List.filterMap odometryOf) hreported
  refine ⟨?_, fun first hfirst => ?_, ?_, fun hsame => ?_⟩
  · rw [hodometry]
    exact map_fst_reports ns _
  · rw [hodometry] at hfirst ⊢
    constructor
    · rw [pose_of_mem_reports hfirst (List.mem_of_mem_head? hfirst)]
      exact relativePose_self first.1
    · intro x hx
      rw [pose_of_mem_reports hfirst hx]
      exact poseOf_comp_relativePose first.1 x.1
  · rw [hodometry]
    exact isChain_reports ns _
  · rw [hreported, hreported', hsame]

/-- Two rovers in turn, and the first of them alone. -/
theorem odometry_consistent_two :
    ∃ tr s tr' s', (groundTruthTF ["rover_0", "rover_1"] true).Reaches tr s ∧
      (groundTruthTF ["rover_0"] true).Reaches tr' s' ∧
      (odometry "rover_0" tr).map Prod.fst = [poseAt 0 1 2 3, poseAt 1 2 2 4] ∧
      published "rover_0" tr = published "rover_0" tr' := by
  obtain ⟨tr, s, hrun, htr⟩ := exists_reaches ["rover_0", "rover_1"]
    [("rover_0", poseAt 0 1 2 3), ("rover_1", poseAt 0 5 5 1), ("rover_0", poseAt 1 2 2 4)]
    (by simp)
  obtain ⟨tr', s', hrun', htr'⟩ := exists_reaches ["rover_0"]
    [("rover_0", poseAt 0 1 2 3), ("rover_0", poseAt 1 2 2 4)] (by simp)
  have hdelivered : delivered "rover_0" tr = [poseAt 0 1 2 3, poseAt 1 2 2 4] := by
    rw [delivered_eq, htr]
    rfl
  have hdelivered' : delivered "rover_0" tr' = [poseAt 0 1 2 3, poseAt 1 2 2 4] := by
    rw [delivered_eq, htr']
    rfl
  obtain ⟨hposes, -, -, hsame⟩ := odometry_consistent "rover_0" hrun hrun'
  exact ⟨tr, s, tr', s', hrun, hrun', hposes.trans hdelivered,
    hsame (hdelivered.trans hdelivered'.symm)⟩

end RoverSwarm.GroundTruth
