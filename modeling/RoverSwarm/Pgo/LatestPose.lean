import RoverSwarm.Pgo.StateMachine

/-!
# Pgo.LatestPose — the odometry pose that a result is composed with

A result of the optimization ends with the keyframe that was the latest when this robot's graph was
sent or aggregated for it.  The node does not read the odometry pose of that keyframe: it keeps the
pose of the latest keyframe whenever a graph is sent or aggregated, and takes what it has kept when
a result comes.  The two agree as long as every result belongs to the last graph; a result that
comes after the graph of another round is composed with the odometry of that round.
-/

namespace RoverSwarm.Pgo

open Transition

variable {P : Type*} {R : Params} {s s' : State P} {saved : Option LabeledSymbol}

/-! ### The last graph -/

/-- The callbacks that keep the latest odometry pose: they send the graph or aggregate it. -/
def saves (s : State P) : Event P → Bool
  | .getPoseGraph _ => true
  | .optimizationLoop _ =>
    s.odometryPoseEstimates.size ≠ 0 && s.optimizerState = .startOptimization
  | _ => false

def latestKeyframe (s : State P) : Option LabeledSymbol :=
  if s.latestLocalSymbol ≠ {} then some s.latestLocalSymbol else none

/-- The latest keyframe at the last graph, after the event. -/
def savedKeyframe (s : State P) (e : Event P) (saved : Option LabeledSymbol) :
    Option LabeledSymbol :=
  if saves s e then latestKeyframe s else saved

/-- The node beside the latest keyframe at its last graph. -/
def tracked (P : Type*) [Mul P] [Inv P] [One P] (R : Params) :
    Machine (State P × Option LabeledSymbol) (Event P) (List (Action P)) :=
  (pgo P R).withHistory none savedKeyframe

/-- What is kept are the odometry poses of the latest keyframe, and of the latest keyframe at the
last graph. -/
structure Tracks (s : State P) (saved : Option LabeledSymbol) : Prop where
  latest : ∀ key ∈ latestKeyframe s,
    s.odometryPoseEstimates.get? key = some s.latestLocalPose
  saved : ∀ key ∈ saved,
    s.odometryPoseEstimates.get? key = some s.tentativeLocalPoseAtLatestOptimization

/-- The last keyframe of the estimates is the one whose odometry pose the next pose is composed
with. -/
structure Anchored (s : State P) (key : LabeledSymbol) (pose odom : P) : Prop where
  last : s.currentPoseEstimates.entries.getLast? = some (key, pose)
  odometry : s.odometryPoseEstimates.get? key = some odom
  localPose : s.localPoseAtLatestOptimization = odom
  optimized : s.latestOptimizedPose = pose

/-! ### The steps -/

/-- The poses but the tentative one stay the same. -/
structure SamePoses (s s' : State P) : Prop where
  odometry : s'.odometryPoseEstimates = s.odometryPoseEstimates
  current : s'.currentPoseEstimates = s.currentPoseEstimates
  latest : s'.latestLocalPose = s.latestLocalPose
  symbol : s'.latestLocalSymbol = s.latestLocalSymbol
  localPose : s'.localPoseAtLatestOptimization = s.localPoseAtLatestOptimization
  optimized : s'.latestOptimizedPose = s.latestOptimizedPose

/-- What a step leaves of the tentative pose. -/
def tentativeAfter (s : State P) (e : Event P) : P :=
  if saves s e then s.latestLocalPose else s.tentativeLocalPoseAtLatestOptimization

theorem Tracks.of_samePoses {e : Event P} (h : Tracks s saved) (hs : SamePoses s s')
    (ht : s'.tentativeLocalPoseAtLatestOptimization = tentativeAfter s e) :
    Tracks s' (savedKeyframe s e saved) := by
  obtain ⟨hodo, -, hlatest, hsymbol, -, -⟩ := hs
  refine ⟨fun key hkey => ?_, fun key hkey => ?_⟩
  · have hkey : key ∈ latestKeyframe s := by
      unfold latestKeyframe at hkey ⊢
      rwa [hsymbol] at hkey
    rw [hodo, hlatest]
    exact h.latest key hkey
  · rw [hodo, ht]
    unfold savedKeyframe at hkey
    unfold tentativeAfter
    split_ifs at hkey ⊢ with hsaves
    · exact h.latest key hkey
    · exact h.saved key hkey

theorem Anchored.of_samePoses {key : LabeledSymbol} {pose odom : P} (h : Anchored s key pose odom)
    (hs : SamePoses s s') : Anchored s' key pose odom := by
  obtain ⟨hodo, hcurrent, -, -, hlocal, hoptimized⟩ := hs
  exact ⟨hcurrent ▸ h.last, hodo ▸ h.odometry, hlocal.trans h.localPose,
    hoptimized.trans h.optimized⟩

theorem optimizationLoopCallback_tentative {env : LoopEnv P} {o : List (Action P)}
    (h : optimizationLoopCallback R s env = some (s', o)) :
    s'.tentativeLocalPoseAtLatestOptimization = tentativeAfter s (.optimizationLoop env) := by
  obtain ⟨_, _, hturn, -⟩ := optimizationLoopCallback_turn h
  unfold tentativeAfter saves
  cases hturn with
  | request _ hst =>
    rw [if_neg (by simp [hst])]
    rfl
  | alone hst => rw [if_neg (by simp [hst])]
  | aggregate _ _ hsize hst => rw [if_pos (by simp [hst, hsize])]
  | launch _ _ hsize hst => rw [if_pos (by simp [hst, hsize])]
  | collect _ _ _ _ hst => rw [if_neg (by simp [hst])]
  | timeout hst => rw [if_neg (by simp [hst])]
  | stay hst =>
    rw [if_neg]
    intro hsaves
    obtain ⟨hsize, hstart⟩ := (Bool.and_eq_true _ _).mp hsaves
    exact hst (of_decide_eq_true hsize) (of_decide_eq_true hstart)

/-- Odometry adds its pose as the latest one and keeps those that are there. -/
theorem odometryCallback_poses [Mul P] [Inv P] {msg : KeyframeOdom P}
    (h : odometryCallback R s msg = some s') :
    (∀ key odom, s.odometryPoseEstimates.get? key = some odom →
      s'.odometryPoseEstimates.get? key = some odom) ∧
    s'.odometryPoseEstimates.get? s'.latestLocalSymbol = some s'.latestLocalPose ∧
    insertFirst R s msg = some s'.currentPoseEstimates ∧
    s'.tentativeLocalPoseAtLatestOptimization = s.tentativeLocalPoseAtLatestOptimization ∧
    s'.localPoseAtLatestOptimization = s.localPoseAtLatestOptimization ∧
    s'.latestOptimizedPose = s.latestOptimizedPose := by
  simp only [odometryCallback, Option.bind_eq_bind, Option.bind_eq_some_iff,
    Option.some.injEq] at h
  obtain ⟨odometry, hodo, estimates, hest, rfl⟩ := h
  obtain ⟨hnew, rfl⟩ := SortedDict.insertNew_eq_some.mp hodo
  refine ⟨fun key odom hkey => ?_, ?_, hest, rfl, rfl, rfl⟩
  · have hne : key ≠ symbol R.robotId msg.id := by
      rintro rfl
      exact absurd hnew (by simp [SortedDict.contains, hkey])
    rw [SortedDict.get?_set, if_neg hne]
    exact hkey
  · rw [SortedDict.get?_set, if_pos rfl]

/-! ### Conditions on the steps -/

/-- The keyframes of the odometry come in increasing order. -/
def OrderedStep (s : State P) : Event P → Prop
  | .odometry msg => ∀ e ∈ s.odometryPoseEstimates.entries, e.1.index < msg.id
  | _ => True

instance (s : State P) : DecidablePred (OrderedStep s)
  | .odometry msg =>
    inferInstanceAs (Decidable (∀ e ∈ s.odometryPoseEstimates.entries, e.1.index < msg.id))
  | .intraRobotLoopClosure _ | .interRobotLoopClosure _ | .currentNeighbors _ | .getPoseGraph _
  | .poseGraph _ | .optimizedEstimates _ _ | .optimization _ | .optimizationLoop _ | .heartbeat _
  | .broadcastTf => isTrue trivial

/-- The last keyframe in the estimates of a result. -/
def lastKeyframe (msg : OptimizationResult P) : Option LabeledSymbol :=
  (valuesMsgToGtsam msg.estimates).bind SortedDict.lastKey?

/-- A result with estimates ends with the latest keyframe at the last graph. -/
def OfLastGraph (saved : Option LabeledSymbol) : Event P → Prop
  | .optimizedEstimates msg _ =>
    msg.estimates = [] ∨ saved.isSome = true ∧ lastKeyframe msg = saved
  | _ => True

instance [DecidableEq P] (saved : Option LabeledSymbol) :
    DecidablePred (OfLastGraph (P := P) saved)
  | .optimizedEstimates msg _ => inferInstanceAs
    (Decidable (msg.estimates = [] ∨ saved.isSome = true ∧ lastKeyframe msg = saved))
  | .odometry _ | .intraRobotLoopClosure _ | .interRobotLoopClosure _ | .currentNeighbors _
  | .getPoseGraph _ | .poseGraph _ | .optimization _ | .optimizationLoop _ | .heartbeat _
  | .broadcastTf => isTrue trivial

/-! ### The anchor -/

/-- Odometry keeps the anchor, as it never comes with the first keyframe again. -/
theorem Anchored.odometry_step [Mul P] [Inv P] {key : LabeledSymbol} {pose odom : P}
    {msg : KeyframeOdom P} (h : Anchored s key pose odom) (hord : OrderedStep s (.odometry msg))
    (hs : odometryCallback R s msg = some s') : Anchored s' key pose odom := by
  obtain ⟨hkeep, -, hfirst, -, hlocal, hoptimized⟩ := odometryCallback_poses hs
  have hpos : msg.id ≠ 0 := by
    have hcontains : s.odometryPoseEstimates.contains key = true := by
      simp [SortedDict.contains, h.odometry]
    obtain ⟨e, he, -⟩ := SortedDict.contains_iff_entries.mp hcontains
    have hlt := hord e he
    omega
  rw [insertFirst, if_neg hpos] at hfirst
  exact ⟨Option.some.inj hfirst ▸ h.last, hkeep key odom h.odometry, hlocal.trans h.localPose,
    hoptimized.trans h.optimized⟩

/-- A result that ends with the latest keyframe at the last graph is composed with its odometry. -/
theorem anchored_of_ofLastGraph [One P] {msg : OptimizationResult P} {b : Bool}
    {o : List (Action P)} (h : Tracks s saved)
    (hlast : OfLastGraph saved (.optimizedEstimates msg b)) (hne : msg.estimates ≠ [])
    (hs : optimizedEstimatesCallback R s msg b = some (s', o)) :
    ∃ key pose odom, Anchored s' key pose odom := by
  rcases hlast with hnil | ⟨hsome, hlast⟩
  · exact absurd hnil hne
  · obtain ⟨key, rfl⟩ := Option.isSome_iff_exists.mp hsome
    have hodo := h.saved key rfl
    rcases optimizedEstimatesCallback_cases hs with ⟨hskip, -⟩ |
      ⟨-, -, -, estimates, last, hest, hget, heq⟩
    · rcases hskip with hzero | hnil
      · have hempty := List.length_eq_zero_iff.mp hzero
        simp [SortedDict.get?, hempty] at hodo
      · exact absurd hnil hne
    · have hkey : last.1 = key := by
        simpa [lastKeyframe, hest, SortedDict.lastKey?, hget] using hlast
      rw [heq]
      exact ⟨key, last.2, _, hkey ▸ hget, hodo, rfl, rfl⟩

/-- What is published is the anchor's pose and the motion of the odometry since. -/
theorem Anchored.broadcast [Mul P] [Inv P] {key : LabeledSymbol} {pose odom : P}
    (h : Anchored s key pose odom) (frameId : String) (p : P) :
    .currentPoseEstimate frameId p ∈ broadcastTfCallback R s ↔
      frameId = mapFrameId s.originRobotId ∧ p = pose * (odom⁻¹ * s.latestLocalPose) := by
  unfold broadcastTfCallback
  rw [h.localPose, h.optimized]
  split_ifs <;> simp

/-! ### Runs -/

/-- A result with estimates has been handled. -/
def resultHandled (tr : List (Event P × List (Action P))) : Bool :=
  tr.any fun x => match x.1 with
    | .optimizedEstimates msg _ => !msg.estimates.isEmpty
    | _ => false

theorem resultHandled_concat (tr : List (Event P × List (Action P)))
    (x : Event P × List (Action P)) :
    resultHandled (tr ++ [x]) = (resultHandled tr || resultHandled [x]) := List.any_append

variable [Mul P] [Inv P] [One P]

/-- What the callbacks write that neither add odometry nor accept a result. -/
theorem step_samePoses {e : Event P} {o : List (Action P)} (hodo : ∀ msg, e ≠ .odometry msg)
    (hres : ∀ msg b, e ≠ .optimizedEstimates msg b) (h : s.step R e = some (s', o)) :
    SamePoses s s' ∧ s'.tentativeLocalPoseAtLatestOptimization = tentativeAfter s e := by
  cases e with
  | odometry msg => exact absurd rfl (hodo msg)
  | optimizedEstimates msg b => exact absurd rfl (hres msg b)
  | intraRobotLoopClosure msg =>
    obtain ⟨rfl, -⟩ := Prod.mk.inj (Option.some.inj h)
    obtain ⟨_, heq⟩ := intraRobotLoopClosureCallback_frame R s msg
    rw [heq]
    exact ⟨⟨rfl, rfl, rfl, rfl, rfl, rfl⟩, rfl⟩
  | interRobotLoopClosure msg =>
    obtain ⟨rfl, -⟩ := Prod.mk.inj (Option.some.inj h)
    obtain ⟨_, _, heq⟩ := interRobotLoopClosureCallback_frame R s msg
    rw [heq]
    exact ⟨⟨rfl, rfl, rfl, rfl, rfl, rfl⟩, rfl⟩
  | currentNeighbors msg =>
    obtain ⟨s₁, h₁, heq⟩ := Option.map_eq_some_iff.mp h
    obtain ⟨rfl, -⟩ := Prod.mk.inj heq
    obtain ⟨b, -, rfl⟩ := Option.map_eq_some_iff.mp h₁
    exact ⟨⟨rfl, rfl, rfl, rfl, rfl, rfl⟩, rfl⟩
  | poseGraph msg =>
    obtain ⟨s₁, h₁, heq⟩ := Option.map_eq_some_iff.mp h
    obtain ⟨rfl, -⟩ := Prod.mk.inj heq
    obtain ⟨_, _, _, _, _, rfl⟩ := poseGraphCallback_frame h₁
    exact ⟨⟨rfl, rfl, rfl, rfl, rfl, rfl⟩, rfl⟩
  | optimization now =>
    obtain ⟨_, _, _, _, _, _, heq⟩ := optimizationCallback_frame R s now
    obtain rfl : (optimizationCallback R s now).1 = s' := congrArg Prod.fst (Option.some.inj h)
    rw [heq]
    exact ⟨⟨rfl, rfl, rfl, rfl, rfl, rfl⟩, rfl⟩
  | optimizationLoop env =>
    have ht := optimizationLoopCallback_tentative h
    obtain ⟨_, _, _, _, _, _, _, _, rfl⟩ := optimizationLoopCallback_frame h
    exact ⟨⟨rfl, rfl, rfl, rfl, rfl, rfl⟩, ht⟩
  | getPoseGraph _ | heartbeat _ | broadcastTf =>
    obtain ⟨rfl, -⟩ := Prod.mk.inj (Option.some.inj h)
    exact ⟨⟨rfl, rfl, rfl, rfl, rfl, rfl⟩, rfl⟩

/-- **Step lemma**. -/
theorem Tracks.step {e : Event P} {o : List (Action P)} (h : Tracks s saved)
    (hs : s.step R e = some (s', o)) : Tracks s' (savedKeyframe s e saved) := by
  cases e with
  | odometry msg =>
    obtain ⟨s₁, h₁, heq⟩ := Option.map_eq_some_iff.mp hs
    obtain ⟨rfl, -⟩ := Prod.mk.inj heq
    obtain ⟨hkeep, hlatest, -, ht, -, -⟩ := odometryCallback_poses h₁
    refine ⟨fun key hkey => ?_, fun key hkey => ?_⟩
    · unfold latestKeyframe at hkey
      split_ifs at hkey
      · obtain rfl := Option.some.inj hkey
        exact hlatest
      · exact absurd hkey (by simp)
    · rw [ht]
      exact hkeep key _ (h.saved key hkey)
  | optimizedEstimates msg b =>
    rcases optimizedEstimatesCallback_cases hs with ⟨-, rfl, -⟩ | ⟨-, -, -, _, _, -, -, heq⟩
    · exact h
    · rw [heq]
      exact ⟨h.latest, h.saved⟩
  | _ =>
    obtain ⟨hsame, ht⟩ := step_samePoses (by simp) (by simp) hs
    exact h.of_samePoses hsame ht

/-- **Run lemma**: in every run the node keeps the odometry pose of the latest keyframe at the
last graph. -/
theorem tracks_of_reaches {tr : List (Event P × List (Action P))}
    {p : State P × Option LabeledSymbol} (h : (tracked P R).Reaches tr p) : Tracks p.1 p.2 := by
  refine h.invariant (I := fun _ p => Tracks p.1 p.2) ⟨?_, ?_⟩ fun _ p e p' _ _ ih _ hs => ?_
  · simp [tracked, Machine.withHistory, pgo, initialState, latestKeyframe]
  · simp [tracked, Machine.withHistory]
  · obtain ⟨hstep, heq⟩ := Machine.withHistory_step.mp hs
    rw [heq]
    exact ih.step hstep

/-- Every run of the node can be tracked, and what it keeps is known. -/
theorem exists_tracks {tr : List (Event P × List (Action P))} (h : (pgo P R).Reaches tr s) :
    ∃ saved, (tracked P R).Reaches tr (s, saved) ∧ Tracks s saved := by
  obtain ⟨saved, hr⟩ : ∃ saved, (tracked P R).Reaches tr (s, saved) := h.exists_withHistory
  exact ⟨saved, hr, tracks_of_reaches hr⟩

/-- **Step lemma**: once a result has been handled there is an anchor. -/
theorem anchored_step {tr : List (Event P × List (Action P))} {e : Event P}
    {o : List (Action P)} (ht : Tracks s saved)
    (h : resultHandled tr = true → ∃ key pose odom, Anchored s key pose odom)
    (hord : OrderedStep s e) (hlast : OfLastGraph saved e) (hs : s.step R e = some (s', o))
    (hres : resultHandled (tr ++ [(e, o)]) = true) : ∃ key pose odom, Anchored s' key pose odom := by
  rw [resultHandled_concat, Bool.or_eq_true] at hres
  cases e with
  | odometry msg =>
    obtain ⟨s₁, h₁, heq⟩ := Option.map_eq_some_iff.mp hs
    obtain ⟨rfl, -⟩ := Prod.mk.inj heq
    obtain ⟨key, pose, odom, hanchor⟩ := h (hres.resolve_right (by simp [resultHandled]))
    exact ⟨key, pose, odom, hanchor.odometry_step hord h₁⟩
  | optimizedEstimates msg b =>
    by_cases hne : msg.estimates = []
    · obtain ⟨key, pose, odom, hanchor⟩ := h (hres.resolve_right (by simp [resultHandled, hne]))
      have hsame : s = s' := by
        have hs : optimizedEstimatesCallback R s msg b = some (s', o) := hs
        rw [optimizedEstimatesCallback, if_pos (Or.inr hne)] at hs
        exact (Prod.mk.inj (Option.some.inj hs)).1
      exact ⟨key, pose, odom, hsame ▸ hanchor⟩
    · exact anchored_of_ofLastGraph ht hlast hne hs
  | _ =>
    obtain ⟨key, pose, odom, hanchor⟩ := h (hres.resolve_right (by simp [resultHandled]))
    exact ⟨key, pose, odom, hanchor.of_samePoses (step_samePoses (by simp) (by simp) hs).1⟩

/-- **The published pose composes the motion since the last keyframe of the estimates**, in every
run where each result ends with the latest keyframe at the last graph. -/
theorem publishes_anchored {tr : List (Event P × List (Action P))}
    (h : (tracked P R).Run (fun p e => OrderedStep p.1 e ∧ OfLastGraph p.2 e) tr (s, saved))
    (hres : resultHandled tr = true) :
    ∃ key pose odom, Anchored s key pose odom ∧
      ∀ frameId p, .currentPoseEstimate frameId p ∈ broadcastTfCallback R s ↔
        frameId = mapFrameId s.originRobotId ∧ p = pose * (odom⁻¹ * s.latestLocalPose) := by
  have hanchor : resultHandled tr = true → ∃ key pose odom, Anchored s key pose odom := by
    refine h.invariant (I := fun tr p => resultHandled tr = true →
      ∃ key pose odom, Anchored p.1 key pose odom) (fun hnil => absurd hnil (by simp [resultHandled]))
      fun tr p e p' o hr ih hc hs => ?_
    exact anchored_step (tracks_of_reaches hr.reaches) ih hc.1 hc.2 (Machine.withHistory_step.mp hs).1
  obtain ⟨key, pose, odom, hkey⟩ := hanchor hres
  exact ⟨key, pose, odom, hkey, hkey.broadcast⟩

/-! ### Two rounds -/

/-- A robot that two optimizers ask for its graph. -/
def robot2 : Params := { robotId := 2, maxNbRobots := 3, maxWaitingTime := 60 }

/-- Robot 0 asks for the graph, robot 2 moves on to keyframe 1, and the result of robot 0 ends with
keyframe 0.  Before it comes, the events `between`. -/
def resultAfter (between : List (Event (Multiplicative ℤ))) : List (Event (Multiplicative ℤ)) :=
  [.odometry ⟨0, 1⟩, .getPoseGraph [2, 0], .odometry ⟨1, Multiplicative.ofAdd 5⟩] ++ between ++
    [.optimizedEstimates { success := true, estimates := [⟨⟨2, 0⟩, 1⟩] } false]

theorem publishes_anchored_one_round :
    ∃ tr s key pose odom, (pgo (Multiplicative ℤ) robot2).Reaches tr s ∧
      resultHandled tr = true ∧ Anchored s key pose odom := by
  obtain ⟨tr, ⟨s, saved⟩, hr, hres⟩ :=
    Machine.exists_run_of_exec (M := tracked (Multiplicative ℤ) robot2)
      (C := fun p e => OrderedStep p.1 e ∧ OfLastGraph p.2 e) (resultAfter [])
      (p := fun r => resultHandled r.1 = true) (by decide +kernel) (by decide +kernel)
  obtain ⟨key, pose, odom, hanchor, -⟩ := publishes_anchored hr hres
  exact ⟨tr, s, key, pose, odom, hr.reaches.forget, hres, hanchor⟩

/-- Robot 1 asks for the graph before the result of robot 0 comes. -/
theorem not_publishes_anchored :
    ¬ ∀ tr s, (pgo (Multiplicative ℤ) robot2).Run OrderedStep tr s → resultHandled tr = true →
      ∃ key pose odom, Anchored s key pose odom := by
  intro h
  obtain ⟨tr, s, hr, hres, hodo, hlocal⟩ :=
    Machine.exists_run_of_exec (M := pgo (Multiplicative ℤ) robot2) (C := OrderedStep)
      (resultAfter [.getPoseGraph [2, 1]])
      (p := fun r => resultHandled r.1 = true ∧
        (r.2.currentPoseEstimates.entries.getLast?.bind fun e =>
          r.2.odometryPoseEstimates.get? e.1) = some 1 ∧
        r.2.localPoseAtLatestOptimization ≠ 1)
      (by decide +kernel) (by decide +kernel)
  obtain ⟨key, pose, odom, hlast, hget, heq, -⟩ := h tr s hr hres
  rw [hlast, Option.bind_some, hget] at hodo
  exact hlocal (heq.trans (Option.some.inj hodo))

end RoverSwarm.Pgo
