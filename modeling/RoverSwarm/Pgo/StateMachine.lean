import RoverSwarm.Lib.Walk
import RoverSwarm.Pgo.Node
import Mathlib.Algebra.Ring.Int.Defs
import Mathlib.Algebra.Group.TypeTags.Basic

/-!
# Pgo.StateMachine — the outstanding optimization over runs of the node

`Effect` says once what any step does to the optimization: it launches it, collects its result,
replaces the neighbors, accepts the result of another robot, or leaves it alone.  `LoopTurn` says
once what a turn of the loop can do at all.  The two facts of this file follow from the effects.

* A launched optimization keeps the state `OPTIMIZATION` until its result is collected exactly in
  the runs where no list of neighbors is handled in that state: `current_neighbors_callback`
  writes the state without looking at it.
* A published result names the origin its optimization was launched with as long as no result
  with another origin is accepted meanwhile: the origin is read when the result is collected.
-/

namespace RoverSwarm.Pgo

open Transition

variable {P : Type*} {R : Params} {s s' : State P}

/-! ### What a step does to the optimization -/

/-- Launching, collecting and sharing. -/
def Action.isOptimization : Action P → Bool
  | .launch | .collect _ | .optimizedEstimates _ _ => true
  | _ => false

/-- No action of the optimization. -/
def Quiet (o : List (Action P)) : Prop := ∀ a ∈ o, a.isOptimization = false

theorem quiet_nil : Quiet ([] : List (Action P)) := fun _ h => absurd h List.not_mem_nil

theorem quiet_singleton {a : Action P} (h : a.isOptimization = false) : Quiet [a] := by
  intro b hb
  rwa [List.mem_singleton.mp hb]

theorem Quiet.append {o o' : List (Action P)} (h : Quiet o) (h' : Quiet o') : Quiet (o ++ o') :=
  fun a ha => (List.mem_append.mp ha).elim (h a) (h' a)

/-- The members of the state that the optimization does not touch in a step. -/
structure SameJob (s s' : State P) : Prop where
  result : s'.optimizationResult = s.optimizationResult
  origin : s'.originRobotId = s.originRobotId

/-- The effect of a step on the optimization. -/
inductive Effect (s s' : State P) (o : List (Action P)) : Event P → Prop
  | neighbors (msg : RobotIdsAndOrigin) : SameJob s s' → s'.optimizerState ≠ .optimization →
      Quiet o → Effect s s' o (.currentNeighbors msg)
  | accept (msg : OptimizationResult P) (b : Bool) : s.odometryPoseEstimates.size ≠ 0 →
      msg.estimates ≠ [] → s'.optimizationResult = s.optimizationResult →
      s'.originRobotId = msg.originRobotId → s'.optimizerState = s.optimizerState → Quiet o →
      Effect s s' o (.optimizedEstimates msg b)
  | launch (env : LoopEnv P) (job : Job P) : s.optimizerState = .startOptimization →
      s'.optimizationResult = some job → job.origin = s.originRobotId →
      s'.originRobotId = s.originRobotId → s'.optimizerState = .optimization → .launch ∈ o →
      (∀ a ∈ o, a = .launch ∨ a.isOptimization = false) → Effect s s' o (.optimizationLoop env)
  | collect (env : LoopEnv P) (job : Job P) (result : Values P) :
      s.optimizerState = .optimization → s.optimizationResult = some job →
      s'.optimizationResult = none → s'.originRobotId = s.originRobotId → .collect result ∈ o →
      (∀ dest msg, .optimizedEstimates dest msg ∈ o → msg.originRobotId = s.originRobotId) →
      .launch ∉ o → Effect s s' o (.optimizationLoop env)
  | other (e : Event P) : SameJob s s' →
      (s.optimizerState = .optimization → s'.optimizerState = .optimization) → Quiet o →
      Effect s s' o e

/-- Actions that are not of the optimization can be added to a step. -/
theorem Effect.append_quiet {o o' : List (Action P)} {e : Event P} (h : Effect s s' o e)
    (hq : Quiet o') : Effect s s' (o ++ o') e := by
  have hnot : ∀ a, a.isOptimization = true → a ∈ o ++ o' → a ∈ o := by
    intro a ha hmem
    rcases List.mem_append.mp hmem with h | h
    · exact h
    · exact absurd (hq a h) (by simp [ha])
  cases h with
  | neighbors msg hs hne hqo => exact .neighbors msg hs hne (hqo.append hq)
  | accept msg b h1 h2 h3 h4 h5 hqo => exact .accept msg b h1 h2 h3 h4 h5 (hqo.append hq)
  | launch env job h1 h2 h3 h4 h5 h6 h7 =>
    refine .launch env job h1 h2 h3 h4 h5 (List.mem_append_left _ h6) fun a ha => ?_
    rcases List.mem_append.mp ha with ha | ha
    · exact h7 a ha
    · exact Or.inr (hq a ha)
  | collect env job result h1 h2 h3 h4 h5 h6 h7 =>
    exact .collect env job result h1 h2 h3 h4 (List.mem_append_left _ h5)
      (fun dest msg hm => h6 dest msg (hnot _ rfl hm)) fun hl => h7 (hnot _ rfl hl)
  | other _ hs hst hqo => exact .other e hs hst (hqo.append hq)

/-! ### One lemma for each callback -/

/-- The search for the connected robots changes nothing that the rest of the aggregation reads. -/
theorem aggregatePoseGraphs_eq (s : State P) (beyond : ℕ → Bool) :
    aggregatePoseGraphs R s beyond =
      (aggregateEstimates s (connectedRobotPoseGraph R s beyond).2).bind fun estimates =>
        (neighborFactors s (connectedRobotPoseGraph R s beyond).2).bind fun others =>
          some ({ (connectedRobotPoseGraph R s beyond).1 with
              tentativeLocalPoseAtLatestOptimization := s.latestLocalPose },
            ⟨((localLoopClosures R s (connectedRobotPoseGraph R s beyond).2 ++ others).foldl
              (Added.push estimates) { graph := s.poseGraph }).graph, estimates⟩) := rfl

/-- What an aggregation that returns comes to. -/
theorem aggregatePoseGraphs_eq_some {beyond : ℕ → Bool} {a : GraphAndValues P}
    (h : aggregatePoseGraphs R s beyond = some (s', a)) :
    ∃ others, aggregateEstimates s (connectedRobotPoseGraph R s beyond).2 = some a.estimates ∧
      neighborFactors s (connectedRobotPoseGraph R s beyond).2 = some others ∧
      s' = { (connectedRobotPoseGraph R s beyond).1 with
        tentativeLocalPoseAtLatestOptimization := s.latestLocalPose } ∧
      a.graph = ((localLoopClosures R s (connectedRobotPoseGraph R s beyond).2 ++ others).foldl
        (Added.push a.estimates) { graph := s.poseGraph }).graph := by
  rw [aggregatePoseGraphs_eq] at h
  obtain ⟨estimates, hest, h⟩ := Option.bind_eq_some_iff.mp h
  obtain ⟨others, hothers, h⟩ := Option.bind_eq_some_iff.mp h
  obtain ⟨rfl, rfl⟩ := Prod.mk.inj (Option.some.inj h)
  exact ⟨others, hest, hothers, rfl, rfl⟩

/-- Aggregating writes the connectivity and the tentative pose only. -/
theorem aggregatePoseGraphs_frame {beyond : ℕ → Bool} {a : GraphAndValues P}
    (h : aggregatePoseGraphs R s beyond = some (s', a)) :
    ∃ c, s' = { s with
      receivedPoseGraphsConnectivity := c
      tentativeLocalPoseAtLatestOptimization := s.latestLocalPose } := by
  obtain ⟨_, _, _, rfl, _⟩ := aggregatePoseGraphs_eq_some h
  exact ⟨_, rfl⟩

/-- What a turn of the loop can do, before it publishes the state. -/
inductive LoopTurn (R : Params) (s : State P) (env : LoopEnv P) : State P → List (Action P) → Prop
  | request (requests : List (Action P)) : s.optimizerState = .posegraphCollection →
      (s.currentNeighborsIds.robots.mapM fun id => if id < R.maxNbRobots then
        some (Action.getPoseGraph id (s.currentNeighborsIds.robots ++ [R.robotId])) else none) =
          some requests →
      LoopTurn R s env (startWaiting s env.now) requests
  | alone : s.optimizerState = .posegraphCollection → s.currentNeighborsIds.robots = [] →
      LoopTurn R s env { s with optimizerState := .startOptimization } []
  | aggregate (c : SortedDict ℕ (List ℕ)) (a : GraphAndValues P) :
      s.odometryPoseEstimates.size ≠ 0 → s.optimizerState = .startOptimization →
      LoopTurn R s env { s with
        receivedPoseGraphsConnectivity := c
        tentativeLocalPoseAtLatestOptimization := s.latestLocalPose
        aggregatePoseGraph := some a } []
  | launch (c : SortedDict ℕ (List ℕ)) (job : Job P) :
      s.odometryPoseEstimates.size ≠ 0 → s.optimizerState = .startOptimization →
      job.origin = s.originRobotId →
      LoopTurn R s env { s with
        receivedPoseGraphsConnectivity := c
        tentativeLocalPoseAtLatestOptimization := s.latestLocalPose
        aggregatePoseGraph := some job.input
        optimizationResult := some job
        optimizerState := .optimization } [.launch]
  | collect (job : Job P) (result : Values P) (shared debug : List (Action P)) :
      s.optimizerState = .optimization → s.optimizationResult = some job →
      shareOptimizedEstimates R s result = some shared → Quiet debug →
      LoopTurn R s env { s with
        optimizationResult := none
        optimizationCount := s.optimizationCount + 1
        optimizerState := .idle } (.collect result :: shared ++ debug)
  | timeout : s.optimizerState ≠ .startOptimization → s.optimizerState ≠ .optimization →
      LoopTurn R s env { s with isWaiting := false, optimizerState := .idle } []
  | stay : (s.odometryPoseEstimates.size ≠ 0 → s.optimizerState ≠ .startOptimization) →
      LoopTurn R s env s []

theorem loopStep_turn {env : LoopEnv P} {o : List (Action P)}
    (hsize : s.odometryPoseEstimates.size ≠ 0) (h : loopStep R s env = some (s', o)) :
    LoopTurn R s env s' o := by
  unfold loopStep at h
  split at h
  case h_1 hst =>
    dsimp only at h
    split_ifs at h with hids
    · obtain ⟨requests, hreq, heq⟩ := Option.map_eq_some_iff.mp h
      obtain ⟨rfl, rfl⟩ := Prod.mk.inj heq
      exact .request _ hst hreq
    · obtain ⟨rfl, rfl⟩ := Prod.mk.inj (Option.some.inj h)
      exact .alone hst (List.length_eq_zero_iff.mp (Nat.eq_zero_of_not_pos hids))
  case h_2 hst =>
    obtain ⟨⟨s₁, a⟩, ha, hs'⟩ := Option.map_eq_some_iff.mp h
    obtain ⟨c, rfl⟩ := aggregatePoseGraphs_frame ha
    dsimp only at hs'
    split at hs'
    · obtain ⟨rfl, rfl⟩ := Prod.mk.inj hs'
      exact .aggregate c a hsize hst
    · obtain ⟨rfl, rfl⟩ := Prod.mk.inj hs'
      exact .launch c _ hsize hst rfl
  case h_3 hst =>
    unfold checkResultAndFinishOptimization at h
    split at h
    case h_1 => exact absurd h (by simp)
    case h_2 =>
      obtain ⟨rfl, rfl⟩ := Prod.mk.inj (Option.some.inj h)
      exact .stay fun _ hstart => absurd (hst.symm.trans hstart) (by simp)
    case h_3 job result hjob _ =>
      obtain ⟨shared, hshared, heq⟩ := Option.map_eq_some_iff.mp h
      obtain ⟨rfl, rfl⟩ := Prod.mk.inj heq
      refine .collect job result shared _ hst hjob hshared ?_
      split_ifs
      · exact quiet_singleton rfl
      · exact quiet_nil
  -- idle or waiting: nothing happens, unless it has been waited for too long
  all_goals
    rename_i hst
    obtain ⟨rfl, rfl⟩ := Prod.mk.inj (Option.some.inj h)
    have hstart : s.optimizerState ≠ .startOptimization := fun heq =>
      absurd (hst.symm.trans heq) (by simp)
    unfold checkWaitingTimeout endWaiting
    split_ifs
    · exact .timeout hstart fun heq => absurd (hst.symm.trans heq) (by simp)
    · exact .stay fun _ => hstart
    · exact .stay fun _ => hstart

/-- **Inversion lemma** for the loop. -/
theorem optimizationLoopCallback_turn {env : LoopEnv P} {o : List (Action P)}
    (h : optimizationLoopCallback R s env = some (s', o)) :
    ∃ o₁ published, LoopTurn R s env s' o₁ ∧ o = o₁ ++ published ∧ Quiet published := by
  obtain ⟨⟨s₁, o₁⟩, h₁, heq⟩ := Option.map_eq_some_iff.mp h
  obtain ⟨rfl, rfl⟩ := Prod.mk.inj heq
  refine ⟨o₁, _, ?_, rfl, ?_⟩
  · split_ifs at h₁ with hsize
    · exact loopStep_turn hsize h₁
    · obtain ⟨rfl, rfl⟩ := Prod.mk.inj (Option.some.inj h₁)
      exact .stay fun hne => absurd hne hsize
  · split_ifs
    · exact quiet_singleton rfl
    · exact quiet_nil

/-- **Frame lemma**: the loop writes the variables of the state machine and what aggregating
writes. -/
theorem optimizationLoopCallback_frame {env : LoopEnv P} {o : List (Action P)}
    (h : optimizationLoopCallback R s env = some (s', o)) :
    ∃ connectivity tentative state result aggregate count waiting since, s' = { s with
      receivedPoseGraphsConnectivity := connectivity
      tentativeLocalPoseAtLatestOptimization := tentative
      optimizerState := state
      optimizationResult := result
      aggregatePoseGraph := aggregate
      optimizationCount := count
      isWaiting := waiting
      startWaitingTime := since } := by
  obtain ⟨_, _, hturn, -⟩ := optimizationLoopCallback_turn h
  cases hturn <;> exact ⟨_, _, _, _, _, _, _, _, rfl⟩

/-- What is shared carries the origin of the moment. -/
theorem shareOptimizedEstimates_origin {estimates : Values P} {o : List (Action P)}
    (h : shareOptimizedEstimates R s estimates = some o) {a : Action P} (ha : a ∈ o) :
    ∃ dest msg, a = .optimizedEstimates dest msg ∧ msg.originRobotId = s.originRobotId := by
  obtain ⟨id, -, hid⟩ := Walk.mem_of_mapM h ha
  split_ifs at hid
  obtain rfl := Option.some.inj hid
  exact ⟨id, _, rfl, rfl⟩

theorem LoopTurn.effect {env : LoopEnv P} {o : List (Action P)} (h : LoopTurn R s env s' o) :
    Effect s s' o (.optimizationLoop env) := by
  cases h with
  | request _ hst hreq =>
    refine .other _ ⟨rfl, rfl⟩ (fun hopt => absurd (hst.symm.trans hopt) (by simp)) ?_
    intro a ha
    obtain ⟨id, -, hid⟩ := Walk.mem_of_mapM hreq ha
    split_ifs at hid
    obtain rfl := Option.some.inj hid
    rfl
  | alone hst =>
    exact .other _ ⟨rfl, rfl⟩ (fun hopt => absurd (hst.symm.trans hopt) (by simp)) quiet_nil
  | aggregate => exact .other _ ⟨rfl, rfl⟩ id quiet_nil
  | launch _ job _ hst horigin =>
    exact .launch env job hst rfl horigin rfl rfl (by simp) (by simp)
  | collect job result shared debug hst hjob hshared hdebug =>
    refine Effect.append_quiet ?_ hdebug
    refine .collect env job result hst hjob rfl rfl List.mem_cons_self ?_ ?_
    · intro dest msg hm
      rcases List.mem_cons.mp hm with h | h
      · exact absurd h (by simp)
      · obtain ⟨dest', msg', heq, horigin⟩ := shareOptimizedEstimates_origin hshared h
        obtain ⟨-, rfl⟩ := Action.optimizedEstimates.inj heq
        exact horigin
    · intro hl
      rcases List.mem_cons.mp hl with h | h
      · exact absurd h (by simp)
      · obtain ⟨_, _, heq, -⟩ := shareOptimizedEstimates_origin hshared h
        exact absurd heq (by simp)
  | timeout _ hst => exact .other _ ⟨rfl, rfl⟩ (fun hopt => absurd hopt hst) quiet_nil
  | stay => exact .other _ ⟨rfl, rfl⟩ id quiet_nil

theorem optimizationLoopCallback_effect {env : LoopEnv P} {o : List (Action P)}
    (h : optimizationLoopCallback R s env = some (s', o)) :
    Effect s s' o (.optimizationLoop env) := by
  obtain ⟨_, _, hturn, rfl, hquiet⟩ := optimizationLoopCallback_turn h
  exact hturn.effect.append_quiet hquiet

theorem intraRobotLoopClosureCallback_frame (R : Params) (s : State P)
    (msg : IntraRobotLoopClosure P) :
    ∃ graph, intraRobotLoopClosureCallback R s msg = { s with poseGraph := graph } := by
  unfold intraRobotLoopClosureCallback
  split_ifs
  · exact ⟨_, rfl⟩
  · exact ⟨_, rfl⟩

theorem interRobotLoopClosureCallback_frame (R : Params) (s : State P)
    (msg : InterRobotLoopClosure P) :
    ∃ closures connected, interRobotLoopClosureCallback R s msg = { s with
      interRobotLoopClosures := closures
      connectedRobots := connected } := by
  unfold interRobotLoopClosureCallback
  split_ifs
  · exact ⟨_, _, rfl⟩
  all_goals exact ⟨_, _, rfl⟩

theorem poseGraphCallback_frame {msg : PoseGraph P} (h : poseGraphCallback s msg = some s') :
    ∃ graphs received connectivity state waiting, s' = { s with
      otherRobotsGraphAndEstimates := graphs
      receivedPoseGraphs := received
      receivedPoseGraphsConnectivity := connectivity
      optimizerState := state
      isWaiting := waiting } := by
  unfold poseGraphCallback at h
  split_ifs at h
  · obtain rfl := Option.some.inj h
    exact ⟨_, _, _, _, _, rfl⟩
  · obtain ⟨values, -, rfl⟩ := Option.map_eq_some_iff.mp h
    dsimp only
    split_ifs
    · exact ⟨_, _, _, _, _, rfl⟩
    · exact ⟨_, _, _, _, _, rfl⟩

theorem optimizationCallback_frame (R : Params) (s : State P) (now : ℤ) :
    ∃ graphs received connectivity state waiting since, (optimizationCallback R s now).1 = { s with
      otherRobotsGraphAndEstimates := graphs
      receivedPoseGraphs := received
      receivedPoseGraphsConnectivity := connectivity
      optimizerState := state
      isWaiting := waiting
      startWaitingTime := since } := by
  unfold optimizationCallback
  split_ifs
  · exact ⟨_, _, _, _, _, _, rfl⟩
  · exact ⟨_, _, _, _, _, _, rfl⟩

/-- A result is accepted, or changes nothing. -/
theorem optimizedEstimatesCallback_cases [One P] {msg : OptimizationResult P} {b : Bool}
    {o : List (Action P)} (h : optimizedEstimatesCallback R s msg b = some (s', o)) :
    (s.odometryPoseEstimates.size = 0 ∨ msg.estimates = []) ∧ s' = s ∧ o = [] ∨
    s.odometryPoseEstimates.size ≠ 0 ∧ msg.estimates ≠ [] ∧ Quiet o ∧
    ∃ estimates last, valuesMsgToGtsam msg.estimates = some estimates ∧
      estimates.entries.getLast? = some last ∧ s' = { s with
        currentPoseEstimates := estimates
        originRobotId := msg.originRobotId
        originToFirstPose := s'.originToFirstPose
        localPoseAtLatestOptimization := s.tentativeLocalPoseAtLatestOptimization
        latestOptimizedPose := last.2 } := by
  unfold optimizedEstimatesCallback at h
  by_cases hskip : s.odometryPoseEstimates.size = 0 ∨ msg.estimates = []
  · rw [if_pos hskip] at h
    obtain ⟨rfl, rfl⟩ := Prod.mk.inj (Option.some.inj h)
    exact Or.inl ⟨hskip, rfl, rfl⟩
  · rw [if_neg hskip] at h
    obtain ⟨hsize, hmsg⟩ := not_or.mp hskip
    simp only [Option.bind_eq_bind, Option.bind_eq_some_iff, Option.some.injEq,
      Prod.mk.injEq] at h
    obtain ⟨estimates, hest, last, hlast, rfl, rfl⟩ := h
    refine Or.inr ⟨hsize, hmsg, ?_, estimates, last, hest, hlast, rfl⟩
    split_ifs
    · exact quiet_singleton rfl
    · exact quiet_nil

theorem optimizedEstimatesCallback_effect [One P] {msg : OptimizationResult P} {b : Bool}
    {o : List (Action P)} (h : optimizedEstimatesCallback R s msg b = some (s', o)) :
    Effect s s' o (.optimizedEstimates msg b) := by
  rcases optimizedEstimatesCallback_cases h with ⟨-, rfl, rfl⟩ |
    ⟨hsize, hmsg, hquiet, _, _, -, -, heq⟩
  · exact .other _ ⟨rfl, rfl⟩ id quiet_nil
  · rw [heq]
    exact .accept msg b hsize hmsg rfl rfl rfl hquiet

theorem odometryCallback_effect [Mul P] [Inv P] {msg : KeyframeOdom P}
    (h : odometryCallback R s msg = some s') : Effect s s' [] (.odometry msg) := by
  simp only [odometryCallback, Option.bind_eq_bind, Option.bind_eq_some_iff,
    Option.some.injEq] at h
  obtain ⟨_, -, _, -, rfl⟩ := h
  exact .other _ ⟨rfl, rfl⟩ id quiet_nil

/-- A pose graph is taken while the node waits for it, and that is no optimization. -/
theorem poseGraphCallback_effect {msg : PoseGraph P} (h : poseGraphCallback s msg = some s') :
    Effect s s' [] (.poseGraph msg) := by
  unfold poseGraphCallback at h
  split_ifs at h with hst
  · obtain rfl := Option.some.inj h
    exact .other _ ⟨rfl, rfl⟩ id quiet_nil
  · obtain ⟨values, -, rfl⟩ := Option.map_eq_some_iff.mp h
    have hst := not_not.mp hst
    refine .other _ ?_ (fun hopt => absurd (hst.symm.trans hopt) (by simp)) quiet_nil
    dsimp only
    split_ifs <;> exact ⟨rfl, rfl⟩

/-- The timer asks for pose graphs from an idle node only. -/
theorem optimizationCallback_effect (R : Params) (s : State P) (now : ℤ) :
    Effect s (optimizationCallback R s now).1 (optimizationCallback R s now).2
      (.optimization now) := by
  unfold optimizationCallback
  split_ifs with hidle
  · exact .other _ ⟨rfl, rfl⟩ (fun hopt => absurd (hidle.1.symm.trans hopt) (by simp))
      (quiet_singleton rfl)
  · exact .other _ ⟨rfl, rfl⟩ id quiet_nil

/-- **Inversion lemma**: what any step does to the optimization. -/
theorem step_effect [Mul P] [Inv P] [One P] {e : Event P} {o : List (Action P)}
    (h : s.step R e = some (s', o)) : Effect s s' o e := by
  cases e with
  | odometry msg =>
    obtain ⟨s₁, h₁, heq⟩ := Option.map_eq_some_iff.mp h
    obtain ⟨rfl, rfl⟩ := Prod.mk.inj heq
    exact odometryCallback_effect h₁
  | intraRobotLoopClosure msg =>
    obtain ⟨rfl, rfl⟩ := Prod.mk.inj (Option.some.inj h)
    obtain ⟨_, heq⟩ := intraRobotLoopClosureCallback_frame R s msg
    rw [heq]
    exact .other _ ⟨rfl, rfl⟩ id quiet_nil
  | interRobotLoopClosure msg =>
    obtain ⟨rfl, rfl⟩ := Prod.mk.inj (Option.some.inj h)
    obtain ⟨_, _, heq⟩ := interRobotLoopClosureCallback_frame R s msg
    rw [heq]
    exact .other _ ⟨rfl, rfl⟩ id quiet_nil
  | currentNeighbors msg =>
    obtain ⟨s₁, h₁, heq⟩ := Option.map_eq_some_iff.mp h
    obtain ⟨rfl, rfl⟩ := Prod.mk.inj heq
    obtain ⟨b, -, rfl⟩ := Option.map_eq_some_iff.mp h₁
    refine .neighbors msg ⟨rfl, rfl⟩ ?_ quiet_nil
    cases b <;> simp
  | getPoseGraph ids =>
    obtain ⟨rfl, rfl⟩ := Prod.mk.inj (Option.some.inj h)
    exact .other _ ⟨rfl, rfl⟩ id (quiet_singleton rfl)
  | poseGraph msg =>
    obtain ⟨s₁, h₁, heq⟩ := Option.map_eq_some_iff.mp h
    obtain ⟨rfl, rfl⟩ := Prod.mk.inj heq
    exact poseGraphCallback_effect h₁
  | optimizedEstimates msg b => exact optimizedEstimatesCallback_effect h
  | optimization now =>
    obtain ⟨rfl, rfl⟩ := Prod.mk.inj (Option.some.inj h)
    exact optimizationCallback_effect R s now
  | optimizationLoop env => exact optimizationLoopCallback_effect h
  | heartbeat alive =>
    obtain ⟨rfl, rfl⟩ := Prod.mk.inj (Option.some.inj h)
    refine .other _ ⟨rfl, rfl⟩ id ?_
    split_ifs
    · exact quiet_singleton rfl
    · exact quiet_nil
  | broadcastTf =>
    obtain ⟨rfl, rfl⟩ := Prod.mk.inj (Option.some.inj h)
    refine .other _ ⟨rfl, rfl⟩ id (Quiet.append ?_ ?_)
    · split_ifs
      · exact quiet_singleton rfl
      · exact quiet_nil
    · simp [Quiet, Action.isOptimization]

/-! ### The state machine owns its optimization -/

variable [Mul P] [Inv P] [One P]

/-- An outstanding optimization has its state. -/
def Owned (s : State P) : Prop := s.optimizationResult.isSome → s.optimizerState = .optimization

/-- The optimization is owned before and after the callback `e`; only collecting its result leaves
its state, and what is outstanding stays, alone, until its result is collected. -/
structure OwnedStep (R : Params) (s : State P) (e : Event P) : Prop where
  before : Owned s
  after : ∀ s' o, s.step R e = some (s', o) → Owned s'
  leaves : ∀ s' o, s.step R e = some (s', o) → s.optimizerState = .optimization →
    s'.optimizerState ≠ .optimization → ∃ result, .collect result ∈ o
  kept : ∀ s' o, s.step R e = some (s', o) → s.optimizationResult.isSome →
    (∃ result, .collect result ∈ o) ∨
      (s'.optimizationResult = s.optimizationResult ∧ .launch ∉ o)

/-- The callback is not `current_neighbors_callback` in the state `OPTIMIZATION`. -/
def NoLateNeighbors (s : State P) : Event P → Prop
  | .currentNeighbors _ => s.optimizerState ≠ .optimization
  | _ => True

omit [Mul P] [Inv P] [One P] in
theorem Quiet.launch_notMem {o : List (Action P)} (h : Quiet o) : .launch ∉ o :=
  fun hl => absurd (h _ hl) (by simp [Action.isOptimization])

theorem Owned.step {e : Event P} {o : List (Action P)} (h : Owned s) (hn : NoLateNeighbors s e)
    (hs : s.step R e = some (s', o)) : Owned s' := by
  intro hsome
  cases step_effect hs with
  | neighbors msg hsame _ _ => exact absurd (h (hsame.result ▸ hsome)) hn
  | accept msg b _ _ hres _ hst _ => exact hst.trans (h (hres ▸ hsome))
  | launch env job _ _ _ _ hst _ _ => exact hst
  | collect env job result _ _ hres _ _ _ _ => simp [hres] at hsome
  | other _ hsame hst _ => exact hst (h (hsame.result ▸ hsome))

/-- **Step lemma**: every callback but a late list of neighbors keeps the optimization owned. -/
theorem Owned.ownedStep {e : Event P} (h : Owned s) (hn : NoLateNeighbors s e) :
    OwnedStep R s e := by
  refine ⟨h, fun s' o hs => h.step hn hs, ?_, ?_⟩
  · intro s' o hs hst hne
    cases step_effect hs with
    | neighbors msg _ _ _ => exact absurd hst hn
    | accept msg b _ _ _ _ hst' _ => exact absurd (hst'.trans hst) hne
    | launch env job _ _ _ _ hst' _ _ => exact absurd hst' hne
    | collect env job result _ _ _ _ hmem _ _ => exact ⟨result, hmem⟩
    | other _ _ hst' _ => exact absurd (hst' hst) hne
  · intro s' o hs hsome
    cases step_effect hs with
    | neighbors msg hsame _ hq => exact Or.inr ⟨hsame.result, hq.launch_notMem⟩
    | accept msg b _ _ hres _ _ hq => exact Or.inr ⟨hres, hq.launch_notMem⟩
    | launch env job hst _ _ _ _ _ _ => exact absurd (hst.symm.trans (h hsome)) (by simp)
    | collect env job result _ _ _ _ hmem _ _ => exact Or.inl ⟨result, hmem⟩
    | other _ hsame _ hq => exact Or.inr ⟨hsame.result, hq.launch_notMem⟩

theorem owned_of_run {tr : List (Event P × List (Action P))}
    (h : (pgo P R).Run NoLateNeighbors tr s) : Owned s :=
  h.invariant (I := fun _ s => Owned s) (fun hsome => by simp [pgo, initialState] at hsome)
    fun _ _ _ _ _ _ ih hc hs => ih.step hc hs

theorem owned_of_ownedRun {tr : List (Event P × List (Action P))}
    (h : (pgo P R).Run (OwnedStep R) tr s) : Owned s := by
  cases h with
  | init => exact fun hsome => by simp [pgo, initialState] at hsome
  | step _ hc hs => exact hc.after _ _ hs

/-- A list of neighbors handled in the state `OPTIMIZATION` leaves it without a result. -/
theorem OwnedStep.noLateNeighbors {e : Event P} {o : List (Action P)} (h : OwnedStep R s e)
    (hs : s.step R e = some (s', o)) : NoLateNeighbors s e := by
  cases e with
  | currentNeighbors msg =>
    intro hst
    cases step_effect hs with
    | neighbors _ _ hne hq =>
      obtain ⟨result, hmem⟩ := h.leaves s' o hs hst hne
      exact absurd (hq _ hmem) (by simp [Action.isOptimization])
    | other _ _ hst' hq =>
      obtain ⟨s₁, h₁, heq⟩ := Option.map_eq_some_iff.mp hs
      obtain ⟨rfl, rfl⟩ := Prod.mk.inj heq
      obtain ⟨b, -, rfl⟩ := Option.map_eq_some_iff.mp h₁
      exact absurd (hst' hst) (by cases b <;> simp)
  | _ => trivial

/-- **The state machine owns its optimization along a run exactly when the run handles no list of
neighbors in the state `OPTIMIZATION`.** -/
theorem ownsOptimization_iff (R : Params) (tr : List (Event P × List (Action P))) (s : State P) :
    (pgo P R).Run (OwnedStep R) tr s ↔ (pgo P R).Run NoLateNeighbors tr s := by
  constructor
  · intro h
    induction h with
    | init => exact .init
    | step _ hc hs ih => exact .step ih (hc.noLateNeighbors hs) hs
  · intro h
    induction h with
    | init => exact .init
    | step hr hc hs ih => exact .step ih ((owned_of_run hr).ownedStep hc) hs

/-- One robot of two, with poses on a line. -/
def robot0 : Params := { robotId := 0, maxNbRobots := 2, maxWaitingTime := 60 }

/-- The first request for neighbors times out, its reply arrives after the second request, and the
reply to that one arrives while the optimization runs. -/
def lateReply : List (Event (Multiplicative ℤ)) :=
  [.odometry ⟨0, 1⟩, .optimization 0, .optimizationLoop { now := 61 }, .optimization 70,
    .currentNeighbors {}, .optimizationLoop {}, .optimizationLoop {}, .currentNeighbors {}]

theorem not_ownsOptimization :
    ¬ ∀ tr s, (pgo (Multiplicative ℤ) robot0).Reaches tr s →
      (pgo (Multiplicative ℤ) robot0).Run (OwnedStep robot0) tr s := by
  intro h
  obtain ⟨tr, s, hr, hsome, hst⟩ :=
    Machine.exists_reaches_of_exec (M := pgo (Multiplicative ℤ) robot0) lateReply
      (p := fun r => r.2.optimizationResult.isSome ∧ r.2.optimizerState ≠ .optimization)
      (by decide +kernel)
  exact hst (owned_of_ownedRun (h tr s hr) hsome)

/-! ### The origin of a published result -/

/-- Every result the callback `e` publishes names the origin its optimization was launched
with. -/
def Labelled (R : Params) (s : State P) (e : Event P) : Prop :=
  ∀ s' o, s.step R e = some (s', o) → ∀ dest msg, .optimizedEstimates dest msg ∈ o →
    ∃ job, s.optimizationResult = some job ∧ msg.originRobotId = job.origin

/-- The callback does not accept a result with another origin while an optimization is
outstanding. -/
def KeepsOrigin (s : State P) : Event P → Prop
  | .optimizedEstimates msg _ =>
    s.odometryPoseEstimates.size ≠ 0 → msg.estimates ≠ [] → s.optimizationResult.isSome →
      msg.originRobotId = s.originRobotId
  | _ => True

instance (s : State P) : (e : Event P) → Decidable (KeepsOrigin s e)
  | .optimizedEstimates _ _ => inferInstanceAs (Decidable (_ → _ → _ → _))
  | .odometry _ | .intraRobotLoopClosure _ | .interRobotLoopClosure _ | .currentNeighbors _
  | .getPoseGraph _ | .poseGraph _ | .optimization _ | .optimizationLoop _ | .heartbeat _
  | .broadcastTf => isTrue trivial

/-- The outstanding optimization was launched with the origin the robot has. -/
def OriginOfLaunch (s : State P) : Prop :=
  ∀ job, s.optimizationResult = some job → job.origin = s.originRobotId

theorem OriginOfLaunch.step {e : Event P} {o : List (Action P)} (h : OriginOfLaunch s)
    (hk : KeepsOrigin s e) (hs : s.step R e = some (s', o)) : OriginOfLaunch s' := by
  intro job hjob
  cases step_effect hs with
  | neighbors msg hsame _ _ => exact (h job (hsame.result ▸ hjob)).trans hsame.origin.symm
  | accept msg b hsize hmsg hres horigin _ _ =>
    have hjob' : s.optimizationResult = some job := hres ▸ hjob
    have hmsg' := hk hsize hmsg (by simp [hjob'])
    rw [horigin, hmsg', h job hjob']
  | launch env job' _ hres hlaunch horigin _ _ _ =>
    obtain rfl : job' = job := Option.some.inj (hres.symm.trans hjob)
    exact hlaunch.trans horigin.symm
  | collect env job' result _ _ hres _ _ _ _ => simp [hres] at hjob
  | other _ hsame _ _ => exact (h job (hsame.result ▸ hjob)).trans hsame.origin.symm

theorem OriginOfLaunch.labelled {e : Event P} (h : OriginOfLaunch s) : Labelled R s e := by
  intro s' o hs dest msg hm
  cases step_effect hs with
  | collect env job result _ hjob _ _ _ hmsg _ =>
    exact ⟨job, hjob, (hmsg dest msg hm).trans (h job hjob).symm⟩
  | launch env job _ _ _ _ _ _ hq =>
    rcases hq _ hm with heq | hf
    · exact absurd heq (by simp)
    · exact absurd hf (by simp [Action.isOptimization])
  | neighbors _ _ _ hq | accept _ _ _ _ _ _ _ hq | other _ _ _ hq =>
    exact absurd (hq _ hm) (by simp [Action.isOptimization])

/-- **A published result names the origin its optimization was launched with**, in every run that
accepts no result with another origin while an optimization is outstanding. -/
theorem labelled_of_keepsOrigin {tr : List (Event P × List (Action P))}
    (h : (pgo P R).Run KeepsOrigin tr s) (e : Event P) : Labelled R s e := by
  have horigin : OriginOfLaunch s :=
    h.invariant (I := fun _ s => OriginOfLaunch s)
      (fun job hjob => by simp [pgo, initialState] at hjob)
      fun _ _ _ _ _ _ ih hk hs => ih.step hk hs
  exact horigin.labelled

/-- The origin a shared result names. -/
def Action.sharedOrigin : Action P → Option ℕ
  | .optimizedEstimates _ msg => some msg.originRobotId
  | _ => none

/-- The callback shares a result that names `origin`. -/
def SharesOrigin (R : Params) (s : State P) (e : Event P) (origin : ℕ) : Prop :=
  (s.step R e).any (fun r => some origin ∈ r.2.map Action.sharedOrigin) = true

/-- The robot launches an optimization and accepts a result with origin `origin` before its own
comes. -/
def acceptWhileOutstanding (origin : ℕ) : List (Event (Multiplicative ℤ)) :=
  [.odometry ⟨0, 1⟩, .optimization 0, .currentNeighbors {}, .optimizationLoop {},
    .optimizationLoop {},
    .optimizedEstimates
      { success := true, originRobotId := origin, estimates := [⟨⟨0, 0⟩, 1⟩] } false]

/-- The loop finds the optimization finished. -/
def finished : Event (Multiplicative ℤ) := .optimizationLoop { result := some ∅ }

theorem labelled_of_keepsOrigin_same :
    ∃ tr s, (pgo (Multiplicative ℤ) robot0).Reaches tr s ∧ SharesOrigin robot0 s finished 0 ∧
      Labelled robot0 s finished := by
  obtain ⟨tr, s, hr, hshares⟩ :=
    Machine.exists_run_of_exec (M := pgo (Multiplicative ℤ) robot0) (C := KeepsOrigin)
      (acceptWhileOutstanding 0)
      (p := fun r => (r.2.step robot0 finished).any
        (fun r => some 0 ∈ r.2.map Action.sharedOrigin) = true)
      (by decide +kernel) (by decide +kernel)
  exact ⟨tr, s, hr.reaches, hshares, labelled_of_keepsOrigin hr finished⟩

/-- A result of robot 1 accepted meanwhile relabels robot 0's own. -/
theorem not_labelled :
    ¬ ∀ tr s, (pgo (Multiplicative ℤ) robot0).Reaches tr s → ∀ e, Labelled robot0 s e := by
  intro h
  obtain ⟨tr, s, hr, hjob, hshares⟩ :=
    Machine.exists_reaches_of_exec (M := pgo (Multiplicative ℤ) robot0) (acceptWhileOutstanding 1)
      (p := fun r => r.2.optimizationResult.map Job.origin = some 0 ∧
        (r.2.step robot0 finished).any (fun r => some 1 ∈ r.2.map Action.sharedOrigin) = true)
      (by decide +kernel)
  obtain ⟨⟨s', o⟩, hs, hmem⟩ := (Option.any_eq_true _ _).mp hshares
  obtain ⟨a, ha, horigin⟩ := List.mem_map.mp (of_decide_eq_true hmem)
  cases a with
  | optimizedEstimates dest msg =>
    obtain ⟨job, hres, hmsg⟩ := h tr s hr finished s' o hs dest msg ha
    have h1 : msg.originRobotId = 1 := by simpa [Action.sharedOrigin] using horigin
    have h0 : job.origin = 0 := by simpa [hres] using hjob
    omega
  | _ => simp [Action.sharedOrigin] at horigin

end RoverSwarm.Pgo
