import RoverSwarm.Pgo.StateMachine

/-!
# Pgo.Collection — the neighbors' pose graphs when an optimization starts

A pose graph is stored and its robot is marked as received in the same callback, and both are
forgotten together when a round begins; but the marks are forgotten below `max_nb_robots_` only.
No other robot gets as far as being waited for, since requesting its graph would have crashed.
The list of neighbors may be replaced at any moment, and whoever replaces it leaves the state
`START_OPTIMIZATION`; so in that state the graphs of all the neighbors are there.
-/

namespace RoverSwarm.Pgo

open Transition

variable {P : Type*} {R : Params} {s s' : State P}

/-! ### What has been received -/

/-- The pose graphs handled since `reinitialize_received_pose_graphs` was called last: the callback
that calls it is the one that requests the neighbors. -/
def receivedSince (tr : List (Event P × List (Action P))) : List (PoseGraph P) :=
  tr.foldl (fun received x => match x with
    | (.optimization _, .getCurrentNeighbors :: _) => []
    | (.poseGraph msg, _) => received ++ [msg]
    | _ => received) []

/-- The graph stored for the robot of the message is the one of the message. -/
def Stored (s : State P) (msg : PoseGraph P) : Prop :=
  ∃ values, valuesMsgToGtsam msg.values = some values ∧
    s.otherRobotsGraphAndEstimates.get? msg.robotId = some ⟨edgesMsgToGtsam msg.edges, values⟩

theorem receivedSince_concat (tr : List (Event P × List (Action P)))
    (x : Event P × List (Action P)) :
    receivedSince (tr ++ [x]) = match x with
      | (.optimization _, .getCurrentNeighbors :: _) => []
      | (.poseGraph msg, _) => receivedSince tr ++ [msg]
      | _ => receivedSince tr := List.foldl_concat _ _ _ _

/-- The pose graphs of the neighbors over a run. -/
structure Collected (R : Params) (tr : List (Event P × List (Action P))) (s : State P) :
    Prop where
  stored : ∀ id g, s.otherRobotsGraphAndEstimates.get? id = some g →
    ∃ msg ∈ receivedSince tr, msg.robotId = id ∧ Stored s msg
  received : ∀ id < R.maxNbRobots, s.receivedPoseGraphs id = true →
    ∃ g, s.otherRobotsGraphAndEstimates.get? id = some g
  known : s.optimizerState = .waitingForNeighborsPosegraphs →
    ∀ id ∈ s.currentNeighborsIds.robots, id < R.maxNbRobots
  ready : s.optimizerState = .startOptimization →
    ∀ id ∈ s.currentNeighborsIds.robots, ∃ g, s.otherRobotsGraphAndEstimates.get? id = some g

/-! ### Aggregating with every graph -/

/-- The graph of the robot, which is one of the neighbors that are `connected`, is there, and a value
in it has the key of one in the estimates of the robot itself or of the neighbors before it. -/
def Clashes (s : State P) (connected : ℕ → Bool) (id : ℕ) : Prop :=
  ∃ before after g estimates, s.currentNeighborsIds.robots = before ++ id :: after ∧
    connected id = true ∧ s.otherRobotsGraphAndEstimates.get? id = some g ∧
    aggregateEstimates
      { s with currentNeighborsIds := { s.currentNeighborsIds with robots := before } }
      connected = some estimates ∧
    estimates.insertAll g.estimates.entries = none

/-- With a graph for every neighbor, aggregating fails at a clash of keys or not at all. -/
theorem clashes_of_aggregatePoseGraphs {beyond : ℕ → Bool}
    (hall : ∀ id ∈ s.currentNeighborsIds.robots,
      ∃ g, s.otherRobotsGraphAndEstimates.get? id = some g)
    (h : aggregatePoseGraphs R s beyond = none) :
    ∃ id ∈ s.currentNeighborsIds.robots,
      Clashes s (connectedRobotPoseGraph R s beyond).2 id := by
  rw [aggregatePoseGraphs_eq] at h
  cases hest : aggregateEstimates s (connectedRobotPoseGraph R s beyond).2 with
  | none =>
    obtain ⟨before, id, after, estimates, hsplit, hbefore, hnone⟩ :=
      Walk.exists_of_foldlM_eq_none hest
    have hid : id ∈ s.currentNeighborsIds.robots :=
      hsplit ▸ List.mem_append_right _ List.mem_cons_self
    obtain ⟨g, hg⟩ := hall id hid
    split_ifs at hnone with hconnected
    rw [hg] at hnone
    exact ⟨id, hid, before, after, g, estimates, hsplit, hconnected, hg, hbefore, hnone⟩
  | some estimates =>
    cases hothers : neighborFactors s (connectedRobotPoseGraph R s beyond).2 with
    | none =>
      obtain ⟨id, hid, hnone⟩ := Walk.exists_of_mapM_eq_none (Option.map_eq_none_iff.mp hothers)
      obtain ⟨g, hg⟩ := hall id hid
      exact absurd (hnone.symm.trans hg) (by simp)
    | some others =>
      rw [hest, hothers] at h
      exact absurd h (by simp)

/-! ### The steps -/

/-- The graphs and the neighbors stay the same, and no more than that is waited for or started. -/
structure SameGraphs (R : Params) (s s' : State P) : Prop where
  graphs : s'.otherRobotsGraphAndEstimates = s.otherRobotsGraphAndEstimates
  received : s'.receivedPoseGraphs = s.receivedPoseGraphs
  neighbors : s'.currentNeighborsIds = s.currentNeighborsIds
  waits : s'.optimizerState = .waitingForNeighborsPosegraphs →
    s.optimizerState = .waitingForNeighborsPosegraphs ∨
      ∀ id ∈ s.currentNeighborsIds.robots, id < R.maxNbRobots
  starts : s'.optimizerState = .startOptimization →
    s.optimizerState = .startOptimization ∨ s.currentNeighborsIds.robots = []

theorem SameGraphs.of_state_eq (hg : s'.otherRobotsGraphAndEstimates = s.otherRobotsGraphAndEstimates)
    (hr : s'.receivedPoseGraphs = s.receivedPoseGraphs)
    (hn : s'.currentNeighborsIds = s.currentNeighborsIds)
    (hst : s'.optimizerState = s.optimizerState) : SameGraphs R s s' where
  graphs := hg
  received := hr
  neighbors := hn
  waits h := Or.inl (hst ▸ h)
  starts h := Or.inl (hst ▸ h)

theorem Collected.of_sameGraphs {tr : List (Event P × List (Action P))}
    {x : Event P × List (Action P)} (h : Collected R tr s) (hs : SameGraphs R s s')
    (hx : receivedSince tr ⊆ receivedSince (tr ++ [x])) : Collected R (tr ++ [x]) s' := by
  obtain ⟨hg, hr, hn, hw, hst⟩ := hs
  refine ⟨fun id g hget => ?_, fun id hid hrec => ?_, fun hwait id hid => ?_, fun hstart id hid => ?_⟩
  · rw [hg] at hget
    obtain ⟨msg, hmem, hid, hstored⟩ := h.stored id g hget
    refine ⟨msg, hx hmem, hid, ?_⟩
    unfold Stored
    rw [hg]
    exact hstored
  · rw [hr] at hrec
    rw [hg]
    exact h.received id hid hrec
  · rw [hn] at hid
    rcases hw hwait with hwait | hknown
    · exact h.known hwait id hid
    · exact hknown id hid
  · rw [hn] at hid
    rw [hg]
    rcases hst hstart with hstart | hnil
    · exact h.ready hstart id hid
    · rw [hnil] at hid
      exact absurd hid List.not_mem_nil

/-- The loop of the state machine waits for the neighbors it has requested graphs from, and starts
without graphs if there are no neighbors. -/
theorem optimizationLoopCallback_sameGraphs {env : LoopEnv P} {o : List (Action P)}
    (h : optimizationLoopCallback R s env = some (s', o)) : SameGraphs R s s' := by
  obtain ⟨_, _, hturn, -⟩ := optimizationLoopCallback_turn h
  cases hturn with
  | request _ hst hreq =>
    refine ⟨rfl, rfl, rfl, fun _ => Or.inr fun id hid => ?_, fun hstart => ?_⟩
    · -- a robot without a publisher crashes the request
      obtain ⟨_, -, hsome⟩ := Walk.exists_mem_of_mapM hreq hid
      split_ifs at hsome with hlt
      exact hlt
    · simp [startWaiting, hst] at hstart
  | alone _ hids =>
    exact ⟨rfl, rfl, rfl, fun hwait => absurd hwait (by simp), fun _ => Or.inr hids⟩
  | aggregate => exact .of_state_eq rfl rfl rfl rfl
  | launch =>
    exact ⟨rfl, rfl, rfl, fun hwait => absurd hwait (by simp),
      fun hstart => absurd hstart (by simp)⟩
  | collect =>
    exact ⟨rfl, rfl, rfl, fun hwait => absurd hwait (by simp),
      fun hstart => absurd hstart (by simp)⟩
  | timeout =>
    exact ⟨rfl, rfl, rfl, fun hwait => absurd hwait (by simp),
      fun hstart => absurd hstart (by simp)⟩
  | stay => exact .of_state_eq rfl rfl rfl rfl

/-- The state with the graph of the message stored and its robot marked. -/
def receive (s : State P) (msg : PoseGraph P) (values : Values P) : State P :=
  { s with
    otherRobotsGraphAndEstimates :=
      s.otherRobotsGraphAndEstimates.setDefault msg.robotId ⟨edgesMsgToGtsam msg.edges, values⟩
    receivedPoseGraphs := Function.update s.receivedPoseGraphs msg.robotId true
    receivedPoseGraphsConnectivity :=
      s.receivedPoseGraphsConnectivity.setDefault msg.robotId msg.connectedRobots }

theorem receive_get? (s : State P) (msg : PoseGraph P) (values : Values P) (id : ℕ) :
    (receive s msg values).otherRobotsGraphAndEstimates.get? id =
      if id = msg.robotId then
        some ((s.otherRobotsGraphAndEstimates.get? id).getD ⟨edgesMsgToGtsam msg.edges, values⟩)
      else s.otherRobotsGraphAndEstimates.get? id := by
  unfold receive
  dsimp only
  rw [SortedDict.get?_setDefault]
  split_ifs with h
  · rw [h]
  · rfl

theorem receive_stored {received : List (PoseGraph P)} {msg : PoseGraph P} {values : Values P}
    (hvalues : valuesMsgToGtsam msg.values = some values)
    (h : ∀ id g, s.otherRobotsGraphAndEstimates.get? id = some g →
      ∃ m ∈ received, m.robotId = id ∧ Stored s m) (id : ℕ) (g : GraphAndValues P)
    (hget : (receive s msg values).otherRobotsGraphAndEstimates.get? id = some g) :
    ∃ m ∈ received ++ [msg], m.robotId = id ∧ Stored (receive s msg values) m := by
  rw [receive_get?] at hget
  cases hold : s.otherRobotsGraphAndEstimates.get? id with
  | some g' =>
    -- the graph stored before stays
    obtain ⟨m, hm, rfl, values', hvalues', hstored⟩ := h id g' hold
    refine ⟨m, List.mem_append_left _ hm, rfl, values', hvalues', ?_⟩
    rw [receive_get?, hstored]
    split_ifs
    · rfl
    · rfl
  | none =>
    rw [hold] at hget
    split_ifs at hget with hid
    refine ⟨msg, List.mem_append_right _ List.mem_cons_self, hid.symm, values, hvalues, ?_⟩
    rw [receive_get?, if_pos rfl, ← hid, hold]
    rfl

theorem receive_received {msg : PoseGraph P} {values : Values P}
    (h : ∀ id < R.maxNbRobots, s.receivedPoseGraphs id = true →
      ∃ g, s.otherRobotsGraphAndEstimates.get? id = some g) {id : ℕ} (hid : id < R.maxNbRobots)
    (hrec : (receive s msg values).receivedPoseGraphs id = true) :
    ∃ g, (receive s msg values).otherRobotsGraphAndEstimates.get? id = some g := by
  rw [receive_get?]
  by_cases heq : id = msg.robotId
  · exact ⟨_, if_pos heq⟩
  · have hold : (receive s msg values).receivedPoseGraphs id = s.receivedPoseGraphs id :=
      Function.update_of_ne heq _ _
    rw [if_neg heq]
    exact h id hid (hold ▸ hrec)

/-- A pose graph is stored and marked; the last one that is missing starts the optimization. -/
theorem Collected.poseGraph {tr : List (Event P × List (Action P))} {msg : PoseGraph P}
    {o : List (Action P)} (h : Collected R tr s) (hs : poseGraphCallback s msg = some s') :
    Collected R (tr ++ [(.poseGraph msg, o)]) s' := by
  have hsince : receivedSince (tr ++ [(.poseGraph msg, o)]) = receivedSince tr ++ [msg] :=
    receivedSince_concat _ _
  unfold poseGraphCallback at hs
  split_ifs at hs with hst
  · obtain rfl := Option.some.inj hs
    refine h.of_sameGraphs (.of_state_eq rfl rfl rfl rfl) ?_
    rw [hsince]
    exact List.subset_append_left _ _
  · have hst := not_not.mp hst
    obtain ⟨values, hvalues, heq⟩ := Option.map_eq_some_iff.mp hs
    have heq : (if checkReceivedPoseGraphs (receive s msg values) then
        { endWaiting (receive s msg values) with optimizerState := .startOptimization }
      else receive s msg values) = s' := heq
    have hstored := receive_stored hvalues h.stored
    have hrec : ∀ id < R.maxNbRobots, (receive s msg values).receivedPoseGraphs id = true →
        ∃ g, (receive s msg values).otherRobotsGraphAndEstimates.get? id = some g :=
      fun _ hid => receive_received h.received hid
    split_ifs at heq with hall
    · subst heq
      refine ⟨?_, hrec, fun hwait => absurd hwait (by simp), fun _ id hid => ?_⟩
      · rw [hsince]
        exact hstored
      · exact hrec id (h.known hst id hid) (List.all_eq_true.mp hall id hid)
    · subst heq
      refine ⟨?_, hrec, fun _ => h.known hst, fun hstart => ?_⟩
      · rw [hsince]
        exact hstored
      · exact absurd (hst.symm.trans hstart) (by simp)

/-- A round begins without graphs and without marks below `max_nb_robots_`. -/
theorem Collected.optimization {tr : List (Event P × List (Action P))} {now : ℤ}
    (h : Collected R tr s) :
    Collected R (tr ++ [(.optimization now, (optimizationCallback R s now).2)])
      (optimizationCallback R s now).1 := by
  unfold optimizationCallback
  split_ifs with hidle
  · refine ⟨fun id g hget => ?_, fun id hid hrec => ?_, fun hwait => ?_, fun hstart => ?_⟩
    · exact absurd hget (by simp [startWaiting, reinitializeReceivedPoseGraphs])
    · simp [startWaiting, reinitializeReceivedPoseGraphs, hid] at hrec
    · simp [startWaiting, reinitializeReceivedPoseGraphs, hidle.1] at hwait
    · simp [startWaiting, reinitializeReceivedPoseGraphs, hidle.1] at hstart
  · refine h.of_sameGraphs (.of_state_eq rfl rfl rfl rfl) ?_
    rw [receivedSince_concat]
    exact List.Subset.refl _

variable [Mul P] [Inv P] [One P]

/-- Every other callback but the list of neighbors. -/
theorem step_sameGraphs {e : Event P} {o : List (Action P)} (hn : ∀ msg, e ≠ .currentNeighbors msg)
    (hp : ∀ msg, e ≠ .poseGraph msg) (hopt : ∀ now, e ≠ .optimization now)
    (h : s.step R e = some (s', o)) : SameGraphs R s s' := by
  cases e with
  | currentNeighbors msg => exact absurd rfl (hn msg)
  | poseGraph msg => exact absurd rfl (hp msg)
  | optimization now => exact absurd rfl (hopt now)
  | odometry msg =>
    obtain ⟨s₁, h₁, heq⟩ := Option.map_eq_some_iff.mp h
    obtain ⟨rfl, -⟩ := Prod.mk.inj heq
    simp only [odometryCallback, Option.bind_eq_bind, Option.bind_eq_some_iff,
      Option.some.injEq] at h₁
    obtain ⟨_, -, _, -, rfl⟩ := h₁
    exact .of_state_eq rfl rfl rfl rfl
  | intraRobotLoopClosure msg =>
    obtain ⟨rfl, -⟩ := Prod.mk.inj (Option.some.inj h)
    obtain ⟨_, heq⟩ := intraRobotLoopClosureCallback_frame R s msg
    rw [heq]
    exact .of_state_eq rfl rfl rfl rfl
  | interRobotLoopClosure msg =>
    obtain ⟨rfl, -⟩ := Prod.mk.inj (Option.some.inj h)
    obtain ⟨_, _, heq⟩ := interRobotLoopClosureCallback_frame R s msg
    rw [heq]
    exact .of_state_eq rfl rfl rfl rfl
  | optimizedEstimates msg b =>
    rcases optimizedEstimatesCallback_cases h with ⟨-, rfl, -⟩ | ⟨-, -, -, _, _, -, -, heq⟩
    · exact .of_state_eq rfl rfl rfl rfl
    · rw [heq]
      exact .of_state_eq rfl rfl rfl rfl
  | optimizationLoop env => exact optimizationLoopCallback_sameGraphs h
  | getPoseGraph _ | heartbeat _ | broadcastTf =>
    obtain ⟨rfl, -⟩ := Prod.mk.inj (Option.some.inj h)
    exact .of_state_eq rfl rfl rfl rfl

/-- **Step lemma**, one case per callback that writes the graphs or the neighbors. -/
theorem Collected.step {tr : List (Event P × List (Action P))} {e : Event P}
    {o : List (Action P)} (h : Collected R tr s) (hs : s.step R e = some (s', o)) :
    Collected R (tr ++ [(e, o)]) s' := by
  cases e with
  | currentNeighbors msg =>
    obtain ⟨s₁, h₁, heq⟩ := Option.map_eq_some_iff.mp hs
    obtain ⟨rfl, rfl⟩ := Prod.mk.inj heq
    obtain ⟨b, -, rfl⟩ := Option.map_eq_some_iff.mp h₁
    -- the new neighbors are neither waited for nor started with
    refine ⟨fun id g hget => ?_, h.received, fun hwait => ?_, fun hstart => ?_⟩
    · rw [receivedSince_concat]
      exact h.stored id g hget
    · cases b <;> simp at hwait
    · cases b <;> simp at hstart
  | poseGraph msg =>
    obtain ⟨s₁, h₁, heq⟩ := Option.map_eq_some_iff.mp hs
    obtain ⟨rfl, rfl⟩ := Prod.mk.inj heq
    exact h.poseGraph h₁
  | optimization now =>
    obtain ⟨rfl, rfl⟩ := Prod.mk.inj (Option.some.inj hs)
    exact h.optimization
  | _ =>
    refine h.of_sameGraphs (step_sameGraphs (by simp) (by simp) (by simp) hs) ?_
    rw [receivedSince_concat]
    exact List.Subset.refl _

/-- **Run lemma**. -/
theorem collected_of_reaches {tr : List (Event P × List (Action P))}
    (h : (pgo P R).Reaches tr s) : Collected R tr s := by
  refine h.invariant (I := Collected R) ⟨?_, ?_, ?_, ?_⟩ fun _ _ _ _ _ _ ih _ hs => ih.step hs
  · exact fun id g hget => absurd hget (by simp [pgo, initialState])
  · exact fun id _ hrec => absurd hrec (by simp [pgo, initialState])
  · exact fun hwait => absurd hwait (by simp [pgo, initialState])
  · exact fun hstart => absurd hstart (by simp [pgo, initialState])

/-! ### Starting -/

/-- **An optimization starts with the graphs of all the neighbors at hand**: each has come since
the round began and is stored, and aggregating cannot fail for want of one. -/
theorem graphs_at_hand {tr : List (Event P × List (Action P))} (h : (pgo P R).Reaches tr s)
    (hst : s.optimizerState = .startOptimization) :
    (∀ id ∈ s.currentNeighborsIds.robots,
      ∃ msg ∈ receivedSince tr, msg.robotId = id ∧ Stored s msg) ∧
    ∀ beyond, aggregatePoseGraphs R s beyond = none →
      ∃ id ∈ s.currentNeighborsIds.robots,
        Clashes s (connectedRobotPoseGraph R s beyond).2 id := by
  have hc := collected_of_reaches h
  refine ⟨fun id hid => ?_, fun beyond => clashes_of_aggregatePoseGraphs (hc.ready hst)⟩
  obtain ⟨g, hg⟩ := hc.ready hst id hid
  exact hc.stored id g hg

/-- Robot 0 starts with the graph of robot 1. -/
theorem graphs_at_hand_one :
    ∃ tr s, (pgo (Multiplicative ℤ) robot0).Reaches tr s ∧
      ∃ msg ∈ receivedSince tr, msg.robotId = 1 ∧ Stored s msg := by
  obtain ⟨tr, s, hr, hst, hids⟩ :=
    Machine.exists_reaches_of_exec (M := pgo (Multiplicative ℤ) robot0)
      [.odometry ⟨0, 1⟩, .optimization 0, .currentNeighbors ⟨[1], [1]⟩, .optimizationLoop {},
        .poseGraph ⟨1, [⟨⟨1, 0⟩, 1⟩], [], []⟩]
      (p := fun r => r.2.optimizerState = .startOptimization ∧ r.2.currentNeighborsIds.robots = [1])
      (by decide +kernel)
  exact ⟨tr, s, hr, (graphs_at_hand hr hst).1 1 (hids ▸ List.mem_singleton_self 1)⟩

end RoverSwarm.Pgo
