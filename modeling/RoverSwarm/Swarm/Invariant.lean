import RoverSwarm.Swarm.Requests

/-!
# Swarm.Invariant — what holds in every run of the swarm

One step of one robot keeps what holds of it and of the messages; the other robots are not touched,
and what holds of them goes on holding while messages are added.  So it holds in every run, whatever
is delayed, reordered, duplicated or lost.
-/

namespace RoverSwarm.Swarm

open Exchange LidarHandler Pgo Selection Transition

variable {K Cloud P D T Gps : Type*} [Arithmetic K] {S : Setup K Cloud P D T}
  {ms : List (Message P D T)} {r : ℕ}

/-! ### The invariant -/

/-- The handler has the clouds that robot `r` published. -/
def HandlerOk (ms : List (Message P D T)) (r : ℕ) (handler : LidarHandler.State K Cloud P Gps) :
    Prop :=
  ∀ id pointcloud, .keyframeData r id pointcloud ∈ ms →
    id < handler.nbLocalKeyframes ∧ handler.localDescriptorsMap.get? id = some pointcloud

structure RobotOk (S : Setup K Cloud P D T) (ms : List (Message P D T)) (r : ℕ) (robot : Robot S Gps) :
    Prop where
  detector : DetectorOk S ms r robot.detector
  handler : HandlerOk ms r robot.handler
  aligned : Aligned (S.handlerOf r) robot.handler

structure Ok (s : State S Gps) : Prop where
  robots : ∀ r < S.nbRobots, RobotOk S s.published r (s.robots r)
  messages : ∀ m ∈ s.published, MessageOk S s.published m

section Unique

variable {s : State S Gps}

/-- A robot does not publish two clouds for one keyframe. -/
theorem Ok.cloud_unique (h : Ok s) {v : Vertex} {pc pc' : List P}
    (hpc : .keyframeData v.1 v.2 pc ∈ s.published)
    (hpc' : .keyframeData v.1 v.2 pc' ∈ s.published) : pc = pc' := by
  have hhandler := (h.robots v.1 (h.messages _ hpc)).handler
  have hget := (hhandler v.2 pc hpc).2
  exact Option.some.inj (hget.symm.trans (hhandler v.2 pc' hpc').2)

theorem Ok.measured_unique (h : Ok s) {v w : Vertex} {outcome outcome' : T × Bool}
    (hm : Measured S s.published v w outcome) (hm' : Measured S s.published v w outcome') :
    outcome = outcome' := by
  obtain ⟨pc0, pc1, h0, h1, rfl⟩ := hm
  obtain ⟨pc0', pc1', h0', h1', rfl⟩ := hm'
  rw [h.cloud_unique h0 h0', h.cloud_unique h1 h1']

end Unique

/-- The message is no cloud of a keyframe. -/
def NoCloud (m : Message P D T) : Prop := ∀ robot id pointcloud, m ≠ .keyframeData robot id pointcloud

/-- What a step of robot `r` publishes leaves it and the messages as they should be, and the clouds
it publishes are its own. -/
structure StepOk (S : Setup K Cloud P D T) (ms : List (Message P D T)) (r : ℕ) (robot : Robot S Gps)
    (msgs : List (Message P D T)) : Prop where
  robot : RobotOk S (ms ++ msgs) r robot
  messages : ∀ m ∈ msgs, MessageOk S (ms ++ msgs) m
  own : ∀ robot id pointcloud, .keyframeData robot id pointcloud ∈ msgs → robot = r

/-- A step that leaves the handler alone and publishes no cloud. -/
theorem StepOk.of_noCloud {robot robot' : Robot S Gps} {msgs : List (Message P D T)}
    (h : RobotOk S ms r robot) (hhandler : robot'.handler = robot.handler)
    (hdetector : DetectorOk S ms r robot'.detector)
    (hmsgs : ∀ m ∈ msgs, NoCloud m ∧ MessageOk S ms m) : StepOk S ms r robot' msgs where
  robot :=
    { detector := hdetector.mono (List.subset_append_left _ _)
      handler := fun id pointcloud hmem => by
        rcases List.mem_append.mp hmem with hmem | hmem
        · rw [hhandler]
          exact h.handler id pointcloud hmem
        · exact absurd rfl ((hmsgs _ hmem).1 r id pointcloud)
      aligned := hhandler ▸ h.aligned }
  messages m hm := (hmsgs m hm).2.mono (List.subset_append_left _ _)
  own robot id pointcloud hmem := absurd rfl ((hmsgs _ hmem).1 robot id pointcloud)

/-! ### Sensors -/

omit [Arithmetic K] in
theorem mem_clouds {handlerMsgs : List (LidarHandler.Msg K P Gps)} {o id : ℕ} {pointcloud : List P}
    (h : Message.keyframeData o id pointcloud ∈
      (clouds handlerMsgs).map fun x => (.keyframeData r x.1 x.2 : Message P D T)) :
    o = r ∧ (id, pointcloud) ∈ clouds handlerMsgs := by
  obtain ⟨x, hx, heq⟩ := List.mem_map.mp h
  obtain ⟨rfl, rfl, rfl⟩ := Message.keyframeData.inj heq
  exact ⟨rfl, hx⟩

/-- **A callback of the handler**: it does not raise, and the clouds stay in the map. -/
theorem exists_sensor (hr : r < S.nbRobots) {robot : Robot S Gps} (h : RobotOk S ms r robot)
    (e : LidarHandler.Event K Cloud Gps) :
    ∃ handler msgs, LidarHandler.step (S.handlerOf r) S.downsample robot.handler e =
        some (handler, msgs) ∧
      StepOk S ms r { robot with handler := handler }
        ((clouds msgs).map fun x => .keyframeData r x.1 x.2) := by
  obtain ⟨⟨handler, msgs⟩, hstep⟩ := h.aligned.exists_step S.downsample e
  have hkeeps := step_keeps hstep
  refine ⟨handler, msgs, hstep, ⟨h.detector.mono (List.subset_append_left _ _),
    fun id pointcloud hmem => ?_, h.aligned.step hstep⟩,
    fun m hm => ?_, fun o id pointcloud hmem => (mem_clouds hmem).1⟩
  · rcases List.mem_append.mp hmem with hmem | hmem
    · obtain ⟨hlt, hget⟩ := h.handler id pointcloud hmem
      exact ⟨hlt.trans_le hkeeps.counter, (hkeeps.old id hlt).trans hget⟩
    · exact hkeeps.new _ (mem_clouds hmem).2
  · obtain ⟨x, -, rfl⟩ := List.mem_map.mp hm
    exact hr

/-! ### Registration -/

section Register

variable {robot : Robot S Gps}

/-- The cloud of a keyframe that is similar to another one. -/
theorem exists_cloud (h : HandlerOk ms r robot.handler) {kf : ℕ} {w : Vertex}
    (hsimilar : Similar S ms w (r, kf)) :
    ∃ pc, .keyframeData r kf pc ∈ ms ∧ robot.handler.localDescriptorsMap.get? kf = some pc := by
  obtain ⟨-, d, -, ⟨pc, hmem, -⟩, -⟩ := hsimilar.similar
  exact ⟨pc, hmem, (h kf pc hmem).2⟩

/-- What registering the own keyframe `kf` with the cloud of a message comes to. -/
def Robot.outcome (S : Setup K Cloud P D T) (robot : Robot S Gps) (data : List P) (kf : ℕ) :
    T × Bool := S.computeTransform ((robot.handler.localDescriptorsMap.get? kf).getD []) data

/-- The loop closures of the own keyframes of a message. -/
def Robot.closures (S : Setup K Cloud P D T) (r : ℕ) (robot : Robot S Gps)
    (msg : LidarHandler.LocalPointCloudDescriptors P) : List (InterRobotLoopClosure T) :=
  (frameIds r msg.toLocalPointCloudDescriptors).map fun kf =>
    register r S.unset msg.toLocalPointCloudDescriptors kf (robot.outcome S msg.data kf)

/-- **No lookup of `receive_local_descriptors` raises.** -/
theorem receiveLocalDescriptors_eq (h : HandlerOk ms r robot.handler)
    {msg : LidarHandler.LocalPointCloudDescriptors P}
    (hm : MessageOk S ms (.localDescriptors msg : Message P D T)) :
    LidarHandler.receiveLocalDescriptors S.computeTransform S.unset (S.handlerOf r) robot.handler
      msg = (robot.closures S r msg, true) := by
  refine registerAll_of_some fun kf hkf => ?_
  obtain ⟨pc, -, hget⟩ := exists_cloud h (hm.1.similar _ (mem_frameIds.mp hkf))
  rw [Robot.outcome, hget]
  rfl

/-- A loop closure is between clouds that were published. -/
theorem messageOk_register (h : HandlerOk ms r robot.handler)
    {msg : LidarHandler.LocalPointCloudDescriptors P}
    (hm : MessageOk S ms (.localDescriptors msg : Message P D T)) {kf : ℕ}
    (hkf : kf ∈ frameIds r msg.toLocalPointCloudDescriptors) :
    MessageOk S ms (.interRobotLoopClosure (register r S.unset msg.toLocalPointCloudDescriptors
      kf (robot.outcome S msg.data kf)) : Message P D T) := by
  have hsimilar := hm.1.similar _ (mem_frameIds.mp hkf)
  obtain ⟨pc, hmem, hget⟩ := exists_cloud h hsimilar
  refine ⟨hsimilar.symm, pc, msg.data, hmem, hm.2, ?_⟩
  rw [Robot.outcome, hget]
  rfl

theorem exists_receiveLocalKeyframeMatch (h : HandlerOk ms r robot.handler) {kf kf' : ℕ}
    (hm : LocallySimilar S ms r kf kf') :
    ∃ msg : IntraRobotLoopClosure T,
      receiveLocalKeyframeMatch S.computeTransform S.unset robot.handler kf kf' = some msg ∧
        MessageOk S ms (.intraRobotLoopClosure r msg : Message P D T) := by
  obtain ⟨d, d', ⟨pc, hmem, hpc⟩, ⟨pc', hmem', hpc'⟩, hrest⟩ := id hm
  have hget := (h kf pc hmem).2
  have hget' := (h kf' pc' hmem').2
  unfold receiveLocalKeyframeMatch
  rw [hget, hget']
  exact ⟨_, rfl, hm, pc, pc', hmem, hmem', rfl⟩

end Register

/-! ### Deliveries -/

/-- The robot subscribes to the topic of the message. -/
def Subscribes (r : ℕ) : Message P D T → Prop
  | .keyframeData dest _ _ => dest = r
  | .localKeyframeMatch dest _ _ => dest = r
  | .localDescriptorsRequest dest _ => dest = r
  | .intraRobotLoopClosure _ _ => False
  | _ => True

/-- **A delivery**: no callback raises, and what it does is as it should be. -/
theorem exists_receive (hr : r < S.nbRobots) {robot : Robot S Gps} (h : RobotOk S ms r robot)
    {m : Message P D T} (hmem : m ∈ ms) (hm : MessageOk S ms m) (hsub : Subscribes r m) :
    ∃ robot' msgs, robot.receive S r m = some (robot', msgs) ∧ StepOk S ms r robot' msgs := by
  have hnone : ∀ m ∈ ([] : List (Message P D T)), NoCloud m ∧ MessageOk S ms m :=
    fun _ h => absurd h List.not_mem_nil
  cases m with
  | keyframeData dest id pointcloud =>
    obtain rfl : dest = r := hsub
    obtain ⟨g, localMatch, hadd, hdetector, hlocal⟩ := h.detector.addGlobalDescriptorToMap hr
      ⟨pointcloud, hmem, rfl⟩
    refine ⟨_, _, (if_pos rfl).trans (congrArg (Option.map _) hadd),
      .of_noCloud h rfl hdetector fun m hm => ?_⟩
    obtain ⟨x, hx, rfl⟩ := Option.map_eq_some_iff.mp (Option.mem_toList.mp hm)
    exact ⟨nofun, hlocal x hx⟩
  | globalDescriptors descriptors =>
    obtain ⟨g, hg, hdetector⟩ := h.detector.globalDescriptorCallback hr hm
    exact ⟨_, _, congrArg (Option.map _) hg, .of_noCloud h rfl hdetector hnone⟩
  | interRobotMatches msg =>
    obtain ⟨g, hg, hdetector⟩ := h.detector.interRobotMatchesCallback hm
    exact ⟨_, _, congrArg (Option.map _) hg, .of_noCloud h rfl hdetector hnone⟩
  | localKeyframeMatch dest kf kf' =>
    obtain rfl : dest = r := hsub
    obtain ⟨msg, hmsg, hok⟩ := exists_receiveLocalKeyframeMatch h.handler hm
    refine ⟨robot, [.intraRobotLoopClosure dest msg], ?_, .of_noCloud h rfl h.detector ?_⟩
    · rw [Robot.receive, if_pos rfl, hmsg]
      rfl
    · intro m hm
      obtain rfl := List.mem_singleton.mp hm
      exact ⟨nofun, hok⟩
  | localDescriptorsRequest dest request =>
    obtain rfl : dest = r := hsub
    obtain ⟨pc, hcloud⟩ := hm.known
    have hget := (h.handler request.keyframeId pc hcloud).2
    refine ⟨robot, [.localDescriptors (answer (S.handlerOf dest) request pc)], ?_,
      .of_noCloud h rfl h.detector ?_⟩
    · rw [Robot.receive, if_pos rfl, sendLocalDescriptorsRequest, hget]
      rfl
    · intro m hmsg
      obtain rfl := List.mem_singleton.mp hmsg
      exact ⟨nofun, hm, hcloud⟩
  | localDescriptors msg =>
    refine ⟨robot, (robot.closures S r msg).map .interRobotLoopClosure, ?_,
      .of_noCloud h rfl h.detector ?_⟩
    · rw [Robot.receive, receiveLocalDescriptors_eq h.handler hm]
      rfl
    · intro m hmsg
      obtain ⟨closure, hclosure, rfl⟩ := List.mem_map.mp hmsg
      obtain ⟨kf, hkf, rfl⟩ := List.mem_map.mp hclosure
      exact ⟨nofun, messageOk_register h.handler hm hkf⟩
  | interRobotLoopClosure msg =>
    exact ⟨_, _, rfl, .of_noCloud h rfl (h.detector.withSelector
      (h.detector.selector.receiveInterRobotLoopClosure msg)) hnone⟩
  | intraRobotLoopClosure dest msg => exact hsub.elim

/-- What is delivered is subscribed to. -/
theorem subscribes_of_receive {robot robot' : Robot S Gps} {m : Message P D T}
    {msgs : List (Message P D T)} (h : robot.receive S r m = some (robot', msgs)) :
    Subscribes r m := by
  cases m with
  | keyframeData dest id pointcloud => exact (Option.ite_none_right_eq_some.mp h).1
  | globalDescriptors descriptors => trivial
  | interRobotMatches msg => trivial
  | localKeyframeMatch dest kf kf' => exact (Option.ite_none_right_eq_some.mp h).1
  | localDescriptorsRequest dest request => exact (Option.ite_none_right_eq_some.mp h).1
  | localDescriptors msg => trivial
  | interRobotLoopClosure msg => trivial
  | intraRobotLoopClosure dest msg => exact absurd h (by simp [Robot.receive])

/-! ### Steps and runs -/

/-- **Step lemma**, one case per event. -/
theorem RobotOk.act (hr : r < S.nbRobots) {robot robot' : Robot S Gps} (h : RobotOk S ms r robot)
    (hall : ∀ m ∈ ms, MessageOk S ms m) {e : Event K Cloud Gps} (he : e.robot = r)
    {msgs : List (Message P D T)} (hact : robot.act S ms e = some (robot', msgs)) :
    StepOk S ms r robot' msgs := by
  cases e with
  | sensor q e =>
    obtain rfl : q = r := he
    obtain ⟨handler, msgs', hstep, hok⟩ := exists_sensor hr h e
    have hact' : robot.act S ms (.sensor q e) = _ := congrArg (Option.map _) hstep
    obtain ⟨rfl, rfl⟩ := Prod.mk.inj (Option.some.inj (hact'.symm.trans hact))
    exact hok
  | heartbeat q rid data now later =>
    obtain ⟨-, hact⟩ := Option.ite_none_right_eq_some.mp hact
    obtain ⟨rfl, rfl⟩ := Prod.mk.inj (Option.some.inj hact)
    exact .of_noCloud h rfl { h.detector with } fun _ hm => absurd hm List.not_mem_nil
  | descriptorsTimer q now now' =>
    obtain rfl : q = r := he
    obtain ⟨rfl, rfl⟩ := Prod.mk.inj (Option.some.inj hact)
    obtain ⟨hdetector, hmsgs⟩ := h.detector.globalDescriptorsTimerCallback hr now now'
    refine .of_noCloud h rfl hdetector fun m hm => ?_
    obtain ⟨msg, hmsg, rfl⟩ := List.mem_map.mp hm
    exact ⟨nofun, hmsgs msg hmsg⟩
  | matchesTimer q now now' now'' =>
    obtain rfl : q = r := he
    obtain ⟨rfl, rfl⟩ := Prod.mk.inj (Option.some.inj hact)
    obtain ⟨hdetector, hmsgs⟩ := h.detector.interRobotMatchesTimerCallback now now' now''
    refine .of_noCloud h rfl hdetector fun m hm => ?_
    obtain ⟨msg, hmsg, rfl⟩ := List.mem_map.mp hm
    exact ⟨nofun, hmsgs msg hmsg⟩
  | detectInter q env =>
    obtain rfl : q = r := he
    obtain ⟨⟨g, selection, requests⟩, hd, heq⟩ := Option.map_eq_some_iff.mp hact
    obtain ⟨rfl, rfl⟩ := Prod.mk.inj heq
    obtain ⟨hdetector, hasked⟩ := h.detector.detectInter hd
    refine .of_noCloud h rfl hdetector fun m hm => ?_
    obtain ⟨x, hx, rfl⟩ := List.mem_map.mp hm
    exact ⟨nofun, hasked x hx⟩
  | deliver q i =>
    obtain rfl : q = r := he
    obtain ⟨m, hget, hrec⟩ := Option.bind_eq_some_iff.mp hact
    have hmem := List.mem_of_getElem? hget
    obtain ⟨robot₁, msgs₁, hrec₁, hok⟩ := exists_receive hr h hmem (hall m hmem)
      (subscribes_of_receive hrec)
    obtain ⟨rfl, rfl⟩ := Prod.mk.inj (Option.some.inj (hrec₁.symm.trans hrec))
    exact hok

variable [Inhabited Gps]

/-- A step of the swarm is one of one robot. -/
theorem swarm_step {s s' : State S Gps} {e : Event K Cloud Gps} {o : List (Message P D T)}
    (h : (swarm S Gps).step s e = some (s', o)) :
    e.robot < S.nbRobots ∧ ∃ robot, (s.robots e.robot).act S s.published e = some (robot, o) ∧
      s' = { robots := Function.update s.robots e.robot robot, published := s.published ++ o } := by
  obtain ⟨hr, hmap⟩ := Option.ite_none_right_eq_some.mp h
  obtain ⟨⟨robot, o'⟩, hact, heq⟩ := Option.map_eq_some_iff.mp hmap
  obtain ⟨rfl, rfl⟩ := Prod.mk.inj heq
  exact ⟨hr, robot, hact, rfl⟩

theorem Ok.step {s s' : State S Gps} (h : Ok s) {e : Event K Cloud Gps} {o : List (Message P D T)}
    (hs : (swarm S Gps).step s e = some (s', o)) : Ok s' := by
  obtain ⟨hr, robot, hact, rfl⟩ := swarm_step hs
  have hok := (h.robots e.robot hr).act hr h.messages rfl hact
  constructor
  · intro q hq
    by_cases hqr : q = e.robot
    · subst hqr
      show RobotOk S _ _ (Function.update s.robots e.robot robot e.robot)
      rw [Function.update_self]
      exact hok.robot
    · show RobotOk S _ q (Function.update s.robots e.robot robot q)
      rw [Function.update_of_ne hqr]
      refine ⟨(h.robots q hq).detector.mono (List.subset_append_left _ _),
        fun id pointcloud hmem => ?_, (h.robots q hq).aligned⟩
      rcases List.mem_append.mp hmem with hmem | hmem
      · exact (h.robots q hq).handler id pointcloud hmem
      · exact absurd (hok.own q id pointcloud hmem) hqr
  · intro m hm
    rcases List.mem_append.mp hm with hm | hm
    · exact (h.messages m hm).mono (List.subset_append_left _ _)
    · exact hok.messages m hm

theorem Ok.init (S : Setup K Cloud P D T) : Ok (swarm S Gps).init where
  robots r _ :=
    { detector :=
        { locals := stored_empty r
          others := fun o => stored_empty o
          selector :=
            { valid := AlgebraicConnectivityMaximization.Valid.init (S.selectionOf r)
              fresh := ⟨fun _ he => absurd he List.not_mem_nil, fun _ he => absurd he List.not_mem_nil⟩
              robotId := rfl
              similar := fun _ he => absurd he List.not_mem_nil }
          robotId := rfl
          maxNbRobots := rfl
          descriptors := fun _ hx => absurd hx List.not_mem_nil
          matches_ := fun _ hx => absurd hx List.not_mem_nil }
      handler := fun _ _ hmem => absurd hmem List.not_mem_nil
      aligned := fun _ => rfl }
  messages _ hm := absurd hm List.not_mem_nil

/-- **Run lemma.** -/
theorem ok_of_reaches {tr : List (Event K Cloud Gps × List (Message P D T))} {s : State S Gps}
    (h : (swarm S Gps).Reaches tr s) : Ok s :=
  h.invariant (I := fun _ s => Ok s) (Ok.init S) fun _ _ _ _ _ _ hok _ hs => hok.step hs

end RoverSwarm.Swarm
