import RoverSwarm.Swarm.Later

/-!
# Swarm.LoopClosures — from a selected edge to its loop closure

A request, the clouds that answer it and the loop closures that answer these are three messages that
travel on their own.  None of them makes a callback raise (`step_isSome_iff`), and what comes out at
the end is measured between clouds of similar keyframes (`loopClosures_sound`,
`loopClosures_agree`).  If the first two arrive, every selected edge has its loop closure
(`exists_loopClosure`).
-/

namespace RoverSwarm.Swarm

open Exchange LidarHandler Pgo Selection Transition GlobalDescriptorLoopClosureDetection

variable {K Cloud P D T Gps : Type*} [Arithmetic K] {S : Setup K Cloud P D T} [Inhabited Gps]
  {tr : List (Event K Cloud Gps × List (Message P D T))} {s : State S Gps} {r : ℕ}

/-! ### What raises -/

/-- A delivery is one of a message that was published, to a robot that subscribes to it, and a
heartbeat is one of another robot. -/
def Possible (s : State S Gps) : Event K Cloud Gps → Prop
  | .deliver r i => ∃ m, s.published[i]? = some m ∧ Subscribes r m
  | .heartbeat r rid _ _ _ => rid < S.nbRobots ∧ rid ≠ r
  | _ => True

/-- If the robot is asked to select edges, the selection does not raise. -/
def Selects (s : State S Gps) : Event K Cloud Gps → Prop
  | .detectInter r env => IsBroker (s.robots r).detector env →
    (selected S (s.robots r).detector env).isSome
  | _ => True

theorem detectInter_isSome_iff {ms : List (Message P D T)}
    {g : GlobalDescriptorLoopClosureDetection S.matcher} (h : DetectorOk S ms r g)
    (env : DetectEnv) : (g.detectInter (S.detectionOf r) S.nx S.order env).isSome ↔
      (IsBroker g env → (selected S g env).isSome) := by
  by_cases hbroker : IsBroker g env
  · rw [forall_prop_of_true hbroker]
    cases hs : selected S g env with
    | none =>
      have hselect : g.lcm.candidateSelector.selectCandidates env.selection
        (S.detectionOf r).interRobotLoopClosureBudget
        (g.neighborManager.checkNeighborsInRange env.now).1 true = none := hs
      obtain ⟨hpos, hown⟩ := hbroker
      unfold GlobalDescriptorLoopClosureDetection.detectInter
      dsimp only
      rw [if_pos ⟨hpos, hown⟩, hselect]
      simp
    | some x =>
      obtain ⟨requests, hrequests, -⟩ := h.exists_requests hbroker hs
      rw [hrequests]
      simp
  · have hnone : g.detectInter (S.detectionOf r) S.nx S.order env = some (g, [], []) :=
      if_neg fun h => hbroker ⟨h.1, h.2⟩
    rw [hnone]
    exact iff_of_true rfl fun h => absurd h hbroker

/-- **Nothing raises but the selection**: no lookup of a cloud, of a GPS fix, of a descriptor, of a
robot or of a vertex fails, in any state a run leads to. -/
theorem step_isSome_iff (h : (swarm S Gps).Reaches tr s) {e : Event K Cloud Gps}
    (hr : e.robot < S.nbRobots) (hpossible : Possible s e) :
    ((swarm S Gps).step s e).isSome ↔ Selects s e := by
  have hok := ok_of_reaches h
  have hstep : ((swarm S Gps).step s e).isSome ↔
      ((s.robots e.robot).act S s.published e).isSome := by
    show (if _ then _ else _ : Option _).isSome ↔ _
    rw [if_pos hr, Option.isSome_map]
  rw [hstep]
  cases e with
  | sensor r e =>
    obtain ⟨handler, msgs, hsensor, -⟩ := exists_sensor hr (hok.robots r hr) e
    refine iff_of_true ?_ trivial
    rw [Robot.act, Option.isSome_map]
    exact Option.isSome_iff_exists.mpr ⟨_, hsensor⟩
  | heartbeat r rid data now later =>
    have hdetector := (hok.robots r hr).detector
    have hother : rid ∈ (s.robots r).detector.neighborManager.others := by
      rw [NeighborManager.others, hdetector.robotId, hdetector.maxNbRobots, List.mem_filter,
        List.mem_range]
      exact ⟨hpossible.1, decide_eq_true hpossible.2⟩
    exact iff_of_true (Option.isSome_iff_exists.mpr ⟨_, if_pos hother⟩) trivial
  | descriptorsTimer r now now' => exact iff_of_true rfl trivial
  | matchesTimer r now now' now'' => exact iff_of_true rfl trivial
  | detectInter r env =>
    rw [Robot.act, Option.isSome_map]
    exact detectInter_isSome_iff (hok.robots r hr).detector env
  | deliver r i =>
    obtain ⟨m, hget, hsub⟩ := hpossible
    have hmem := List.mem_of_getElem? hget
    obtain ⟨robot, msgs, hrec, -⟩ := exists_receive hr (hok.robots r hr) hmem
      (hok.messages m hmem) hsub
    refine iff_of_true ?_ trivial
    rw [Robot.act, hget, Option.bind_some]
    exact Option.isSome_iff_exists.mpr ⟨_, hrec⟩

/-- The match that robot 0 selects. -/
def theMatch : EdgeInterRobot := ⟨0, 0, 1, 0, 1⟩

open scoped Arithmetic.Exact

/-- Everything that is published until the keyframes are registered. -/
def correspondence : List (Message ℚ (NearestNeighborsMatching.Vec 2) ℚ) :=
  [.keyframeData 0 0 [3, 4], .keyframeData 1 0 [6, 8],
    .globalDescriptors [⟨0, 1, ⟨[6, 8], rfl⟩⟩], .localDescriptorsRequest 0 ⟨0, [(1, 0)]⟩,
    .localDescriptors ⟨⟨0, 0, [(1, 0)]⟩, [3, 4]⟩, .interRobotLoopClosure verified,
    .interRobotLoopClosure verified]

/-- Where robot 0 is about to select it. -/
theorem reaches_encounter : ∃ tr s, (swarm pair ℚ).Reaches tr s ∧
    IsBroker (s.robots 0).detector selectNow ∧
    (selected pair (s.robots 0).detector selectNow).map Prod.snd = some [theMatch] ∧
    ((swarm pair ℚ).execFrom s verify).map (fun x => x.2.published) = some correspondence :=
  Machine.exists_reaches_of_exec encounter
    (p := fun x => IsBroker (x.2.robots 0).detector selectNow ∧
      (selected pair (x.2.robots 0).detector selectNow).map Prod.snd = some [theMatch] ∧
      ((swarm pair ℚ).execFrom x.2 verify).map (fun x => x.2.published) = some correspondence)
    (by decide +kernel)

/-- Where the two loop closures have been published, and robot 0 selects again. -/
theorem reaches_verified : ∃ tr s, (swarm pair ℚ).Reaches tr s ∧ s.published = correspondence ∧
    (selected pair (s.robots 0).detector selectNow).isSome :=
  Machine.exists_reaches_of_exec (M := swarm pair ℚ) (encounter ++ verify)
    (p := fun x => x.2.published = correspondence ∧
      (selected pair (x.2.robots 0).detector selectNow).isSome = true) (by decide +kernel)

/-- Each robot takes every message of the run that it subscribes to, and a cloud of its own. -/
theorem step_isSome_correspondence : ∃ tr s, (swarm pair ℚ).Reaches tr s ∧
    (∀ r < 2, ∀ i m, correspondence[i]? = some m → Subscribes r m →
      ((swarm pair ℚ).step s (.deliver r i)).isSome) ∧
    (∀ r < 2, ((swarm pair ℚ).step s (.sensor r (.lidarCallback [1, 0] ⟨⟨9, 0, 0⟩, 0⟩))).isSome) ∧
    ((swarm pair ℚ).step s (.detectInter 0 selectNow)).isSome := by
  obtain ⟨tr, s, h, hpublished, hselected⟩ := reaches_verified
  have hselects : Selects s (.detectInter 0 selectNow) := fun _ => hselected
  refine ⟨tr, s, h, fun r hr i m hm hsub => ?_, fun r hr => ?_, ?_⟩
  · exact (step_isSome_iff h (e := .deliver r i) hr ⟨m, hpublished ▸ hm, hsub⟩).mpr trivial
  · exact (step_isSome_iff h (e := .sensor r _) hr trivial).mpr trivial
  · exact (step_isSome_iff h (e := .detectInter 0 selectNow) (by decide) trivial).mpr hselects

/-! ### What is measured -/

/-- **Loop closures are sound**: one between two robots is between keyframes that are similar
enough, one within a robot between keyframes that are far enough as well, and the transform is the
one between their clouds. -/
theorem loopClosures_sound (h : (swarm S Gps).Reaches tr s) :
    (∀ msg, .interRobotLoopClosure msg ∈ s.published →
      Similar S s.published (msg.robot0Id, msg.robot0KeyframeId)
          (msg.robot1Id, msg.robot1KeyframeId) ∧
        Measured S s.published (msg.robot0Id, msg.robot0KeyframeId)
          (msg.robot1Id, msg.robot1KeyframeId) (msg.transform, msg.success)) ∧
    ∀ robot msg, .intraRobotLoopClosure robot msg ∈ s.published →
      LocallySimilar S s.published robot msg.keyframe0Id msg.keyframe1Id ∧
        Measured S s.published (robot, msg.keyframe0Id) (robot, msg.keyframe1Id)
          (msg.transform, msg.success) :=
  ⟨fun _ hmsg => (ok_of_reaches h).messages _ hmsg,
    fun _ _ hmsg => (ok_of_reaches h).messages _ hmsg⟩

theorem loopClosures_sound_verified : ∃ tr s, (swarm pair ℚ).Reaches tr s ∧
    Measured pair s.published (1, 0) (0, 0) (7, true) := by
  obtain ⟨tr, s, h, hpublished, -⟩ := reaches_verified
  have hmem : Message.interRobotLoopClosure verified ∈ s.published := by
    rw [hpublished]
    exact List.mem_of_getElem? (i := 5) rfl
  exact ⟨tr, s, h, ((loopClosures_sound h).1 verified hmem).2⟩

/-- **Loop closures agree**: however often a pair of keyframes is asked for, and whatever is
delivered twice, the loop closures between the two in one order are all the same. -/
theorem loopClosures_agree (h : (swarm S Gps).Reaches tr s) {msg msg' : InterRobotLoopClosure T}
    (hmsg : .interRobotLoopClosure msg ∈ s.published)
    (hmsg' : .interRobotLoopClosure msg' ∈ s.published)
    (h0 : (msg.robot0Id, msg.robot0KeyframeId) = (msg'.robot0Id, msg'.robot0KeyframeId))
    (h1 : (msg.robot1Id, msg.robot1KeyframeId) = (msg'.robot1Id, msg'.robot1KeyframeId)) :
    msg = msg' := by
  have hok := ok_of_reaches h
  obtain ⟨-, hm⟩ := hok.messages _ hmsg
  obtain ⟨-, hm'⟩ := hok.messages _ hmsg'
  rw [h0, h1] at hm
  have houtcome := hok.measured_unique hm hm'
  cases msg
  cases msg'
  simp only [Prod.mk.injEq] at h0 h1 houtcome
  obtain ⟨rfl, rfl⟩ := h0
  obtain ⟨rfl, rfl⟩ := h1
  obtain ⟨rfl, rfl⟩ := houtcome
  rfl

theorem loopClosures_agree_verified : ∃ tr s, (swarm pair ℚ).Reaches tr s ∧
    ∀ msg, .interRobotLoopClosure msg ∈ s.published →
      (msg.robot0Id, msg.robot0KeyframeId) = (1, 0) →
      (msg.robot1Id, msg.robot1KeyframeId) = (0, 0) → msg = verified := by
  obtain ⟨tr, s, h, hpublished, -⟩ := reaches_verified
  have hmem : Message.interRobotLoopClosure verified ∈ s.published := by
    rw [hpublished]
    exact List.mem_of_getElem? (i := 5) rfl
  exact ⟨tr, s, h, fun msg hmsg h0 h1 => loopClosures_agree h hmsg hmem h0 h1⟩

/-! ### What becomes of a selected edge -/

/-- A request that has been delivered has been answered with the cloud of its keyframe. -/
theorem exists_answer (h : (swarm S Gps).Reaches tr s) {i : ℕ} (hd : Delivered tr r i)
    {request : LocalDescriptorsRequest}
    (hm : s.published[i]? = some (.localDescriptorsRequest r request)) :
    ∃ data, .keyframeData r request.keyframeId data ∈ s.published ∧
      .localDescriptors (answer (S.handlerOf r) request data) ∈ s.published := by
  obtain ⟨s₀, -, -, -, robot, o, hrec, hsub, -⟩ := exists_receive_of_delivered h hd hm
  rw [Robot.receive, if_pos rfl, sendLocalDescriptorsRequest, Option.map_map] at hrec
  obtain ⟨data, -, heq⟩ := Option.map_eq_some_iff.mp hrec
  obtain ⟨-, rfl⟩ := Prod.mk.inj heq
  have hanswer := hsub (List.mem_singleton_self _)
  exact ⟨data, ((ok_of_reaches h).messages _ hanswer).2, hanswer⟩

/-- Clouds that have been delivered have been registered with the own keyframes they are for. -/
theorem exists_closure (h : (swarm S Gps).Reaches tr s) {i : ℕ} (hd : Delivered tr r i)
    {msg : LidarHandler.LocalPointCloudDescriptors P}
    (hm : s.published[i]? = some (.localDescriptors msg))
    {kf : ℕ} (hkf : (r, kf) ∈ msg.matchesRobotAndKeyframeId) :
    ∃ closure : InterRobotLoopClosure T, .interRobotLoopClosure closure ∈ s.published ∧
      (closure.robot0Id, closure.robot0KeyframeId) = (r, kf) ∧
      (closure.robot1Id, closure.robot1KeyframeId) = (msg.robotId, msg.keyframeId) := by
  obtain ⟨s₀, hok, hr, hmem, robot, o, hrec, hsub, -⟩ := exists_receive_of_delivered h hd hm
  rw [Robot.receive, receiveLocalDescriptors_eq (hok.robots r hr).handler (hok.messages _ hmem)]
    at hrec
  obtain ⟨-, rfl⟩ := Prod.mk.inj (Option.some.inj hrec)
  exact ⟨_, hsub (List.mem_map_of_mem (List.mem_map_of_mem (mem_frameIds.mpr hkf))), rfl, rfl⟩

/-- The step of a broker that selects: its requests ask for every edge it has selected. -/
theorem exists_selecting_step (h : (swarm S Gps).Reaches tr s)
    {pre : List (Event K Cloud Gps × List (Message P D T))} {env : DetectEnv}
    {o : List (Message P D T)} (hp : pre ++ [(.detectInter r env, o)] <+: tr) {s₀ : State S Gps}
    (h₀ : (swarm S Gps).Reaches pre s₀) (hbroker : IsBroker (s₀.robots r).detector env)
    {selector : AlgebraicConnectivityMaximization} {selection : List EdgeInterRobot}
    (hs : selected S (s₀.robots r).detector env = some (selector, selection)) :
    ∃ requests : List (ℕ × LocalDescriptorsRequest),
      (∀ e ∈ selection, ∃ x ∈ requests, Asks x e) ∧
      (∀ x ∈ requests, .localDescriptorsRequest x.1 x.2 ∈ s.published) ∧
      ∀ e ∈ selection, edgeKey e ∈ considered (s.robots r).detector := by
  obtain ⟨s₀', s₁, hpre, hstep, hlater⟩ := exists_step h hp
  obtain rfl := hpre.unique h₀
  obtain ⟨hr, robot, hact, rfl⟩ := swarm_step hstep
  have hdetector := ((ok_of_reaches h₀).robots r hr).detector
  obtain ⟨requests, hdetect, hasks⟩ := hdetector.exists_requests hbroker hs
  have hmap : ((s₀'.robots r).detector.detectInter (S.detectionOf r) S.nx S.order env).map
      (fun x => ({ s₀'.robots r with detector := x.1 },
        x.2.2.map fun x => Message.localDescriptorsRequest x.1 x.2)) = some (robot, o) := hact
  rw [hdetect] at hmap
  obtain ⟨rfl, rfl⟩ := Prod.mk.inj (Option.some.inj hmap)
  refine ⟨requests, hasks, fun x hx => ?_, fun e he => ?_⟩
  · refine hlater.published.subset (List.mem_append_right _ ?_)
    exact List.mem_map_of_mem (f := fun x => Message.localDescriptorsRequest x.1 x.2) hx
  · have hnow := considered_of_selected hdetector hdetect he
    refine hlater.considered r ?_
    show _ ∈ considered (Function.update s₀'.robots r _ r).detector
    rwa [Function.update_self]

/-- **Every selected edge gets its loop closure**: there is a request for the keyframe of one end,
to its robot, that names the other end; once it has been delivered there is an answer with the cloud
of that keyframe, and once that has been delivered to the robot of the other end there is a loop
closure between the two. -/
theorem exists_loopClosure (h : (swarm S Gps).Reaches tr s)
    {pre : List (Event K Cloud Gps × List (Message P D T))} {env : DetectEnv}
    {o : List (Message P D T)} (hp : pre ++ [(.detectInter r env, o)] <+: tr) {s₀ : State S Gps}
    (h₀ : (swarm S Gps).Reaches pre s₀) (hbroker : IsBroker (s₀.robots r).detector env)
    {selector : AlgebraicConnectivityMaximization} {selection : List EdgeInterRobot}
    (hs : selected S (s₀.robots r).detector env = some (selector, selection))
    {e : EdgeInterRobot} (he : e ∈ selection) :
    ∃ v w, IsEnds e v w ∧ ∃ i request,
      s.published[i]? = some (.localDescriptorsRequest v.1 request) ∧
      request.keyframeId = v.2 ∧ w ∈ request.matchesRobotAndKeyframeId ∧
      (Delivered tr v.1 i → ∃ j data, .keyframeData v.1 v.2 data ∈ s.published ∧
        s.published[j]? = some (.localDescriptors (answer (S.handlerOf v.1) request data)) ∧
        (Delivered tr w.1 j →
          ∃ closure : InterRobotLoopClosure T, .interRobotLoopClosure closure ∈ s.published ∧
            (closure.robot0Id, closure.robot0KeyframeId) = w ∧
            (closure.robot1Id, closure.robot1KeyframeId) = v)) := by
  obtain ⟨requests, hasks, hpublished, -⟩ := exists_selecting_step h hp h₀ hbroker hs
  obtain ⟨x, hx, w, hw, hends⟩ := hasks e he
  obtain ⟨i, hi⟩ := List.mem_iff_getElem?.mp (hpublished x hx)
  refine ⟨(x.1, x.2.keyframeId), w, hends, i, x.2, hi, rfl, hw, fun hd => ?_⟩
  obtain ⟨data, hcloud, hanswer⟩ := exists_answer h hd hi
  obtain ⟨j, hj⟩ := List.mem_iff_getElem?.mp hanswer
  exact ⟨j, data, hcloud, hj, fun hd' => exists_closure h hd' hj hw⟩

/-- The one request of the run. -/
theorem correspondence_request {i r : ℕ} {request : LocalDescriptorsRequest}
    (h : correspondence[i]? = some (.localDescriptorsRequest r request)) : i = 3 ∧ r = 0 := by
  rcases i with _ | _ | _ | _ | _ | _ | _ | i <;> simp_all [correspondence]

/-- The one answer to it. -/
theorem correspondence_answer {i : ℕ} {msg : LidarHandler.LocalPointCloudDescriptors ℚ}
    (h : correspondence[i]? = some (.localDescriptors msg)) : i = 4 := by
  rcases i with _ | _ | _ | _ | _ | _ | _ | i <;> simp_all [correspondence]

theorem exists_loopClosure_encounter : ∃ tr s, (swarm pair ℚ).Reaches tr s ∧
    ∃ closure : InterRobotLoopClosure ℚ, .interRobotLoopClosure closure ∈ s.published ∧
      (closure.robot0Id, closure.robot0KeyframeId) = (1, 0) ∧
      (closure.robot1Id, closure.robot1KeyframeId) = (0, 0) := by
  obtain ⟨pre, s₀, h₀, hbroker, hs, hverify⟩ := reaches_encounter
  obtain ⟨⟨tr, s⟩, hexec, hpublished⟩ := Option.map_eq_some_iff.mp hverify
  obtain ⟨⟨selector, selection⟩, hselected, rfl⟩ := Option.map_eq_some_iff.mp hs
  have hdelivered : ∀ {r i : ℕ}, .deliver r i ∈ verify → Delivered (pre ++ tr) r i := by
    intro r i hmem
    rw [← Machine.map_fst_of_execFrom hexec] at hmem
    obtain ⟨⟨e, o⟩, hx, rfl⟩ := List.mem_map.mp hmem
    exact ⟨o, List.mem_append_right _ hx⟩
  obtain ⟨s₁, o, tr₁, -, -, rfl⟩ := Machine.execFrom_cons hexec
  have h := h₀.execFrom (Machine.alwaysFrom_true _ _) hexec
  obtain ⟨v, w, hends, i, request, hi, -, -, hanswered⟩ := exists_loopClosure h (o := o)
    ⟨tr₁, by simp⟩ h₀ hbroker hselected (List.mem_singleton_self theMatch)
  have hpublished : s.published = correspondence := hpublished
  rw [hpublished] at hi
  obtain ⟨rfl, hrobot⟩ := correspondence_request hi
  -- the request goes to robot 0, so it asks for the keyframe of robot 0
  obtain ⟨rfl, rfl⟩ : v = (0, 0) ∧ w = (1, 0) := by
    rcases hends with hends | ⟨rfl, -⟩
    · exact hends
    · exact absurd hrobot (by decide)
  obtain ⟨j, data, -, hj, hregistered⟩ := hanswered (hdelivered (by simp [verify]))
  rw [hpublished] at hj
  obtain rfl := correspondence_answer hj
  exact ⟨_, s, h, hregistered (hdelivered (by simp [verify]))⟩

/-! ### What is selected again -/

/-- What is selected has not been considered, and has another key than what has. -/
theorem not_considered_of_selected {ms : List (Message P D T)}
    {g : GlobalDescriptorLoopClosureDetection S.matcher} (h : DetectorOk S ms r g) {env : DetectEnv}
    {selector : AlgebraicConnectivityMaximization} {selection : List EdgeInterRobot}
    (hs : selected S g env = some (selector, selection)) {e : EdgeInterRobot} (he : e ∈ selection)
    {o : EdgeInterRobot} (ho : edgeKey o ∈ considered g) : o.keyframes ≠ e.keyframes := by
  intro hkeyframes
  obtain ⟨⟨c, hc, w, rfl⟩, -, -⟩ := mem_selectCandidates h.selector.valid hs he
  have heq : o.eq c.2 = true := EdgeInterRobot.eq_iff_keyframes.mpr hkeyframes
  have hkey := edgeKey_eq_of_eq heq (h.selector.fresh.robots c hc)
  rw [hkey, ← h.selector.valid.keys c hc] at ho
  exact h.selector.fresh.notConsidered c hc ho

/-- **No pair of keyframes is selected twice** by one robot, nor after a loop closure between the
two has been delivered to it, whichever way round and whether the registration succeeded or not. -/
theorem selected_new (h : (swarm S Gps).Reaches tr s) (hr : r < S.nbRobots) {env : DetectEnv}
    {selector : AlgebraicConnectivityMaximization} {selection : List EdgeInterRobot}
    (hs : selected S (s.robots r).detector env = some (selector, selection))
    {e : EdgeInterRobot} (he : e ∈ selection) :
    (∀ pre env₀ o s₀ selector₀ selection₀, pre ++ [(.detectInter r env₀, o)] <+: tr →
      (swarm S Gps).Reaches pre s₀ → IsBroker (s₀.robots r).detector env₀ →
      selected S (s₀.robots r).detector env₀ = some (selector₀, selection₀) →
        ∀ e₀ ∈ selection₀, e₀.keyframes ≠ e.keyframes) ∧
    ∀ i msg, Delivered tr r i → s.published[i]? = some (.interRobotLoopClosure msg) →
      s((msg.robot0Id, msg.robot0KeyframeId), (msg.robot1Id, msg.robot1KeyframeId)) ≠
        e.keyframes := by
  have hdetector := ((ok_of_reaches h).robots r hr).detector
  constructor
  · intro pre env₀ o s₀ selector₀ selection₀ hp h₀ hbroker hs₀ e₀ he₀
    obtain ⟨-, -, -, hconsidered⟩ := exists_selecting_step h hp h₀ hbroker hs₀
    exact not_considered_of_selected hdetector hs he (hconsidered e₀ he₀)
  · intro i msg hd hm
    obtain ⟨s₀, -, -, -, robot, o, hrec, -, hsub⟩ := exists_receive_of_delivered h hd hm
    obtain ⟨rfl, -⟩ := Prod.mk.inj (Option.some.inj hrec)
    have hkey := hsub ((receiveInterRobotLoopClosure_considered msg).mpr (Or.inr rfl))
    exact not_considered_of_selected hdetector hs he hkey

theorem selected_new_encounter : ∃ tr s, (swarm pair ℚ).Reaches tr s ∧ ∀ i msg, Delivered tr 0 i →
    s.published[i]? = some (.interRobotLoopClosure msg) →
      s((msg.robot0Id, msg.robot0KeyframeId), (msg.robot1Id, msg.robot1KeyframeId)) ≠
        theMatch.keyframes := by
  obtain ⟨tr, s, h, -, hs, -⟩ := reaches_encounter
  obtain ⟨⟨selector, selection⟩, hselected, rfl⟩ := Option.map_eq_some_iff.mp hs
  exact ⟨tr, s, h, (selected_new h (by decide) hselected (List.mem_singleton_self theMatch)).2⟩

end RoverSwarm.Swarm
