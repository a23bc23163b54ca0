import Mathlib.Data.Sym.Sym2
import RoverSwarm.Pgo.Node
import RoverSwarm.Selection.Once
import RoverSwarm.Selection.SingleGraph

/-!
# Selection.FixedEdges — the loop closures that come back to the front end

Every successful loop closure that is received is appended to the fixed edges, whatever they hold
already.  A match that two robots compute, each from the other's descriptors, comes back twice, once
in either orientation; `edge_key` and `__eq__` take the two for one, the fixed edges do not.
-/

namespace RoverSwarm.Selection

open Transition Pgo

/-! ### The two keyframes of an edge -/

/-- The two ends of an edge, which have no order. -/
def EdgeInterRobot.keyframes (e : EdgeInterRobot) : Sym2 (ℕ × ℕ) :=
  s((e.robot0Id, e.robot0KeyframeId), (e.robot1Id, e.robot1KeyframeId))

/-- `__eq__` compares the two keyframes. -/
theorem EdgeInterRobot.eq_iff_keyframes {e o : EdgeInterRobot} :
    e.eq o = true ↔ e.keyframes = o.keyframes := by
  unfold keyframes
  simp only [EdgeInterRobot.eq_iff, Sym2.eq_iff, Prod.mk.injEq, and_assoc]

/-! ### The robot that registers the point clouds -/

/-- `LocalPointCloudDescriptors` without its point cloud; the two parallel lists of the matches are
one list of pairs. -/
structure LocalPointCloudDescriptors where
  robotId : ℕ
  keyframeId : ℕ
  matchesRobotAndKeyframeId : List (ℕ × ℕ)

section Register

variable {P : Type*} (robotId : ℕ) (computeTransform : ℕ → Option (P × Bool)) (unset : P)
  (msg : LocalPointCloudDescriptors)

/-- The keyframes of a message that are the robot's own. -/
def frameIds : List ℕ :=
  msg.matchesRobotAndKeyframeId.filterMap fun m => if m.1 = robotId then some m.2 else none

/-- The loop closure of the own keyframe `frameId` and the keyframe of a message; the transform of a
failure is the one a new message has. -/
def register (frameId : ℕ) (outcome : P × Bool) : InterRobotLoopClosure P :=
  let (transform, success) := outcome
  { robot0Id := robotId
    robot0KeyframeId := frameId
    robot1Id := msg.robotId
    robot1KeyframeId := msg.keyframeId
    success
    transform := if success then transform else unset }

/-- The loop over the keyframes: what is published, and whether it ends without raising. -/
def registerAll : List ℕ → List (InterRobotLoopClosure P) × Bool
  | [] => ([], true)
  | frameId :: frameIds =>
    match computeTransform frameId with
    | none => ([], false)
    | some outcome =>
      let (published, done) := registerAll frameIds
      (register robotId unset msg frameId outcome :: published, done)

/-- `receive_local_descriptors` of the robot `robotId`: a loop closure for every match with one of
its own keyframes.  `computeTransform` looks the cloud of a keyframe up, and registers it. -/
def receiveLocalDescriptors : List (InterRobotLoopClosure P) × Bool :=
  registerAll robotId computeTransform unset msg (frameIds robotId msg)

end Register

section Register

variable {P : Type*} {robotId : ℕ} {computeTransform : ℕ → Option (P × Bool)} {unset : P}
  {msg : LocalPointCloudDescriptors}

theorem mem_frameIds {frameId : ℕ} :
    frameId ∈ frameIds robotId msg ↔ (robotId, frameId) ∈ msg.matchesRobotAndKeyframeId := by
  unfold frameIds
  rw [List.mem_filterMap]
  constructor
  · rintro ⟨m, hm, heq⟩
    obtain ⟨hrobot, hvalue⟩ := Option.ite_none_right_eq_some.mp heq
    rwa [← hrobot, ← Option.some.inj hvalue]
  · exact fun h => ⟨_, h, if_pos rfl⟩

/-- If no lookup raises, a loop closure is published for each of the keyframes, in order. -/
theorem registerAll_of_some {outcome : ℕ → P × Bool} {ids : List ℕ}
    (h : ∀ id ∈ ids, computeTransform id = some (outcome id)) :
    registerAll robotId computeTransform unset msg ids =
      (ids.map fun id => register robotId unset msg id (outcome id), true) := by
  induction ids with
  | nil => rfl
  | cons id ids ih =>
    obtain ⟨hid, hids⟩ := List.forall_mem_cons.mp h
    rw [registerAll, hid, ih hids]
    rfl

end Register

namespace AlgebraicConnectivityMaximization

variable {P : Type*} {s s' : AlgebraicConnectivityMaximization}

/-! ### The robot that receives them -/

/-- `inter_robot_loop_closure_msg_to_edge`. -/
def interRobotLoopClosureMsgToEdge (s : AlgebraicConnectivityMaximization)
    (msg : InterRobotLoopClosure P) : EdgeInterRobot :=
  ⟨msg.robot0Id, msg.robot0KeyframeId, msg.robot1Id, msg.robot1KeyframeId, s.fixedWeight⟩

/-- `receive_inter_robot_loop_closure`. -/
def receiveInterRobotLoopClosure (s : AlgebraicConnectivityMaximization)
    (msg : InterRobotLoopClosure P) : AlgebraicConnectivityMaximization :=
  if msg.success then s.candidateEdgesToFixed [s.interRobotLoopClosureMsgToEdge msg]
  else s.removeCandidateEdges [s.interRobotLoopClosureMsgToEdge msg]

/-- What the front end does with its selector: it receives loop closures, matches of its own or of
other robots, and selects. -/
inductive FrontEndEvent (P : Type*)
  | interRobotLoopClosure (msg : InterRobotLoopClosure P)
  | addMatch (m : EdgeInterRobot)
  | selectCandidates (env : Env) (nbCandidatesToChoose : ℕ) (isOtherRobotConsidered : ℕ → Bool)
      (greedyInit : Bool)

/-- The front end of one robot. -/
def frontEnd (P : Type*) (R : Params) :
    Machine AlgebraicConnectivityMaximization (FrontEndEvent P) (List EdgeInterRobot) where
  init := (selector R).init
  step s
    | .interRobotLoopClosure msg => some (s.receiveInterRobotLoopClosure msg, [])
    | .addMatch m => (selector R).step s (.addMatch m)
    | .selectCandidates env nb considered greedyInit =>
      (selector R).step s (.selectCandidates env nb considered greedyInit)

/-- No two fixed edges are equal under `__eq__`. -/
def FixedUnique (s : AlgebraicConnectivityMaximization) : Prop :=
  s.fixedEdges.Pairwise fun e e' => e.eq e' = false

/-- The successful loop closure an event brings. -/
def closureOf : FrontEndEvent P → Option (InterRobotLoopClosure P)
  | .interRobotLoopClosure msg => if msg.success then some msg else none
  | _ => none

/-- The two keyframes of a loop closure, which have no order. -/
def closureKeyframes (msg : InterRobotLoopClosure P) : Sym2 (ℕ × ℕ) :=
  s((msg.robot0Id, msg.robot0KeyframeId), (msg.robot1Id, msg.robot1KeyframeId))

/-- The keyframes of the successful loop closures of a run. -/
def closures (tr : List (FrontEndEvent P × List EdgeInterRobot)) : List (Sym2 (ℕ × ℕ)) :=
  (tr.filterMap fun x => closureOf x.1).map closureKeyframes

/-- Every step fixes an edge for the successful loop closure it brings. -/
theorem frontEnd_fixedEdges {R : Params} {e : FrontEndEvent P} {o : List EdgeInterRobot}
    (h : (frontEnd P R).step s e = some (s', o)) : s'.fixedEdges.map EdgeInterRobot.keyframes =
      s.fixedEdges.map EdgeInterRobot.keyframes ++ ((closureOf e).map closureKeyframes).toList := by
  cases e with
  | interRobotLoopClosure msg =>
    obtain ⟨rfl, -⟩ := Prod.mk.inj (Option.some.inj h)
    unfold receiveInterRobotLoopClosure
    by_cases hsuccess : msg.success = true
    · have hclosure : closureOf (.interRobotLoopClosure msg) = some msg := if_pos hsuccess
      rw [if_pos hsuccess, hclosure, (candidateEdgesToFixed_addsFixed s _).fixedEdges,
        List.map_append]
      rfl
    · have hclosure : closureOf (.interRobotLoopClosure msg) = none := if_neg hsuccess
      rw [if_neg hsuccess, hclosure]
      exact (List.append_nil _).symm
  | addMatch m =>
    simp only [frontEnd, selector, Option.ite_none_right_eq_some, Option.some.injEq,
      Prod.mk.injEq] at h
    obtain ⟨-, rfl, -⟩ := h
    rw [(addMatch_addsFixed s m).fixedEdges, List.map_append]
    rfl
  | selectCandidates env nb considered greedyInit =>
    rw [(selectCandidates_addsFixed h).fixedEdges, List.map_append]
    rfl

/-- **Run lemma**: the fixed edges are those of the successful loop closures, in order. -/
theorem fixedEdges_of_reaches {R : Params} {tr : List (FrontEndEvent P × List EdgeInterRobot)}
    (h : (frontEnd P R).Reaches tr s) :
    s.fixedEdges.map EdgeInterRobot.keyframes = closures tr := by
  induction h with
  | init => rfl
  | @step tr s s' e o _ _ hs ih =>
    rw [frontEnd_fixedEdges hs, ih]
    unfold closures
    rw [List.filterMap_append, List.map_append]
    cases hclosure : closureOf e with
    | none => simp [hclosure]
    | some msg => simp [hclosure]

/-- **When the fixed edges are unique**: in every run, exactly if no two successful loop closures
are between the same two keyframes. -/
theorem fixedUnique_iff {R : Params} {tr : List (FrontEndEvent P × List EdgeInterRobot)}
    (h : (frontEnd P R).Reaches tr s) : s.FixedUnique ↔ (closures tr).Nodup := by
  rw [← fixedEdges_of_reaches h, List.Nodup, List.pairwise_map]
  unfold FixedUnique
  refine List.Pairwise.iff fun {e o} => ?_
  rw [Ne, ← EdgeInterRobot.eq_iff_keyframes, Bool.not_eq_true]

/-- A match of two robots that succeeds, then the next one. -/
theorem fixedUnique_iff_next :
    ∃ tr s, (frontEnd ℕ two).Reaches tr s ∧ s.fixedEdges.length = 2 ∧
      (s.FixedUnique ↔ (closures tr).Nodup) := by
  obtain ⟨tr, s, hr, hlen⟩ :=
    Machine.exists_reaches_of_exec (M := frontEnd ℕ two)
      [.addMatch ⟨0, 0, 1, 0, 9 / 10⟩, .interRobotLoopClosure ⟨true, 0, 0, 1, 0, 1⟩,
        .interRobotLoopClosure ⟨true, 1, 1, 0, 1, 1⟩]
      (p := fun r => r.2.fixedEdges.length = 2) (by decide +kernel)
  exact ⟨tr, s, hr, hlen, fixedUnique_iff hr⟩

/-- What robots 0 and 1 report when each has received the descriptors of the other for the match
between keyframe 3 of robot 0 and keyframe 5 of robot 1. -/
def bothReport : List (FrontEndEvent ℕ) :=
  ((receiveLocalDescriptors 0 (fun _ => some (1, true)) 0 ⟨1, 5, [(0, 3)]⟩).1 ++
    (receiveLocalDescriptors 1 (fun _ => some (1, true)) 0 ⟨0, 3, [(1, 5)]⟩).1).map
      .interRobotLoopClosure

/-- Both reports are fixed, one in either orientation. -/
theorem not_fixedUnique :
    ¬ ∀ (R : Params) (tr : List (FrontEndEvent ℕ × List EdgeInterRobot))
      (s : AlgebraicConnectivityMaximization), (frontEnd ℕ R).Reaches tr s → s.FixedUnique := by
  intro h
  obtain ⟨tr, s, hr, hfixed⟩ :=
    Machine.exists_reaches_of_exec (M := frontEnd ℕ two) bothReport
      (p := fun r => r.2.fixedEdges = [⟨0, 3, 1, 5, 1⟩, ⟨1, 5, 0, 3, 1⟩]) (by decide +kernel)
  have hunique := h two tr s hr
  unfold FixedUnique at hunique
  rw [hfixed, List.pairwise_pair] at hunique
  exact absurd hunique (by decide)

end AlgebraicConnectivityMaximization

end RoverSwarm.Selection
