import Mathlib.Data.Finset.Max
import Mathlib.Data.List.Nodup
import RoverSwarm.Exchange.Neighbors
import RoverSwarm.Lib.Walk
import RoverSwarm.Pgo.Node

/-!
# Leader — the optimizer and the broker of a group of robots

Every robot compares itself with the robots it has been told about, and nothing else: it is the
optimizer if none of them has a smaller origin, or the same origin and a smaller id; it is the
broker if none of them has a smaller id.  Where every member of a group is told about all the
others, the comparisons are with one linear order, in which exactly one member is least.
-/

namespace RoverSwarm.Leader

open Pgo Exchange

/-! ### The least member -/

/-- A member has nobody below it among the others exactly if it is the least one. -/
theorem forall_not_lt_iff_eq {α β : Type*} [LinearOrder β] [DecidableEq α] {group : Finset α}
    {key : α → β} (hkey : key.Injective) {least r : α} (hleast : least ∈ group)
    (hmin : ∀ x ∈ group, key least ≤ key x) (hr : r ∈ group) :
    (∀ x ∈ group.erase r, ¬ key x < key r) ↔ r = least := by
  constructor
  · intro h
    by_contra hne
    have hmem : least ∈ group.erase r := Finset.mem_erase.mpr ⟨Ne.symm hne, hleast⟩
    have hle : key r ≤ key least := not_lt.mp (h least hmem)
    exact hne (hkey (le_antisymm hle (hmin r hr)))
  · rintro rfl x hx
    exact not_lt.mpr (hmin x (Finset.mem_of_mem_erase hx))

/-! ### `get_current_neighbors_callback` -/

/-- `get_current_neighbors_callback`: what is published; removing a robot that is not in the list
raises. -/
def getCurrentNeighborsCallback (m : NeighborManager) (now : ℕ → ℚ) : Option RobotIdsAndOrigin :=
  let robotsInRangeList := (m.checkNeighborsInRange now).2
  if m.robotId ∈ robotsInRangeList then
    let ids := robotsInRangeList.erase m.robotId
    some ⟨ids, ids.map fun i => (m.neighborsMonitors i).originRobotId⟩
  else none

/-- The ids are the other robots that are alive, the origins are beside them, and no robot is asked
for in vain. -/
theorem getCurrentNeighborsCallback_spec {m : NeighborManager} (h : m.robotId < m.maxNbRobots)
    (now : ℕ → ℚ) : ∃ msg, getCurrentNeighborsCallback m now = some msg ∧
      (∀ id, id ∈ msg.robots ↔ id ∈ m.others ∧ m.alive now id = true) ∧
      msg.origins = msg.robots.map fun id => (m.neighborsMonitors id).originRobotId := by
  have hmem : m.robotId ∈ (m.checkNeighborsInRange now).2 :=
    List.mem_filter.mpr ⟨List.mem_range.mpr h, by simp⟩
  have hnodup : (m.checkNeighborsInRange now).2.Nodup := List.nodup_range.filter _
  refine ⟨_, if_pos hmem, fun id => ?_, rfl⟩
  show id ∈ (m.checkNeighborsInRange now).2.erase m.robotId ↔ _
  rw [hnodup.mem_erase_iff]
  simp only [NeighborManager.checkNeighborsInRange, NeighborManager.others, List.mem_filter,
    Bool.or_eq_true, beq_iff_eq, decide_eq_true_iff]
  constructor
  · rintro ⟨hne, hrange, hself | halive⟩
    · exact absurd hself hne
    · exact ⟨⟨hrange, hne⟩, halive⟩
  · rintro ⟨⟨hrange, hne⟩, halive⟩
    exact ⟨hne, hrange, Or.inr halive⟩

/-! ### `is_optimizer` -/

section Optimizer

variable {P : Type*}

/-- The order in which the least robot optimizes: by origin, then by id. -/
def rank (node : ℕ → State P) (id : ℕ) : ℕ ×ₗ ℕ := toLex ((node id).originRobotId, id)

theorem rank_injective (node : ℕ → State P) : (rank node).Injective := by
  intro id id' h
  exact (Prod.mk.inj (toLex_inj.mp h)).2

theorem outranks_eq {R : Pgo.Params} {s : State P} (origin id : ℕ) :
    outranks R s origin (some id) =
      some (decide (toLex (origin, id) < toLex (s.originRobotId, R.robotId))) := by
  simp only [Prod.Lex.toLex_lt_toLex, outranks, Option.map_some]
  by_cases hlt : origin < s.originRobotId
  · rw [if_pos hlt, decide_eq_true (Or.inl hlt)]
  · rw [if_neg hlt]
    by_cases heq : s.originRobotId = origin
    · rw [if_pos heq, decide_eq_decide.mpr]
      simp [heq]
    · rw [if_neg heq, decide_eq_false]
      omega

/-- With aligned lists the robot is the optimizer if it has odometry and none of the robots is below
it. -/
theorem isOptimizer_eq {R : Pgo.Params} {s : State P} {origin : ℕ → ℕ}
    (h : s.currentNeighborsIds.origins = s.currentNeighborsIds.robots.map origin) :
    isOptimizer R s = some (decide ((∀ id ∈ s.currentNeighborsIds.robots,
        ¬ toLex (origin id, id) < toLex (s.originRobotId, R.robotId)) ∧
      s.odometryPoseEstimates.size ≠ 0)) := by
  have hwalk : (s.currentNeighborsIds.origins.zipIdx.mapM fun o =>
      outranks R s o.1 s.currentNeighborsIds.robots[o.2]?) =
        some (s.currentNeighborsIds.robots.map fun id =>
          decide (toLex (origin id, id) < toLex (s.originRobotId, R.robotId))) := by
    rw [h, Walk.mapM_zipIdx_map]
    simp only [outranks_eq]
    exact List.mapM_pure
  unfold isOptimizer
  dsimp only
  rw [hwalk, Option.bind_eq_bind, Option.bind_some]
  refine congrArg some (Bool.eq_iff_iff.mpr ?_)
  simp only [Bool.and_eq_true, Bool.not_eq_true', List.any_map, List.any_eq_false, Function.comp_apply,
    id, decide_eq_true_iff]

/-- The group as the optimizers see it: everyone has been told about all the others, with their
origins beside them, and has odometry. -/
structure Told (group : Finset ℕ) (node : ℕ → State P) : Prop where
  robots : ∀ r ∈ group, ∀ id, id ∈ (node r).currentNeighborsIds.robots ↔ id ∈ group.erase r
  origins : ∀ r ∈ group, (node r).currentNeighborsIds.origins =
    (node r).currentNeighborsIds.robots.map fun id => (node id).originRobotId
  odometry : ∀ r ∈ group, (node r).odometryPoseEstimates.size ≠ 0

theorem Told.isOptimizer {group : Finset ℕ} {node : ℕ → State P} (h : Told group node)
    {params : ℕ → Pgo.Params} (hparams : ∀ r ∈ group, (params r).robotId = r) {least : ℕ}
    (hleast : least ∈ group) (hmin : ∀ x ∈ group, rank node least ≤ rank node x) :
    ∀ r ∈ group, isOptimizer (params r) (node r) = some (decide (r = least)) := by
  intro r hr
  rw [isOptimizer_eq (h.origins r hr), hparams r hr]
  refine congrArg some (decide_eq_decide.mpr ?_)
  have hiff := forall_not_lt_iff_eq (rank_injective node) hleast hmin hr
  constructor
  · rintro ⟨hbelow, -⟩
    exact hiff.mp fun x hx => hbelow x ((h.robots r hr x).mpr hx)
  · intro heq
    exact ⟨fun id hid => hiff.mpr heq id ((h.robots r hr id).mp hid), h.odometry r hr⟩

end Optimizer

/-! ### `local_robot_is_broker` -/

/-- The group as the neighbor managers see it: everyone monitors all the others, and of the robots
it monitors the members are alive. -/
structure MutuallyAlive (group : Finset ℕ) (manager : ℕ → NeighborManager) (now : ℕ → ℕ → ℚ) :
    Prop where
  robotId : ∀ r ∈ group, (manager r).robotId = r
  known : ∀ r ∈ group, ∀ id ∈ group, id < (manager r).maxNbRobots
  alive : ∀ r ∈ group, ∀ id ∈ (manager r).others,
    (manager r).alive (now r) id = true ↔ id ∈ group

theorem MutuallyAlive.mem_alive_iff {group : Finset ℕ} {manager : ℕ → NeighborManager}
    {now : ℕ → ℕ → ℚ} (h : MutuallyAlive group manager now) {r : ℕ} (hr : r ∈ group) (id : ℕ) :
    id ∈ (manager r).others ∧ (manager r).alive (now r) id = true ↔ id ∈ group.erase r := by
  have hothers : id ∈ (manager r).others ↔ id < (manager r).maxNbRobots ∧ id ≠ r := by
    rw [NeighborManager.others, List.mem_filter, List.mem_range, decide_eq_true_iff,
      h.robotId r hr]
  rw [Finset.mem_erase]
  constructor
  · rintro ⟨hid, halive⟩
    exact ⟨(hothers.mp hid).2, (h.alive r hr id hid).mp halive⟩
  · rintro ⟨hne, hid⟩
    have hmem := hothers.mpr ⟨h.known r hr id hid, hne⟩
    exact ⟨hmem, (h.alive r hr id hmem).mpr hid⟩

theorem MutuallyAlive.localRobotIsBroker {group : Finset ℕ} {manager : ℕ → NeighborManager}
    {now : ℕ → ℕ → ℚ} (h : MutuallyAlive group manager now) {least : ℕ} (hleast : least ∈ group)
    (hmin : ∀ x ∈ group, least ≤ x) :
    ∀ r ∈ group, (manager r).localRobotIsBroker (now r) = decide (r = least) := by
  intro r hr
  have hiff : (∀ x ∈ group.erase r, ¬ x < r) ↔ r = least :=
    forall_not_lt_iff_eq Function.injective_id hleast hmin hr
  rw [NeighborManager.localRobotIsBroker, Bool.eq_iff_iff, List.all_eq_true, decide_eq_true_iff,
    ← hiff, h.robotId r hr]
  simp only [List.mem_filter, h.mem_alive_iff hr, Bool.not_eq_true', decide_eq_false_iff_not]

/-- The messages of the managers tell everyone, where the monitors know the origins. -/
theorem told_of_callbacks {P : Type*} {group : Finset ℕ} {node : ℕ → State P}
    {manager : ℕ → NeighborManager} {now : ℕ → ℕ → ℚ} (halive : MutuallyAlive group manager now)
    (hmsg : ∀ r ∈ group,
      getCurrentNeighborsCallback (manager r) (now r) = some (node r).currentNeighborsIds)
    (horigin : ∀ r ∈ group, ∀ id ∈ group,
      ((manager r).neighborsMonitors id).originRobotId = (node id).originRobotId)
    (hodometry : ∀ r ∈ group, (node r).odometryPoseEstimates.size ≠ 0) : Told group node := by
  have hspec : ∀ r ∈ group, (∀ id, id ∈ (node r).currentNeighborsIds.robots ↔ id ∈ group.erase r) ∧
      (node r).currentNeighborsIds.origins = (node r).currentNeighborsIds.robots.map fun id =>
        ((manager r).neighborsMonitors id).originRobotId := by
    intro r hr
    have hlt : (manager r).robotId < (manager r).maxNbRobots := by
      rw [halive.robotId r hr]
      exact halive.known r hr r hr
    obtain ⟨msg, heq, hrobots, horigins⟩ := getCurrentNeighborsCallback_spec hlt (now r)
    obtain rfl : msg = (node r).currentNeighborsIds :=
      Option.some.inj (heq.symm.trans (hmsg r hr))
    exact ⟨fun id => (hrobots id).trans (halive.mem_alive_iff hr id), horigins⟩
  refine ⟨fun r hr => (hspec r hr).1, fun r hr => ?_, hodometry⟩
  rw [(hspec r hr).2]
  refine List.map_congr_left fun id hid => horigin r hr id ?_
  exact Finset.mem_of_mem_erase (((hspec r hr).1 id).mp hid)

/-! ### One leader -/

/-- **One leader per group**: exactly one member is the optimizer, the least by origin and id, and
exactly one is the broker, the least by id, whatever the origins are. -/
theorem one_leader {P : Type*} {group : Finset ℕ} (hne : group.Nonempty) {node : ℕ → State P}
    {params : ℕ → Pgo.Params} (hparams : ∀ r ∈ group, (params r).robotId = r) (htold : Told group node)
    {manager : ℕ → NeighborManager} {now : ℕ → ℕ → ℚ}
    (halive : MutuallyAlive group manager now) :
    (∃ leader ∈ group, (∀ r ∈ group, rank node leader ≤ rank node r) ∧
      ∀ r ∈ group, isOptimizer (params r) (node r) = some (decide (r = leader))) ∧
    ∃ broker ∈ group, (∀ r ∈ group, broker ≤ r) ∧
      ∀ r ∈ group, (manager r).localRobotIsBroker (now r) = decide (r = broker) := by
  constructor
  · obtain ⟨leader, hleader, hmin⟩ := group.exists_min_image (rank node) hne
    exact ⟨leader, hleader, hmin, htold.isOptimizer hparams hleader hmin⟩
  · obtain ⟨broker, hbroker, hmin⟩ := group.exists_min_image id hne
    exact ⟨broker, hbroker, hmin, halive.localRobotIsBroker hbroker hmin⟩

/-- A monitor that has heard robot `id` of the origin 9 lately, or never. -/
def monitor (heard : Bool) : NeighborMonitor where
  isEnabled := true
  originRobotId := 9
  initDelaySec := 1
  maxDelaySec := 5
  firstHeartbeatReceived := heard
  initTime := 0
  latestTimeStamp := 8

/-- Robots 3 and 5 of ten hear each other. -/
def managerOf (r : ℕ) : NeighborManager where
  robotId := r
  maxNbRobots := 10
  neighborsMonitors := fun id => monitor (id = 3 ∨ id = 5)

/-- The node of a robot after its first keyframe and a message of its manager. -/
def nodeOf (r : ℕ) : State (Multiplicative ℤ) :=
  { initialState { robotId := r, maxNbRobots := 10, maxWaitingTime := 60 } with
    odometryPoseEstimates := (∅ : Values (Multiplicative ℤ)).set (symbol r 0) 1
    currentNeighborsIds := (getCurrentNeighborsCallback (managerOf r) fun _ => 10).getD {}
    originRobotId := 9 }

/-- The members share an origin that is not there. -/
theorem one_leader_absent_origin :
    ∃ leader ∈ ({3, 5} : Finset ℕ), ∀ r ∈ ({3, 5} : Finset ℕ),
      isOptimizer { robotId := r, maxNbRobots := 10, maxWaitingTime := 60 } (nodeOf r) =
        some (decide (r = leader)) := by
  have halive : MutuallyAlive {3, 5} managerOf fun _ _ => 10 :=
    ⟨by decide, by decide, by decide +kernel⟩
  have htold : Told {3, 5} nodeOf :=
    told_of_callbacks halive (by decide +kernel) (by decide) (by decide +kernel)
  have hparams : ∀ r ∈ ({3, 5} : Finset ℕ), (Pgo.Params.mk r 10 60).robotId = r := fun _ _ => rfl
  obtain ⟨⟨leader, hleader, -, hoptimizer⟩, -⟩ := one_leader (by decide) hparams htold halive
  exact ⟨leader, hleader, hoptimizer⟩

end RoverSwarm.Leader
