import Mathlib.Data.List.Chain
import RoverSwarm.Leader
import RoverSwarm.Lib.Transition

/-!
# Exchange.Monitoring — the neighbor management with monitoring switched off

Without monitoring `is_alive` returns None, which is false: the manager answers as if nobody were in
range, and not as if everybody were.  It is compared here, call by call, with a manager whose
monitors are enabled and always fresh.
-/

namespace RoverSwarm.Exchange

open Leader Pgo Transition

/-! ### The manager and its calls -/

/-- The calls of the node, with the readings of the clock they make. -/
inductive Call
  | heartbeat (rid data : ℕ) (now later : ℚ)
  | checkNeighborsInRange (now : ℕ → ℚ)
  | localRobotIsBroker (now : ℕ → ℚ)
  | selectFromWhichKfToSend (latestLocalId : ℤ) (now now' : ℕ → ℚ)
  | selectFromWhichMatchToSend (latestLocalMatchIdx : ℤ) (now now' : ℕ → ℚ)
  | getCurrentNeighbors (now : ℕ → ℚ)

/-- What a call returns; the last one publishes, or raises. -/
inductive Result
  | done
  | inRange (isRobotInRange : List (ℕ × Bool)) (robotsInRangeList : List ℕ)
  | isBroker (b : Bool)
  | fromId (id : ℤ)
  | neighbors (msg : Option RobotIdsAndOrigin)
deriving DecidableEq

namespace Call

/-- The readings of the clock a call makes to ask who is alive. -/
def readings : Call → List (ℕ → ℚ)
  | heartbeat .. => []
  | checkNeighborsInRange now => [now]
  | localRobotIsBroker now => [now]
  | selectFromWhichKfToSend _ now now' => [now, now']
  | selectFromWhichMatchToSend _ now now' => [now, now']
  | getCurrentNeighbors now => [now]

def latestKf : Call → Option ℤ
  | selectFromWhichKfToSend latestLocalId _ _ => some latestLocalId
  | _ => none

def latestMatch : Call → Option ℤ
  | selectFromWhichMatchToSend latestLocalMatchIdx _ _ => some latestLocalMatchIdx
  | _ => none

end Call

namespace NeighborManager

/-- There is a subscription for the heartbeats of every other robot. -/
def heartbeat (m : NeighborManager) (rid data : ℕ) (now later : ℚ) : NeighborManager :=
  let monitor := (m.neighborsMonitors rid).heartbeatCallback data now later
  if rid ∈ m.others then
    { m with neighborsMonitors := Function.update m.neighborsMonitors rid monitor }
  else m

def step (m : NeighborManager) : Call → NeighborManager × Result
  | .heartbeat rid data now later => (m.heartbeat rid data now later, .done)
  | .checkNeighborsInRange now =>
    let r := m.checkNeighborsInRange now
    (m, .inRange ((List.range m.maxNbRobots).map fun i => (i, r.1 i)) r.2)
  | .localRobotIsBroker now => (m, .isBroker (m.localRobotIsBroker now))
  | .selectFromWhichKfToSend latestLocalId now now' =>
    let r := m.selectFromWhichKfToSend latestLocalId now now'
    (r.1, .fromId r.2)
  | .selectFromWhichMatchToSend latestLocalMatchIdx now now' =>
    let r := m.selectFromWhichMatchToSend latestLocalMatchIdx now now'
    (r.1, .fromId r.2)
  | .getCurrentNeighbors now =>
    (m, .neighbors (getCurrentNeighborsCallback m now))

end NeighborManager

/-- A manager built with `enable_neighbor_monitoring = enabled`; `start` are the readings of the
clock of its monitors. -/
def manager (enabled : Bool) (robotId maxNbRobots : ℕ) (initDelaySec maxDelaySec : ℚ)
    (start : ℕ → ℚ) : Process NeighborManager Call Result where
  init := {
    robotId, maxNbRobots
    neighborsMonitors := fun rid => {
      isEnabled := enabled
      originRobotId := rid
      initDelaySec, maxDelaySec
      initTime := start rid
      latestTimeStamp := start rid } }
  step := NeighborManager.step

/-- Whoever is asked about in the call is alive. -/
def Fresh (m : NeighborManager) (c : Call) : Prop :=
  ∀ now ∈ c.readings, ∀ i ∈ m.others, m.alive now i = true

/-! ### What one call answers -/

section Answers

variable {m : NeighborManager} {now : ℕ → ℚ}

theorem filter_alive_of_none (h : ∀ i ∈ m.others, m.alive now i = false) :
    m.others.filter (m.alive now) = [] :=
  List.filter_eq_nil_iff.mpr fun i hi => by simp [h i hi]

theorem filter_alive_of_all (h : ∀ i ∈ m.others, m.alive now i = true) :
    m.others.filter (m.alive now) = m.others := List.filter_eq_self.mpr h

theorem mem_others {i : ℕ} : i ∈ m.others ↔ i < m.maxNbRobots ∧ i ≠ m.robotId := by
  simp [NeighborManager.others]

/-- The least of one value and a start is the start if the value is not below it, or does not
occur. -/
theorem foldl_min_eq_start_iff {sent : ℕ → ℤ} {ids : List ℕ} {start v : ℤ}
    (h : ∀ i ∈ ids, sent i = v) :
    ids.foldl (fun fromId i => min (sent i) fromId) start = start ↔ ids = [] ∨ start ≤ v := by
  have hleast := @NeighborManager.le_foldl_min_iff sent ids start
  constructor
  · intro heq
    cases ids with
    | nil => exact Or.inl rfl
    | cons i rest =>
      have hle := (hleast.mp heq.ge).2 i List.mem_cons_self
      rw [h i List.mem_cons_self] at hle
      exact Or.inr hle
  · intro hle
    refine le_antisymm (hleast.mp le_rfl).1 (hleast.mpr ⟨le_rfl, fun i hi => ?_⟩)
    rw [h i hi]
    exact hle.resolve_left (List.ne_nil_of_mem hi)

/-- A robot that is not among the robots raises. -/
theorem getCurrentNeighborsCallback_eq_none (h : m.maxNbRobots ≤ m.robotId) :
    getCurrentNeighborsCallback m now = none := by
  refine if_neg fun hmem => ?_
  have hlt := List.mem_range.mp (List.mem_filter.mp hmem).1
  exact absurd hlt (not_lt.mpr h)

end Answers

/-- The robots beside the robot `robotId`. -/
def otherRobots (robotId maxNbRobots : ℕ) : List ℕ :=
  (List.range maxNbRobots).filter fun i => i ≠ robotId

/-- The call is answered alike after the calls `cs`: there is no other robot, or the answer does not
depend on the others. -/
def Harmless (robotId maxNbRobots : ℕ) (cs : List Call) : Call → Prop
  | .heartbeat .. => True
  | .checkNeighborsInRange _ => otherRobots robotId maxNbRobots = []
  | .localRobotIsBroker _ => ∀ i ∈ otherRobots robotId maxNbRobots, robotId ≤ i
  | .selectFromWhichKfToSend latestLocalId _ _ =>
    otherRobots robotId maxNbRobots = [] ∨ latestLocalId ≤ (lastOf Call.latestKf cs).getD (-1)
  | .selectFromWhichMatchToSend latestLocalMatchIdx _ _ =>
    otherRobots robotId maxNbRobots = [] ∨
      latestLocalMatchIdx ≤ (lastOf Call.latestMatch cs).getD (-1)
  | .getCurrentNeighbors _ => otherRobots robotId maxNbRobots = [] ∨ maxNbRobots ≤ robotId

/-- The two managers are of one robot, one hears of nobody and the other of everybody, and the other
has sent to everybody what it sent last. -/
structure Apart (cs : List Call) (off on : NeighborManager) : Prop where
  robotId : off.robotId = on.robotId
  maxNbRobots : off.maxNbRobots = on.maxNbRobots
  disabled : ∀ i, (off.neighborsMonitors i).isEnabled = false
  kf : ∀ i ∈ on.others,
    (on.neighborsMonitors i).lastKeyframeSent = (lastOf Call.latestKf cs).getD (-1)
  matchIdx : ∀ i ∈ on.others,
    (on.neighborsMonitors i).lastMatchSent = (lastOf Call.latestMatch cs).getD (-1)

namespace Apart

variable {cs : List Call} {off on : NeighborManager}

theorem others (h : Apart cs off on) : off.others = on.others := by
  unfold NeighborManager.others
  rw [h.robotId, h.maxNbRobots]

theorem none_alive (h : Apart cs off on) (now : ℕ → ℚ) (i : ℕ) : off.alive now i = false := by
  unfold NeighborManager.alive NeighborMonitor.isAlive
  rw [h.disabled i, if_neg (by simp)]

theorem checkNeighborsInRange_eq_iff (h : Apart cs off on) {now : ℕ → ℚ}
    (hfresh : ∀ i ∈ on.others, on.alive now i = true) :
    ((List.range off.maxNbRobots).map fun i => (i, (off.checkNeighborsInRange now).1 i)) =
        ((List.range on.maxNbRobots).map fun i => (i, (on.checkNeighborsInRange now).1 i)) ∧
      (off.checkNeighborsInRange now).2 = (on.checkNeighborsInRange now).2 ↔ on.others = [] := by
  constructor
  · rintro ⟨-, hlist⟩
    refine List.eq_nil_iff_forall_not_mem.mpr fun i hi => ?_
    obtain ⟨hlt, hne⟩ := mem_others.mp hi
    have hmem : i ∈ (on.checkNeighborsInRange now).2 :=
      List.mem_filter.mpr ⟨List.mem_range.mpr hlt, by simp [hfresh i hi]⟩
    rw [← hlist] at hmem
    have hoff := (List.mem_filter.mp hmem).2
    rw [h.none_alive, h.robotId, Bool.or_false, beq_iff_eq] at hoff
    exact hne hoff
  · intro hnil
    -- the robot is the only one
    have hself : ∀ i ∈ List.range on.maxNbRobots,
        (off.checkNeighborsInRange now).1 i = (on.checkNeighborsInRange now).1 i := by
      intro i hi
      have heq : i = on.robotId := by
        by_contra hne
        have hmem := mem_others.mpr ⟨List.mem_range.mp hi, hne⟩
        rw [hnil] at hmem
        exact absurd hmem List.not_mem_nil
      simp [NeighborManager.checkNeighborsInRange, heq, h.robotId]
    rw [h.maxNbRobots]
    refine ⟨List.map_congr_left fun i hi => by rw [hself i hi], ?_⟩
    show (List.range off.maxNbRobots).filter _ = (List.range on.maxNbRobots).filter _
    rw [h.maxNbRobots]
    exact List.filter_congr hself

theorem localRobotIsBroker_eq_iff (h : Apart cs off on) {now : ℕ → ℚ}
    (hfresh : ∀ i ∈ on.others, on.alive now i = true) :
    off.localRobotIsBroker now = on.localRobotIsBroker now ↔ ∀ i ∈ on.others, on.robotId ≤ i := by
  unfold NeighborManager.localRobotIsBroker
  rw [filter_alive_of_none fun i _ => h.none_alive now i, filter_alive_of_all hfresh, List.all_nil,
    eq_comm, List.all_eq_true]
  simp

theorem selectFromWhichKfToSend_eq_iff (h : Apart cs off on) {latest : ℤ} {now now' : ℕ → ℚ}
    (hfresh : ∀ i ∈ on.others, on.alive now i = true) :
    (off.selectFromWhichKfToSend latest now now').2 =
      (on.selectFromWhichKfToSend latest now now').2 ↔
        on.others = [] ∨ latest ≤ (lastOf Call.latestKf cs).getD (-1) := by
  show off.leastSent _ latest + 1 = on.leastSent _ latest + 1 ↔ _
  rw [filter_alive_of_none fun i _ => h.none_alive now i, filter_alive_of_all hfresh, add_left_inj,
    eq_comm]
  exact foldl_min_eq_start_iff h.kf

theorem selectFromWhichMatchToSend_eq_iff (h : Apart cs off on) {latest : ℤ} {now now' : ℕ → ℚ}
    (hfresh : ∀ i ∈ on.others, on.alive now i = true) :
    (off.selectFromWhichMatchToSend latest now now').2 =
        (on.selectFromWhichMatchToSend latest now now').2 ↔
      on.others = [] ∨ latest ≤ (lastOf Call.latestMatch cs).getD (-1) := by
  show off.leastMatchSent _ latest + 1 = on.leastMatchSent _ latest + 1 ↔ _
  rw [filter_alive_of_none fun i _ => h.none_alive now i, filter_alive_of_all hfresh, add_left_inj,
    eq_comm]
  exact foldl_min_eq_start_iff h.matchIdx

theorem getCurrentNeighbors_eq_iff (h : Apart cs off on) {now : ℕ → ℚ}
    (hfresh : ∀ i ∈ on.others, on.alive now i = true) :
    getCurrentNeighborsCallback off now =
        getCurrentNeighborsCallback on now ↔
      on.others = [] ∨ on.maxNbRobots ≤ on.robotId := by
  rcases le_or_gt on.maxNbRobots on.robotId with hle | hlt
  · have hle' : off.maxNbRobots ≤ off.robotId := by rwa [h.maxNbRobots, h.robotId]
    rw [getCurrentNeighborsCallback_eq_none hle, getCurrentNeighborsCallback_eq_none hle']
    exact iff_of_true rfl (Or.inr hle)
  · have hlt' : off.robotId < off.maxNbRobots := by rwa [h.maxNbRobots, h.robotId]
    obtain ⟨msg, hmsg, hids, horigins⟩ := getCurrentNeighborsCallback_spec hlt now
    obtain ⟨msg', hmsg', hids', horigins'⟩ := getCurrentNeighborsCallback_spec hlt' now
    have hnil' : msg'.robots = [] := List.eq_nil_iff_forall_not_mem.mpr fun i hi => by
      simpa [h.none_alive] using (hids' i).mp hi
    rw [hmsg, hmsg', Option.some.injEq]
    constructor
    · rintro rfl
      refine Or.inl (List.eq_nil_iff_forall_not_mem.mpr fun i hi => ?_)
      have hmem := (hids i).mpr ⟨hi, hfresh i hi⟩
      rw [hnil'] at hmem
      exact absurd hmem List.not_mem_nil
    · intro hothers
      have hnil := hothers.resolve_right (not_le.mpr hlt)
      have hnone : msg.robots = [] := List.eq_nil_iff_forall_not_mem.mpr fun i hi => by
        have hmem := ((hids i).mp hi).1
        rw [hnil] at hmem
        exact absurd hmem List.not_mem_nil
      obtain ⟨robots, origins⟩ := msg
      obtain ⟨robots', origins'⟩ := msg'
      obtain rfl : robots = [] := hnone
      obtain rfl : robots' = [] := hnil'
      obtain rfl : origins = [] := horigins
      obtain rfl : origins' = [] := horigins'
      rfl

/-- **Step lemma**: a fresh call is answered alike exactly if it is harmless. -/
theorem result_eq_iff (h : Apart cs off on) {c : Call} (hfresh : Fresh on c) :
    (off.step c).2 = (on.step c).2 ↔ Harmless on.robotId on.maxNbRobots cs c := by
  cases c with
  | heartbeat rid data now later => exact iff_of_true rfl trivial
  | checkNeighborsInRange now =>
    rw [NeighborManager.step, NeighborManager.step, Result.inRange.injEq]
    exact h.checkNeighborsInRange_eq_iff (hfresh now (by simp [Call.readings]))
  | localRobotIsBroker now =>
    rw [NeighborManager.step, NeighborManager.step, Result.isBroker.injEq]
    exact h.localRobotIsBroker_eq_iff (hfresh now (by simp [Call.readings]))
  | selectFromWhichKfToSend latest now now' =>
    rw [NeighborManager.step, NeighborManager.step, Result.fromId.injEq]
    exact h.selectFromWhichKfToSend_eq_iff (hfresh now (by simp [Call.readings]))
  | selectFromWhichMatchToSend latest now now' =>
    rw [NeighborManager.step, NeighborManager.step, Result.fromId.injEq]
    exact h.selectFromWhichMatchToSend_eq_iff (hfresh now (by simp [Call.readings]))
  | getCurrentNeighbors now =>
    rw [NeighborManager.step, NeighborManager.step, Result.neighbors.injEq]
    exact h.getCurrentNeighbors_eq_iff (hfresh now (by simp [Call.readings]))

theorem heartbeat_monitor (m : NeighborManager) (rid data : ℕ) (now later : ℚ) (i : ℕ) :
    (m.heartbeat rid data now later).neighborsMonitors i = m.neighborsMonitors i ∨
      (m.heartbeat rid data now later).neighborsMonitors i =
        (m.neighborsMonitors i).heartbeatCallback data now later := by
  unfold NeighborManager.heartbeat
  dsimp only
  split_ifs
  · by_cases heq : i = rid
    · subst heq
      exact Or.inr (Function.update_self _ _ _)
    · exact Or.inl (Function.update_of_ne heq _ _)
  · exact Or.inl rfl

theorem step_ids (m : NeighborManager) (c : Call) :
    (m.step c).1.robotId = m.robotId ∧ (m.step c).1.maxNbRobots = m.maxNbRobots := by
  cases c with
  | heartbeat rid data now later =>
    unfold NeighborManager.step NeighborManager.heartbeat
    dsimp only
    split_ifs <;> exact ⟨rfl, rfl⟩
  | _ => exact ⟨rfl, rfl⟩

theorem step_others (m : NeighborManager) (c : Call) : (m.step c).1.others = m.others := by
  unfold NeighborManager.others
  rw [(step_ids m c).1, (step_ids m c).2]

theorem step_isEnabled (m : NeighborManager) (c : Call) (i : ℕ) :
    ((m.step c).1.neighborsMonitors i).isEnabled = (m.neighborsMonitors i).isEnabled := by
  cases c with
  | heartbeat rid data now later =>
    rcases heartbeat_monitor m rid data now later i with h | h
    · exact congrArg NeighborMonitor.isEnabled h
    · refine (congrArg NeighborMonitor.isEnabled h).trans ?_
      unfold NeighborMonitor.heartbeatCallback
      dsimp only
      split_ifs <;> rfl
  | selectFromWhichKfToSend latest now now' =>
    show (if _ then _ else _ : NeighborMonitor).isEnabled = _
    split_ifs <;> rfl
  | selectFromWhichMatchToSend latest now now' =>
    show (if _ then _ else _ : NeighborMonitor).isEnabled = _
    split_ifs <;> rfl
  | _ => rfl

/-- What has been sent to a robot that is alive. -/
theorem step_sent {m : NeighborManager} {c : Call} (hfresh : Fresh m c) {i : ℕ} (hi : i ∈ m.others) :
    ((m.step c).1.neighborsMonitors i).lastKeyframeSent =
        c.latestKf.getD (m.neighborsMonitors i).lastKeyframeSent ∧
      ((m.step c).1.neighborsMonitors i).lastMatchSent =
        c.latestMatch.getD (m.neighborsMonitors i).lastMatchSent := by
  cases c with
  | heartbeat rid data now later =>
    show ((m.heartbeat rid data now later).neighborsMonitors i).lastKeyframeSent = _ ∧
      ((m.heartbeat rid data now later).neighborsMonitors i).lastMatchSent = _
    rcases heartbeat_monitor m rid data now later i with h | h
    · rw [h]
      exact ⟨rfl, rfl⟩
    · rw [h, NeighborMonitor.heartbeatCallback_lastKeyframeSent,
        NeighborMonitor.heartbeatCallback_lastMatchSent]
      exact ⟨rfl, rfl⟩
  | selectFromWhichKfToSend latest now now' =>
    show (if _ then _ else _ : NeighborMonitor).lastKeyframeSent = _ ∧
      (if _ then _ else _ : NeighborMonitor).lastMatchSent = _
    rw [if_pos ⟨hi, hfresh now' (by simp [Call.readings]) i hi⟩]
    exact ⟨rfl, rfl⟩
  | selectFromWhichMatchToSend latest now now' =>
    show (if _ then _ else _ : NeighborMonitor).lastKeyframeSent = _ ∧
      (if _ then _ else _ : NeighborMonitor).lastMatchSent = _
    rw [if_pos ⟨hi, hfresh now' (by simp [Call.readings]) i hi⟩]
    exact ⟨rfl, rfl⟩
  | _ => exact ⟨rfl, rfl⟩

/-- **Step lemma**: the managers stay apart. -/
theorem step (h : Apart cs off on) {c : Call} (hfresh : Fresh on c) :
    Apart (cs ++ [c]) (off.step c).1 (on.step c).1 := by
  have hlast : ∀ (a : Option ℤ) (b : Option ℤ), a.getD (b.getD (-1)) = (a.or b).getD (-1) := by
    intro a b
    cases a <;> rfl
  refine ⟨?_, ?_, fun i => ?_, fun i hi => ?_, fun i hi => ?_⟩
  · rw [(step_ids off c).1, (step_ids on c).1, h.robotId]
  · rw [(step_ids off c).2, (step_ids on c).2, h.maxNbRobots]
  · rw [step_isEnabled, h.disabled]
  · rw [step_others] at hi
    rw [(step_sent hfresh hi).1, h.kf i hi, lastOf_concat, hlast]
  · rw [step_others] at hi
    rw [(step_sent hfresh hi).2, h.matchIdx i hi, lastOf_concat, hlast]

end Apart

/-! ### Runs -/

section Runs

variable {robotId maxNbRobots : ℕ} {initDelaySec maxDelaySec : ℚ} {start : ℕ → ℚ}

theorem apart_of_fresh {cs : List Call}
    (h : (manager true robotId maxNbRobots initDelaySec maxDelaySec start).Always Fresh cs) :
    Apart cs ((manager false robotId maxNbRobots initDelaySec maxDelaySec start).after cs)
      ((manager true robotId maxNbRobots initDelaySec maxDelaySec start).after cs) := by
  induction cs using List.reverseRecOn with
  | nil => exact ⟨rfl, rfl, fun _ => rfl, fun _ _ => rfl, fun _ _ => rfl⟩
  | append_singleton cs c ih =>
    obtain ⟨hcs, hc⟩ := (Process.always_concat cs c).mp h
    rw [Process.after_concat, Process.after_concat]
    exact (ih hcs).step hc

theorem manager_ids (enabled : Bool) (cs : List Call) :
    ((manager enabled robotId maxNbRobots initDelaySec maxDelaySec start).after cs).robotId =
        robotId ∧
      ((manager enabled robotId maxNbRobots initDelaySec maxDelaySec start).after cs).maxNbRobots =
        maxNbRobots := by
  refine Process.invariant _ 
    (I := fun _ (m : NeighborManager) => m.robotId = robotId ∧ m.maxNbRobots = maxNbRobots)
    ⟨rfl, rfl⟩ (fun cs c ih => ?_) cs
  have hids := Apart.step_ids
    ((manager enabled robotId maxNbRobots initDelaySec maxDelaySec start).after cs) c
  exact ⟨hids.1.trans ih.1, hids.2.trans ih.2⟩

/-- **Switching monitoring off**: the manager answers a sequence of calls as one whose neighbors are
all alive exactly if every call is harmless after those before it. -/
theorem monitoring_off_iff {cs : List Call}
    (h : (manager true robotId maxNbRobots initDelaySec maxDelaySec start).Always Fresh cs) :
    (manager false robotId maxNbRobots initDelaySec maxDelaySec start).outputs cs =
        (manager true robotId maxNbRobots initDelaySec maxDelaySec start).outputs cs ↔
      ∀ pre c, pre ++ [c] <+: cs → Harmless robotId maxNbRobots pre c := by
  induction cs using List.reverseRecOn with
  | nil =>
    refine iff_of_true rfl fun pre c hp => ?_
    exact absurd (List.prefix_nil.mp hp) (by simp)
  | append_singleton cs c ih =>
    obtain ⟨hcs, hc⟩ := (Process.always_concat cs c).mp h
    have hlast := (apart_of_fresh hcs).result_eq_iff hc
    rw [(manager_ids true cs).1, (manager_ids true cs).2] at hlast
    rw [Process.forall_steps_concat, ← ih hcs, ← hlast, Process.outputs_concat,
      Process.outputs_concat]
    constructor
    · intro heq
      obtain ⟨hpre, hc⟩ := List.append_inj' heq rfl
      exact ⟨hpre, List.singleton_inj.mp hc⟩
    · rintro ⟨hpre, hc⟩
      exact congrArg₂ (fun l x => l ++ [x]) hpre hc

end Runs

instance (m : NeighborManager) (c : Call) : Decidable (Fresh m c) :=
  inferInstanceAs (Decidable (∀ now ∈ c.readings, ∀ i ∈ m.others, m.alive now i = true))

/-- The only neighbor is heard of, and the robot asks who is in range. -/
theorem monitoring_off_iff_inRange :
    ¬ ∀ cs, (manager true 0 2 0 5 fun _ => 0).Always Fresh cs →
      (manager false 0 2 0 5 fun _ => 0).outputs cs =
        (manager true 0 2 0 5 fun _ => 0).outputs cs := by
  intro h
  exact absurd (h [.heartbeat 1 1 0 0, .checkNeighborsInRange fun _ => 1] (by decide +kernel))
    (by decide +kernel)

/-- The robot with the least id asks whether it is the broker. -/
def asksBroker : List Call := [.heartbeat 1 1 0 0, .localRobotIsBroker fun _ => 1]

theorem monitoring_off_iff_broker :
    (manager false 0 2 0 5 fun _ => 0).outputs asksBroker =
      (manager true 0 2 0 5 fun _ => 0).outputs asksBroker := by
  refine (monitoring_off_iff (by decide +kernel)).mpr fun pre c hp => ?_
  have hc : c ∈ asksBroker := hp.subset (by simp)
  rcases List.mem_pair.mp hc with rfl | rfl
  · trivial
  · show ∀ i ∈ otherRobots 0 2, 0 ≤ i
    exact fun i _ => Nat.zero_le i

end RoverSwarm.Exchange
