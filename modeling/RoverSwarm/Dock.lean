import Mathlib.Algebra.Order.Ring.Rat
import Mathlib.Logic.Function.Basic
import RoverSwarm.Lib.Dict
import RoverSwarm.Lib.FirstBest

/-!
# Dock — `dock_monitor.py` and the callback of `battery_publisher.py`

The dock monitor keeps the last pose of every rover of its roster, classifies in each tick those
that are known, and publishes one line about the most engaged one.  The battery of a rover charges
if this line says so about its own name.  Only strict comparisons decide, so a rover at a distance
that is no number, or infinite, is never the one that is published.
-/

namespace RoverSwarm.Dock

open FirstBest

/-! ### Numbers -/

/-- A floating-point number, up to the sign of zero. -/
inductive Double where
  | nan
  | negInf
  | num (q : ℚ)
  | inf
deriving DecidableEq

namespace Double

/-- The comparison `a < b`; nothing compares with `nan`. -/
def lt : Double → Double → Bool
  | negInf, num _ => true
  | negInf, inf => true
  | num a, num b => a < b
  | num _, inf => true
  | _, _ => false

theorem lt_irrefl (a : Double) : lt a a = false := by cases a <;> simp [lt]

theorem lt_trans {a b c : Double} (hab : lt a b = true) (hbc : lt b c = true) : lt a c = true := by
  cases a <;> cases b <;> cases c <;> simp_all [lt]
  exact hab.trans hbc

/-- What is less than something is a number that is less than infinity. -/
theorem lt_inf {a b : Double} (h : lt a b = true) : lt a inf = true := by
  cases a <;> cases b <;> simp_all [lt]

/-- Below infinity any two numbers compare. -/
theorem lt_or_eq_or_lt {a b : Double} (ha : lt a inf = true) (hb : lt b inf = true) :
    lt a b = true ∨ a = b ∨ lt b a = true := by
  cases a <;> cases b <;> simp_all [lt]
  exact lt_trichotomy _ _

end Double

/-- The arithmetic of the floating-point unit and of the library `math`, and the format `.nf`. -/
structure Fp where
  lit : ℚ → Double
  add : Double → Double → Double
  sub : Double → Double → Double
  mul : Double → Double → Double
  mod : Double → Double → Double
  abs : Double → Double
  pi : Double
  cos : Double → Double
  sin : Double → Double
  atan2 : Double → Double → Double
  hypot : Double → Double → Double
  degrees : Double → Double
  fixed : ℕ → Double → String

/-- A quaternion of an odometry message. -/
structure Quaternion where
  x : Double
  y : Double
  z : Double
  w : Double

structure Pose where
  x : Double
  y : Double
  yaw : Double

/-! ### The four states -/

inductive DockState where
  | idle
  | approach
  | docking
  | charging
deriving DecidableEq

namespace DockState

/-- The name of the state in the status line. -/
def name : DockState → String
  | idle => "IDLE"
  | approach => "APPROACH"
  | docking => "DOCKING"
  | charging => "CHARGING"

def priority : DockState → ℕ
  | idle => 0
  | approach => 1
  | docking => 2
  | charging => 3

theorem name_eq_charging {s : DockState} : s.name = "CHARGING" ↔ s = charging := by
  cases s <;> decide

theorem notMem_name (s : DockState) : '|' ∉ s.name.toList := by cases s <;> decide

theorem priority_injective : priority.Injective := by
  intro s t h
  cases s <;> cases t <;> first | rfl | exact absurd h (by decide)

theorem priority_le_charging (s : DockState) : s.priority ≤ charging.priority := by
  cases s <;> decide

theorem idle_priority_le (s : DockState) : idle.priority ≤ s.priority := Nat.zero_le _

end DockState

/-- `best_ns`, `best_state` and `best_dist`. -/
structure Best where
  ns : Option String
  state : DockState
  dist : Double
deriving DecidableEq

namespace Best

/-- Nothing has been seen yet. -/
def start : Best := ⟨none, .idle, .inf⟩

/-- The test that lets a rover take over. -/
def Beats (a b : Best) : Prop :=
  b.state.priority < a.state.priority ∨
    a.state.priority = b.state.priority ∧ Double.lt a.dist b.dist = true

instance : DecidableRel Beats := fun _ _ => inferInstanceAs (Decidable (_ ∨ _))

instance : IsStrictOrder Best Beats where
  irrefl a h := by
    rcases h with h | ⟨_, h⟩
    · omega
    · rw [Double.lt_irrefl] at h
      exact Bool.false_ne_true h
  trans a b c hab hbc := by
    rcases hab with hab | ⟨hab, hab'⟩ <;> rcases hbc with hbc | ⟨hbc, hbc'⟩
    · exact Or.inl (by omega)
    · exact Or.inl (by omega)
    · exact Or.inl (by omega)
    · exact Or.inr ⟨by omega, Double.lt_trans hab' hbc'⟩

/-- `best_ns or "-"`: the empty string counts as nothing. -/
def shown : Option String → String
  | none => "-"
  | some ns => if ns = "" then "-" else ns

/-- The status line. -/
def status (fp : Fp) (b : Best) : String :=
  b.state.name ++ "|" ++ shown b.ns ++ "|" ++ fp.fixed 3 b.dist

end Best

/-! ### The dock monitor -/

def odomTopic (ns : String) : String := "/" ++ ns ++ "/odom"

/-- `yaw_from_quat`. -/
def yawFromQuat (fp : Fp) (q : Quaternion) : Double :=
  let two := fp.lit 2
  let sinyCosp := fp.mul two (fp.add (fp.mul q.w q.z) (fp.mul q.x q.y))
  let cosyCosp :=
    fp.sub (fp.lit 1) (fp.mul two (fp.add (fp.mul q.y q.y) (fp.mul q.z q.z)))
  fp.atan2 sinyCosp cosyCosp

/-- `angle_diff`. -/
def angleDiff (fp : Fp) (a b : Double) : Double :=
  fp.sub (fp.mod (fp.add (fp.sub a b) fp.pi) (fp.mul (fp.lit 2) fp.pi)) fp.pi

/-- The parameters that are set: `dock_id`, and by name the ones that are numbers. -/
structure Overrides where
  dockId : Option ℤ
  number : String → Option Double

/-- `_param`: the default stands for a parameter that is not set, or set to nothing. -/
def Overrides.param (o : Overrides) (key : String) (default : Double) : Double :=
  (o.number key).getD default

/-- The node.  `validTopic` says which names the middleware takes for a subscription; every rover
of `rovers` has been subscribed to. -/
structure DockMonitor (validTopic : String → Bool) where
  dockId : ℤ
  dockYaw : Double
  chargingRadius : Double
  chargingHeadingTol : Double
  dockingRadius : Double
  dockingHeadingTol : Double
  approachRadius : Double
  contactX : Double
  contactY : Double
  rovers : Dict String (Option Pose)
  lastState : String → DockState
  watched : ∀ ns ∈ rovers.keys, validTopic (odomTopic ns) = true

namespace DockMonitor

variable {validTopic : String → Bool} (fp : Fp)

/-- The roster, in order. -/
def namespaces (node : DockMonitor validTopic) : List String := node.rovers.keys

/-- `__init__` up to the subscriptions. -/
def configured (o : Overrides) : DockMonitor validTopic :=
  let dockX := o.param "dock_x" (fp.lit (-2))
  let dockY := o.param "dock_y" (fp.lit 0)
  let dockYaw := o.param "dock_yaw" (fp.lit 0)
  let contactOffset := o.param "contact_offset" (fp.lit (15 / 100))
  { dockId := o.dockId.getD 0
    dockYaw := dockYaw
    chargingRadius := o.param "charging_radius" (fp.lit (10 / 100))
    chargingHeadingTol := o.param "charging_heading_tol" (fp.lit (35 / 100))
    dockingRadius := o.param "docking_radius" (fp.lit (30 / 100))
    dockingHeadingTol := o.param "docking_heading_tol" (fp.lit (60 / 100))
    approachRadius := o.param "approach_radius" (fp.lit 1)
    contactX := fp.sub dockX (fp.mul contactOffset (fp.cos dockYaw))
    contactY := fp.sub dockY (fp.mul contactOffset (fp.sin dockYaw))
    rovers := ∅
    lastState := fun _ => .idle
    watched := fun _ h => absurd h List.not_mem_nil }

theorem watched_set {node : DockMonitor validTopic} {ns : String} (pose : Option Pose)
    (h : validTopic (odomTopic ns) = true) :
    ∀ ns' ∈ (node.rovers.set ns pose).keys, validTopic (odomTopic ns') = true := by
  intro ns' hmem
  obtain ⟨e, he, rfl⟩ := List.mem_map.mp hmem
  rcases Dict.mem_set he with rfl | he
  · exact h
  · exact node.watched _ (List.mem_map.mpr ⟨e, he, rfl⟩)

/-- Watch one more rover; a name that no topic may have raises. -/
def watch (node : DockMonitor validTopic) (ns : String) : Option (DockMonitor validTopic) :=
  if h : validTopic (odomTopic ns) = true then
    some { node with rovers := node.rovers.set ns none, watched := watched_set none h }
  else none

/-- `__init__`. -/
def init (o : Overrides) (roverNamespaces : List String) : Option (DockMonitor validTopic) :=
  roverNamespaces.foldlM watch (configured fp o)

/-- The callback of the subscription to a rover. -/
def cb (node : DockMonitor validTopic) (ns : {ns // validTopic (odomTopic ns) = true})
    (x y : Double) (q : Quaternion) : DockMonitor validTopic :=
  let pose : Pose := ⟨x, y, yawFromQuat fp q⟩
  { node with rovers := node.rovers.set ns.1 (some pose), watched := watched_set _ ns.2 }

/-- `classify`: the state, the distance to the contact and the heading error. -/
def classify (node : DockMonitor validTopic) (pose : Pose) : DockState × Double × Double :=
  let dx := fp.sub pose.x node.contactX
  let dy := fp.sub pose.y node.contactY
  let dist := fp.hypot dx dy
  let headingErr := fp.abs (angleDiff fp pose.yaw node.dockYaw)
  if Double.lt dist node.chargingRadius && Double.lt headingErr node.chargingHeadingTol then
    (.charging, dist, headingErr)
  else if Double.lt dist node.dockingRadius && Double.lt headingErr node.dockingHeadingTol then
    (.docking, dist, headingErr)
  else if Double.lt dist node.approachRadius then (.approach, dist, headingErr)
  else (.idle, dist, headingErr)

/-- What the loop of `tick` carries along. -/
structure Scan where
  best : Best := Best.start
  lastState : String → DockState
  log : List String := []

/-- One turn of the loop. -/
def visit (node : DockMonitor validTopic) (t : Scan) (e : String × Option Pose) : Scan :=
  match e with
  | (_, none) => t
  | (ns, some pose) =>
    let (state, dist, herr) := node.classify fp pose
    let t :=
      if state ≠ t.lastState ns then
        { t with
          lastState := Function.update t.lastState ns state
          log := t.log ++ [ns ++ ": " ++ (t.lastState ns).name ++ " -> " ++ state.name ++
            "  (dist=" ++ fp.fixed 2 dist ++ " m, heading_err=" ++
            fp.fixed 0 (fp.degrees herr) ++ "°)"] }
      else t
    if Best.Beats ⟨some ns, state, dist⟩ t.best then { t with best := ⟨some ns, state, dist⟩ }
    else t

/-- The loop of `tick`. -/
def scan (node : DockMonitor validTopic) : Scan :=
  node.rovers.entries.foldl (node.visit fp) { lastState := node.lastState }

/-- `tick`: the node afterwards, what it logs and what it publishes. -/
def tick (node : DockMonitor validTopic) : DockMonitor validTopic × List String × String :=
  let t := node.scan fp
  ({ node with lastState := t.lastState }, t.log, t.best.status fp)

theorem watch_eq_some {node node' : DockMonitor validTopic} {ns : String}
    (h : node.watch ns = some node') :
    node'.rovers = node.rovers.set ns none := by
  unfold watch at h
  split_ifs at h
  rw [← Option.some.inj h]

theorem foldlM_watch_namespaces {node node' : DockMonitor validTopic} {roster : List String}
    (hnodup : (node.namespaces ++ roster).Nodup) (h : roster.foldlM watch node = some node') :
    node'.namespaces = node.namespaces ++ roster := by
  induction roster generalizing node with
  | nil =>
    rw [List.append_nil]
    exact congrArg namespaces (Option.some.inj h).symm
  | cons ns roster ih =>
    rw [List.foldlM_cons] at h
    obtain ⟨next, hnext, hrest⟩ := Option.bind_eq_some_iff.mp h
    have hnew : ns ∉ node.rovers.keys := fun hmem =>
      (List.nodup_append.mp hnodup).2.2 ns hmem ns List.mem_cons_self rfl
    have hkeys : next.namespaces = node.namespaces ++ [ns] := by
      show next.rovers.keys = _
      rw [watch_eq_some hnext]
      exact Dict.keys_set_of_notMem none hnew
    have happ : next.namespaces ++ roster = node.namespaces ++ ns :: roster := by
      rw [hkeys, List.append_assoc, List.singleton_append]
    rw [← happ] at hnodup ⊢
    exact ih hnodup hrest

/-- A node watches the roster it has been given, in this order. -/
theorem init_namespaces {o : Overrides} {roster : List String} (hnodup : roster.Nodup)
    {node : DockMonitor validTopic} (h : init fp o roster = some node) :
    node.namespaces = roster := by
  have hstart : ((configured fp o : DockMonitor validTopic).namespaces ++ roster).Nodup := hnodup
  exact foldlM_watch_namespaces hstart h

/-- Odometry of a rover on the roster leaves the roster as it is. -/
theorem cb_namespaces {node : DockMonitor validTopic}
    {ns : {ns // validTopic (odomTopic ns) = true}} (h : ns.1 ∈ node.namespaces) (x y : Double)
    (q : Quaternion) : (node.cb fp ns x y q).namespaces = node.namespaces :=
  Dict.keys_set_of_mem _ h

/-! ### What a tick sees -/

/-- The candidate that a rover with a known pose is. -/
def sighting (node : DockMonitor validTopic) (e : String × Option Pose) : Option Best :=
  e.2.map fun pose => ⟨some e.1, (node.classify fp pose).1, (node.classify fp pose).2.1⟩

/-- What the tick makes of a rover: its state and its distance, if the pose is known. -/
def stateOf (node : DockMonitor validTopic) (ns : String) : Option (DockState × Double) :=
  (node.rovers.get? ns).join.map fun pose =>
    ((node.classify fp pose).1, (node.classify fp pose).2.1)

theorem visit_best (node : DockMonitor validTopic) (t : Scan) (e : String × Option Pose) :
    (node.visit fp t e).best = (node.sighting fp e).elim t.best (better Best.Beats t.best) := by
  obtain ⟨ns, _ | pose⟩ := e
  · rfl
  · simp only [visit, sighting, better, Option.map_some, Option.elim_some]
    split_ifs <;> rfl

theorem foldl_visit_best (node : DockMonitor validTopic) (es : List (String × Option Pose))
    (t : Scan) : (es.foldl (node.visit fp) t).best =
      firstBest Best.Beats t.best (es.filterMap (node.sighting fp)) := by
  induction es generalizing t with
  | nil => rfl
  | cons e es ih =>
    rw [List.foldl_cons, ih, visit_best, List.filterMap_cons]
    cases node.sighting fp e <;> rfl

/-- The best of the candidates, the first one where several are equally good. -/
def best (node : DockMonitor validTopic) : Best :=
  firstBest Best.Beats Best.start (node.rovers.entries.filterMap (node.sighting fp))

theorem tick_status (node : DockMonitor validTopic) :
    (node.tick fp).2.2 = (node.best fp).status fp :=
  congrArg (Best.status fp) (foldl_visit_best fp node node.rovers.entries _)

variable {fp} {node : DockMonitor validTopic}

theorem sighting_eq_some {e : String × Option Pose} (he : e ∈ node.rovers.entries) {b : Best} :
    node.sighting fp e = some b ↔
      b.ns = some e.1 ∧ node.stateOf fp e.1 = some (b.state, b.dist) := by
  obtain ⟨ns, pose⟩ := e
  have hget : node.rovers.get? ns = some pose := Dict.get?_eq_some_iff.mpr he
  obtain ⟨ns', state, dist⟩ := b
  rw [stateOf, hget]
  cases pose with
  | none => simp [sighting]
  | some pose => simp [sighting, eq_comm]

/-- Only rovers on the roster are classified. -/
theorem mem_entries_of_stateOf {ns : String} {sd : DockState × Double}
    (h : node.stateOf fp ns = some sd) : ∃ pose, (ns, pose) ∈ node.rovers.entries := by
  obtain ⟨pose, hpose, _⟩ := Option.map_eq_some_iff.mp h
  exact ⟨some pose, Dict.get?_eq_some_iff.mp (Option.join_eq_some_iff.mp hpose)⟩

theorem mem_sightings {b : Best} : b ∈ node.rovers.entries.filterMap (node.sighting fp) ↔
    ∃ ns, b.ns = some ns ∧ node.stateOf fp ns = some (b.state, b.dist) := by
  rw [List.mem_filterMap]
  constructor
  · rintro ⟨e, he, hb⟩
    exact ⟨e.1, (sighting_eq_some he).mp hb⟩
  · rintro ⟨ns, hns, hstate⟩
    obtain ⟨pose, he⟩ := mem_entries_of_stateOf hstate
    exact ⟨(ns, pose), he, (sighting_eq_some he).mpr ⟨hns, hstate⟩⟩

/-- A rover that is not idle is at a distance that is a number. -/
theorem lt_inf_of_ne_idle {ns : String} {state : DockState} {d : Double}
    (h : node.stateOf fp ns = some (state, d)) (hstate : state ≠ .idle) :
    Double.lt d .inf = true := by
  obtain ⟨pose, _, hclass⟩ := Option.map_eq_some_iff.mp h
  simp only [classify] at hclass
  split_ifs at hclass with hcharging hdocking happroach
  · obtain ⟨_, rfl⟩ := Prod.mk.inj hclass
    exact Double.lt_inf ((Bool.and_eq_true _ _).mp hcharging).1
  · obtain ⟨_, rfl⟩ := Prod.mk.inj hclass
    exact Double.lt_inf ((Bool.and_eq_true _ _).mp hdocking).1
  · obtain ⟨_, rfl⟩ := Prod.mk.inj hclass
    exact Double.lt_inf happroach
  · exact absurd (congrArg Prod.fst hclass).symm hstate

/-- Nobody whose pose is known is more engaged than what is kept. -/
theorem not_beats_best {ns : String} {state : DockState} {d : Double}
    (h : node.stateOf fp ns = some (state, d)) :
    ¬ Best.Beats ⟨some ns, state, d⟩ (node.best fp) :=
  not_beats_firstBest (List.mem_cons_of_mem _ (mem_sightings.mpr ⟨ns, rfl, h⟩))

theorem best_of_ne_start (h : node.best fp ≠ Best.start) :
    ∃ ns, (node.best fp).ns = some ns ∧
      node.stateOf fp ns = some ((node.best fp).state, (node.best fp).dist) := by
  have hmem : node.best fp ∈ Best.start :: node.rovers.entries.filterMap (node.sighting fp) :=
    firstBest_mem _
  exact mem_sightings.mp ((List.mem_cons.mp hmem).resolve_left h)

/-- Some rover is seen at a distance that is a number if the scan does not end where it started. -/
theorem best_ne_start_iff : node.best fp ≠ Best.start ↔
    ∃ s state d, node.stateOf fp s = some (state, d) ∧ Double.lt d .inf = true := by
  unfold best
  rw [firstBest_ne_start_iff]
  constructor
  · rintro ⟨b, hb, hbeats⟩
    obtain ⟨s, _, hs⟩ := mem_sightings.mp hb
    refine ⟨s, b.state, b.dist, hs, ?_⟩
    rcases hbeats with hlt | ⟨_, hlt⟩
    · exact lt_inf_of_ne_idle hs fun heq => absurd hlt (by rw [heq]; exact lt_irrefl _)
    · exact hlt
  · rintro ⟨s, state, d, hs, hlt⟩
    refine ⟨⟨some s, state, d⟩, mem_sightings.mpr ⟨s, rfl, hs⟩, ?_⟩
    rcases state.idle_priority_le.lt_or_eq with h | h
    · exact Or.inl h
    · exact Or.inr ⟨h.symm, hlt⟩

/-! ### The first of the nearest rovers that charge -/

variable (fp) in
/-- The rover is charging, and no other one that is charging is nearer, nor equally near and
earlier in the roster. -/
def FirstCharging (node : DockMonitor validTopic) (r : String) : Prop :=
  ∃ d, node.stateOf fp r = some (.charging, d) ∧
    ∀ s ∈ node.namespaces, s ≠ r → ∀ e, node.stateOf fp s = some (.charging, e) →
      ¬ Double.lt e d = true ∧
        ¬ (e = d ∧ node.namespaces.idxOf s < node.namespaces.idxOf r)

/-- The rovers earlier in the roster are those that the scan meets earlier. -/
theorem earlier_iff {pre post : List (String × Option Pose)} {e y : String × Option Pose}
    (hsplit : node.rovers.entries = pre ++ e :: post) (hy : y ∈ node.rovers.entries) :
    node.namespaces.idxOf y.1 < node.namespaces.idxOf e.1 ↔ y ∈ pre := by
  have hkeys : node.namespaces = pre.map Prod.fst ++ e.1 :: post.map Prod.fst := by
    show node.rovers.entries.map Prod.fst = _
    rw [hsplit, List.map_append, List.map_cons]
  rw [hkeys, idxOf_lt_iff (hkeys ▸ node.rovers.nodup)]
  refine ⟨fun h => ?_, List.mem_map_of_mem⟩
  obtain ⟨y', hy', hkey⟩ := List.mem_map.mp h
  have hentry : (y.1, y'.2) ∈ node.rovers.entries := by
    rw [hsplit, ← hkey]
    exact List.mem_append_left _ hy'
  have hpose : some y'.2 = some y.2 :=
    (Dict.get?_eq_some_iff.mpr hentry).symm.trans (Dict.get?_eq_some_iff.mpr hy)
  rw [show y = y' from Prod.ext hkey.symm (Option.some.inj hpose).symm]
  exact hy'

/-- What the scan meets behind a rover is another rover. -/
theorem ne_of_mem_post {pre post : List (String × Option Pose)} {e y : String × Option Pose}
    (hsplit : node.rovers.entries = pre ++ e :: post) (hy : y ∈ post) : y.1 ≠ e.1 := by
  have hnodup := node.rovers.nodup
  rw [hsplit, List.map_append, List.map_cons] at hnodup
  have hnotin := (List.nodup_cons.mp (List.nodup_append.mp hnodup).2.1).1
  exact fun heq => hnotin (List.mem_map.mpr ⟨y, hy, heq⟩)

/-- The scan ends with the first of the nearest rovers that charge. -/
theorem best_of_firstCharging {r : String} (h : node.FirstCharging fp r) :
    ∃ d, node.best fp = ⟨some r, .charging, d⟩ := by
  obtain ⟨d, hr, hfirst⟩ := h
  refine ⟨d, ?_⟩
  obtain ⟨pose, hmem⟩ := mem_entries_of_stateOf hr
  obtain ⟨pre, post, hsplit⟩ := List.append_of_mem hmem
  have hsight : node.sighting fp (r, pose) = some ⟨some r, .charging, d⟩ :=
    (sighting_eq_some hmem).mpr ⟨rfl, hr⟩
  -- what another rover is, if it charges
  have hother : ∀ e ∈ node.rovers.entries, e.1 ≠ r → ∀ x : Best, node.sighting fp e = some x →
      x.state = .charging → Double.lt x.dist .inf = true ∧ ¬ Double.lt x.dist d = true ∧
        ¬ (x.dist = d ∧ node.namespaces.idxOf e.1 < node.namespaces.idxOf r) := by
    intro e he hne x hx hcharging
    obtain ⟨_, hstate⟩ := (sighting_eq_some he).mp hx
    rw [hcharging] at hstate
    exact ⟨lt_inf_of_ne_idle hstate (by decide),
      hfirst e.1 (List.mem_map_of_mem he) hne x.dist hstate⟩
  unfold best
  rw [hsplit, List.filterMap_append, List.filterMap_cons_some hsight]
  refine firstBest_eq_of_beats ?_ ?_
  · intro x hx
    rcases List.mem_cons.mp hx with rfl | hx
    · exact Or.inl (by show DockState.idle.priority < DockState.charging.priority; decide)
    · obtain ⟨e, he, hsx⟩ := List.mem_filterMap.mp hx
      by_cases hcharging : x.state = .charging
      · have hentry : e ∈ node.rovers.entries := hsplit ▸ List.mem_append_left _ he
        have hearlier : node.namespaces.idxOf e.1 < node.namespaces.idxOf r :=
          (earlier_iff hsplit hentry).mpr he
        have hne : e.1 ≠ r := fun heq => absurd hearlier (by rw [heq]; exact lt_irrefl _)
        obtain ⟨hinf, hnlt, hneq⟩ := hother e hentry hne x hsx hcharging
        rcases Double.lt_or_eq_or_lt (lt_inf_of_ne_idle hr (by decide)) hinf with hlt | heq | hlt
        · exact Or.inr ⟨by rw [hcharging], hlt⟩
        · exact absurd ⟨heq.symm, hearlier⟩ hneq
        · exact absurd hlt hnlt
      · refine Or.inl (lt_of_le_of_ne x.state.priority_le_charging fun heq => ?_)
        exact hcharging (DockState.priority_injective heq)
  · intro x hx hbeats
    obtain ⟨e, he, hsx⟩ := List.mem_filterMap.mp hx
    have hentry : e ∈ node.rovers.entries :=
      hsplit ▸ List.mem_append_right _ (List.mem_cons_of_mem _ he)
    rcases hbeats with hlt | ⟨heq, hlt⟩
    · have hle := x.state.priority_le_charging
      exact absurd hlt (by show ¬ DockState.charging.priority < _; omega)
    · have hcharging := DockState.priority_injective heq
      exact (hother e hentry (ne_of_mem_post hsplit he) x hsx hcharging).2.1 hlt

/-- A rover that is charging where the scan ends is the first of the nearest. -/
theorem firstCharging_of_best {r : String} {d : Double}
    (h : node.best fp = ⟨some r, .charging, d⟩) : node.FirstCharging fp r := by
  have hstart : node.best fp ≠ Best.start := by
    rw [h]
    exact fun heq => DockState.noConfusion (congrArg Best.state heq)
  obtain ⟨ns, hns, hr⟩ := best_of_ne_start hstart
  rw [h] at hns hr
  obtain rfl : r = ns := Option.some.inj hns
  refine ⟨d, hr, fun s _ _ e hs => ⟨fun hlt => ?_, ?_⟩⟩
  · have hnot := not_beats_best hs
    rw [h] at hnot
    exact hnot (Or.inr ⟨rfl, hlt⟩)
  · rintro ⟨rfl, hearlier⟩
    obtain ⟨pre, post, hsights, htook⟩ := exists_takeover hstart
    have hbest : firstBest Best.Beats Best.start
        (node.rovers.entries.filterMap (node.sighting fp)) = ⟨some r, .charging, e⟩ := h
    rw [hbest] at hsights htook
    obtain ⟨front, back, hentries, rfl, hback⟩ := List.filterMap_eq_append_iff.mp hsights
    obtain ⟨skipped, x, rest, rfl, hskipped, hx, _⟩ := List.filterMap_eq_cons_iff.mp hback
    have hsplit : node.rovers.entries = (front ++ skipped) ++ x :: rest := by
      rw [hentries, List.append_assoc]
    have hxmem : x ∈ node.rovers.entries :=
      hsplit ▸ List.mem_append_right _ List.mem_cons_self
    obtain rfl : r = x.1 := Option.some.inj ((sighting_eq_some hxmem).mp hx).1
    -- the other rover is in front, and took part in the scan
    obtain ⟨pose, hs'⟩ := mem_entries_of_stateOf hs
    have hsight : node.sighting fp (s, pose) = some ⟨some s, .charging, e⟩ :=
      (sighting_eq_some hs').mpr ⟨rfl, hs⟩
    have hfront : (⟨some s, .charging, e⟩ : Best) ∈ front.filterMap (node.sighting fp) := by
      rcases List.mem_append.mp ((earlier_iff hsplit hs').mp hearlier) with hy | hy
      · exact List.mem_filterMap.mpr ⟨(s, pose), hy, hsight⟩
      · rw [hskipped _ hy] at hsight
        exact absurd hsight.symm (Option.some_ne_none _)
    have hnot : ¬ Best.Beats ⟨some s, .charging, e⟩
        (firstBest Best.Beats Best.start (front.filterMap (node.sighting fp))) :=
      not_beats_firstBest (List.mem_cons_of_mem _ hfront)
    exact hnot htook

end DockMonitor

/-! ### The battery -/

/-- What the callback of `battery_publisher.py` reads and writes: the namespace of the rover and
whether it is charging. -/
structure BatteryPublisher where
  ns : String
  charging : Bool

/-- `_on_dock`. -/
def BatteryPublisher.onDock (b : BatteryPublisher) (data : String) : BatteryPublisher :=
  match data.toList.splitOn '|' with
  | state :: ns :: _ =>
    { b with charging := String.ofList state == "CHARGING" && String.ofList ns == b.ns }
  | _ => b

/-- The battery reads the state and the name off the line, whatever stands in its last part. -/
theorem onDock_status {fp : Fp} {b : Best} (h : '|' ∉ (Best.shown b.ns).toList)
    (battery : BatteryPublisher) : (battery.onDock (b.status fp)).charging = true ↔
      b.state = .charging ∧ Best.shown b.ns = battery.ns := by
  have hline : (b.status fp).toList = b.state.name.toList ++ '|' ::
      ((Best.shown b.ns).toList ++ '|' :: (fp.fixed 3 b.dist).toList) := by
    simp [Best.status]
  unfold BatteryPublisher.onDock
  rw [hline, List.splitOn_append_cons_self_of_not_mem b.state.notMem_name,
    List.splitOn_append_cons_self_of_not_mem h]
  simp [DockState.name_eq_charging]

/-! ### What the line says -/

namespace DockMonitor

variable {validTopic : String → Bool} {fp : Fp} {node : DockMonitor validTopic}

variable (fp) in
/-- The line that is published is that of a rover whose pose is known, and no such rover has a
higher priority, or the same one and a smaller distance. -/
def PublishesForemost (node : DockMonitor validTopic) : Prop :=
  ∃ r state d, node.stateOf fp r = some (state, d) ∧
    (node.tick fp).2.2 = state.name ++ "|" ++ r ++ "|" ++ fp.fixed 3 d ∧
    ∀ s state' d', node.stateOf fp s = some (state', d') →
      ¬ (state.priority < state'.priority ∨
        state'.priority = state.priority ∧ Double.lt d' d = true)

theorem mem_namespaces_of_stateOf {ns : String} {sd : DockState × Double}
    (h : node.stateOf fp ns = some sd) : ns ∈ node.namespaces := by
  obtain ⟨pose, he⟩ := mem_entries_of_stateOf h
  exact List.mem_map.mpr ⟨(ns, pose), he, rfl⟩

/-- A rover that is watched has a name, and is shown by it. -/
theorem shown_of_mem (hslash : validTopic "//odom" = false) {ns : String}
    (h : ns ∈ node.namespaces) : Best.shown (some ns) = ns := by
  refine if_neg fun hempty => ?_
  have hvalid := node.watched ns h
  rw [hempty] at hvalid
  have htopic : odomTopic "" = "//odom" := by decide
  rw [htopic, hslash] at hvalid
  exact Bool.false_ne_true hvalid

theorem notMem_shown_best (hslash : validTopic "//odom" = false)
    (hsep : ∀ ns ∈ node.namespaces, '|' ∉ ns.toList) :
    '|' ∉ (Best.shown (node.best fp).ns).toList := by
  by_cases hstart : node.best fp = Best.start
  · rw [hstart]
    decide
  · obtain ⟨ns, hns, hstate⟩ := best_of_ne_start hstart
    have hmem := mem_namespaces_of_stateOf hstate
    rw [hns, shown_of_mem hslash hmem]
    exact hsep ns hmem

/-- If the line names a rover that is charging, the scan ended with this rover. -/
theorem best_eq_of_shown (hslash : validTopic "//odom" = false) {r : String}
    (hstate : (node.best fp).state = .charging) (hshown : Best.shown (node.best fp).ns = r) :
    node.best fp = ⟨some r, .charging, (node.best fp).dist⟩ := by
  have hstart : node.best fp ≠ Best.start := fun heq => by
    rw [heq] at hstate
    exact DockState.noConfusion hstate
  obtain ⟨ns, hns, hmem⟩ := best_of_ne_start hstart
  rw [hns, shown_of_mem hslash (mem_namespaces_of_stateOf hmem)] at hshown
  rw [← hshown, ← hns, ← hstate]

/-- The battery of a rover charges exactly if this rover is the first of the nearest ones that are
charging.  The line is about a foremost rover if some rover is seen at a distance that is a number;
if none is, as before the first odometry, it is about nobody. -/
theorem battery_agrees (hslash : validTopic "//odom" = false) (node : DockMonitor validTopic)
    (hsep : ∀ ns ∈ node.namespaces, '|' ∉ ns.toList) :
    (∀ r ∈ node.namespaces, ∀ battery : BatteryPublisher, battery.ns = r →
      ((battery.onDock (node.tick fp).2.2).charging = true ↔ node.FirstCharging fp r)) ∧
    ((∃ s state d, node.stateOf fp s = some (state, d) ∧ Double.lt d .inf = true) →
      node.PublishesForemost fp) ∧
    ((¬ ∃ s state d, node.stateOf fp s = some (state, d) ∧ Double.lt d .inf = true) →
      (node.tick fp).2.2 = "IDLE|-|" ++ fp.fixed 3 .inf) := by
  refine ⟨?_, ?_, ?_⟩
  · rintro r hr battery rfl
    rw [tick_status, onDock_status (notMem_shown_best hslash hsep)]
    constructor
    · rintro ⟨hstate, hshown⟩
      exact firstCharging_of_best (best_eq_of_shown hslash hstate hshown)
    · intro h
      obtain ⟨d, hbest⟩ := best_of_firstCharging h
      rw [hbest]
      exact ⟨rfl, shown_of_mem hslash hr⟩
  · intro hseen
    obtain ⟨r, hns, hr⟩ := best_of_ne_start (best_ne_start_iff.mpr hseen)
    refine ⟨r, _, _, hr, ?_, fun s state' d' hs => not_beats_best hs⟩
    rw [tick_status, Best.status, hns, shown_of_mem hslash (mem_namespaces_of_stateOf hr)]
  · intro hseen
    rw [tick_status, not_not.mp (mt best_ne_start_iff.mp hseen)]
    rfl

/-! ### Runs on exact numbers -/

/-- An operation on numbers, where both are given. -/
def exactly (f : ℚ → ℚ → ℚ) : Double → Double → Double
  | .num a, .num b => .num (f a b)
  | .inf, .num _ => .inf
  | _, _ => .nan

/-- Arithmetic without rounding, for headings of zero and positions on the axis of the dock. -/
def exactFp : Fp where
  lit := .num
  add := exactly (· + ·)
  sub := exactly (· - ·)
  mul := exactly (· * ·)
  mod := exactly fun a b => a - b * (a / b).floor
  abs
    | .num a => .num |a|
    | .negInf => .inf
    | a => a
  pi := .num (884279719003555 / 281474976710656)
  cos := fun _ => .num 1
  sin := fun _ => .num 0
  atan2 := fun _ _ => .num 0
  hypot
    | .num a, .num b => .num (max |a| |b|)
    | _, _ => .inf
  degrees := fun a => a
  fixed n
    | .nan => "nan"
    | .negInf => "-inf"
    | .inf => "inf"
    | .num q =>
      let m := (q.num.natAbs * 10 ^ n + q.den / 2) / q.den
      (if q < 0 then "-" else "") ++ toString (m / 10 ^ n) ++
        (if n = 0 then "" else "." ++ String.ofList ((toString (m % 10 ^ n)).toList.leftpad n '0'))

/-- The middleware refuses a name that repeats the slash. -/
def noDoubleSlash (t : String) : Bool := !(t.toList.splitOn '/').tail.contains []

/-- The subscription to `rover_0`. -/
def rover0 : {ns // noDoubleSlash (odomTopic ns) = true} := ⟨"rover_0", by decide⟩

/-- A dock with the default parameters that watches one rover, whose pose is not known yet. -/
def oneRover : DockMonitor noDoubleSlash :=
  { (configured exactFp ⟨none, fun _ => none⟩ : DockMonitor noDoubleSlash) with
    rovers := ⟨[("rover_0", none)], List.nodup_singleton _⟩
    watched := by decide }

/-- The odometry of the rover has run away. -/
def lost : DockMonitor noDoubleSlash :=
  oneRover.cb exactFp rover0 .inf (.num 0) ⟨.num 0, .num 0, .num 0, .num 1⟩

def rover1 : {ns // noDoubleSlash (odomTopic ns) = true} := ⟨"rover_1", by decide⟩

def rover2 : {ns // noDoubleSlash (odomTopic ns) = true} := ⟨"rover_2", by decide⟩

/-- Three rovers are watched. -/
def threeRovers : DockMonitor noDoubleSlash :=
  { oneRover with
    rovers := ⟨[("rover_0", none), ("rover_1", none), ("rover_2", none)], by decide⟩
    watched := by decide }

/-- One rover stands five centimetres away from the contact, the next one at it; the pose of the
first is not known. -/
def docked : DockMonitor noDoubleSlash :=
  (threeRovers.cb exactFp rover1 (.num (-21 / 10)) (.num 0) ⟨.num 0, .num 0, .num 0, .num 1⟩).cb
    exactFp rover2 (.num (-43 / 20)) (.num 0) ⟨.num 0, .num 0, .num 0, .num 1⟩

theorem docked_namespaces : docked.namespaces = ["rover_0", "rover_1", "rover_2"] := by
  have hinit : init exactFp ⟨none, fun _ => none⟩ ["rover_0", "rover_1", "rover_2"] =
      some threeRovers := rfl
  have hroster := init_namespaces exactFp (by decide) hinit
  have hmem : rover1.1 ∈ threeRovers.namespaces := by
    rw [hroster]
    decide
  have hfirst := cb_namespaces exactFp hmem (.num (-21 / 10)) (.num 0)
    ⟨.num 0, .num 0, .num 0, .num 1⟩
  refine (cb_namespaces exactFp ?_ _ _ _).trans (hfirst.trans hroster)
  rw [hfirst, hroster]
  decide

theorem docked_stateOf : docked.stateOf exactFp "rover_0" = none ∧
    docked.stateOf exactFp "rover_1" = some (.charging, .num (1 / 20)) ∧
    docked.stateOf exactFp "rover_2" = some (.charging, .num 0) := by
  decide +kernel

/-- Two rovers are where they could charge.  The battery of the nearer one does, the other two do
not, and the line is about the nearer one. -/
theorem battery_agrees_docked : noDoubleSlash "//odom" = false ∧
    (∀ ns ∈ docked.namespaces, '|' ∉ ns.toList) ∧
    ((BatteryPublisher.mk "rover_2" false).onDock (docked.tick exactFp).2.2).charging = true ∧
    ((BatteryPublisher.mk "rover_1" true).onDock (docked.tick exactFp).2.2).charging = false ∧
    ((BatteryPublisher.mk "rover_0" true).onDock (docked.tick exactFp).2.2).charging = false ∧
    docked.PublishesForemost exactFp := by
  have hslash : noDoubleSlash "//odom" = false := by decide
  have hsep : ∀ ns ∈ docked.namespaces, '|' ∉ ns.toList := by decide
  obtain ⟨hbattery, hforemost, _⟩ := @battery_agrees _ exactFp hslash docked hsep
  obtain ⟨hunknown, hnear, hat⟩ := docked_stateOf
  have hfirst : docked.FirstCharging exactFp "rover_2" := by
    refine ⟨_, hat, fun s hs hne e he => ?_⟩
    rw [docked_namespaces] at hs
    simp only [List.mem_cons, List.not_mem_nil, or_false] at hs
    rcases hs with rfl | rfl | rfl
    · rw [hunknown] at he
      cases he
    · rw [hnear] at he
      cases he
      decide +kernel
    · exact absurd rfl hne
  have hsecond : ¬ docked.FirstCharging exactFp "rover_1" := by
    rintro ⟨d, hd, hothers⟩
    rw [hnear] at hd
    cases hd
    exact absurd (hothers "rover_2" (by decide) (by decide) _ hat).1 (by decide +kernel)
  have hfar : ¬ docked.FirstCharging exactFp "rover_0" := by
    rintro ⟨d, hd, -⟩
    rw [hunknown] at hd
    cases hd
  refine ⟨hslash, hsep, (hbattery "rover_2" (by decide) ⟨"rover_2", false⟩ rfl).mpr hfirst, ?_, ?_,
    hforemost ⟨_, _, _, hat, by decide⟩⟩
  · exact Bool.eq_false_iff.mpr fun h =>
      hsecond ((hbattery "rover_1" (by decide) ⟨"rover_1", true⟩ rfl).mp h)
  · exact Bool.eq_false_iff.mpr fun h =>
      hfar ((hbattery "rover_0" (by decide) ⟨"rover_0", true⟩ rfl).mp h)

/-- Without a pose there is no rover the line could be about; and an infinite distance is not less
than the one the scan starts with, so that it is about nobody although the pose is known. -/
theorem not_publishesForemost :
    init exactFp ⟨none, fun _ => none⟩ ["rover_0"] = some oneRover ∧
    ¬ oneRover.PublishesForemost exactFp ∧
    lost.stateOf exactFp "rover_0" = some (.idle, .inf) ∧
    ¬ lost.PublishesForemost exactFp := by
  have hlost : lost.stateOf exactFp "rover_0" = some (.idle, .inf) := by decide +kernel
  refine ⟨rfl, ?_, hlost, ?_⟩
  · rintro ⟨r, state, d, hr, _⟩
    obtain rfl : r = "rover_0" := List.mem_singleton.mp (mem_namespaces_of_stateOf hr)
    exact absurd hr (by rw [show oneRover.stateOf exactFp "rover_0" = none from rfl]; simp)
  · rintro ⟨r, state, d, hr, hline, _⟩
    obtain rfl : r = "rover_0" := List.mem_singleton.mp (mem_namespaces_of_stateOf hr)
    obtain ⟨rfl, rfl⟩ := Prod.mk.inj (Option.some.inj (hlost.symm.trans hr))
    exact absurd hline (by decide +kernel)

end DockMonitor

end RoverSwarm.Dock
