import Mathlib.Algebra.Order.Field.Rat
import RoverSwarm.Arbiter
import RoverSwarm.Dock
import RoverSwarm.Teleop

/-!
# Battery — `battery_publisher.py` beside the teleop and the arbiter of its rover

The battery draws `drive_current` while the last twist it has received moves the rover.  It
listens to the topic of the autonomy, and the teleop writes another one; so it draws the drive
current under way exactly while the autonomy wants the rover to move as well.
-/

namespace RoverSwarm.Battery

open Transition

/-! ### The node -/

/-- The battery_publisher block of `swarm.yaml`.  The node divides by the voltage when it starts,
and by the capacity in every tick. -/
structure Tuning where
  capacityWh : ℚ := 100
  nominalVoltage : ℚ := 24
  driveCurrent : ℚ := 3
  idleCurrent : ℚ := 1 / 2
  chargeCurrent : ℚ := 10
  publishRate : ℚ := 1
  initialPercentage : ℚ := 17 / 20
  capacityWh_ne : capacityWh ≠ 0 := by decide +kernel
  nominalVoltage_ne : nominalVoltage ≠ 0 := by decide +kernel

/-- The parameters of a node started without a parameter file. -/
def Tuning.defaults : Tuning := {}

/-- `capacity_ah`. -/
def Tuning.capacityAh (p : Tuning) : ℚ := p.capacityWh / p.nominalVoltage

/-- `dt_h`, one publish period in hours. -/
def Tuning.dtH (p : Tuning) : ℚ := 1 / max (1 / 10) p.publishRate / 3600

/-- `BatteryPublisher`. -/
structure BatteryPublisher extends Dock.BatteryPublisher, Tuning where
  chargeAh : ℚ
  lastTwist : Twist := {}

inductive PowerSupplyStatus
  | charging
  | discharging
deriving DecidableEq, Repr

/-- `sensor_msgs/BatteryState`; a current that flows out is negative. -/
structure BatteryState where
  frameId : String
  voltage : ℚ
  current : ℚ
  charge : ℚ
  capacity : ℚ
  designCapacity : ℚ
  percentage : ℚ
  powerSupplyStatus : PowerSupplyStatus
deriving DecidableEq

namespace BatteryPublisher

/-- `BatteryPublisher(namespace)`. -/
def init (tuning : Tuning) (ns : String) : BatteryPublisher :=
  { tuning with ns, charging := false, chargeAh := tuning.capacityAh * tuning.initialPercentage }

/-- `_on_twist`. -/
def onTwist (b : BatteryPublisher) (msg : Twist) : BatteryPublisher := { b with lastTwist := msg }

/-- `_on_dock`. -/
def onDock (b : BatteryPublisher) (data : String) : BatteryPublisher :=
  { b with toBatteryPublisher := b.toBatteryPublisher.onDock data }

end BatteryPublisher

/-- The twist moves the rover: `abs(linear.x) + abs(angular.z) > 0.01`. -/
def Moves (t : Twist) : Prop := 1 / 100 < |t.linear.x| + |t.angular.z|

instance : DecidablePred Moves := fun _ => inferInstanceAs (Decidable (_ < _))

namespace BatteryPublisher

/-- The current of a tick; negative while charging. -/
def current (b : BatteryPublisher) : ℚ :=
  if b.charging then -b.chargeCurrent
  else if Moves b.lastTwist then b.driveCurrent
  else b.idleCurrent

/-- The charge after a publish period of the current `c`. -/
def integrate (b : BatteryPublisher) (c : ℚ) : ℚ :=
  max 0 (min b.capacityAh (b.chargeAh - c * b.dtH))

/-- `_tick`. -/
def tick (b : BatteryPublisher) : BatteryPublisher × BatteryState :=
  let current := b.current
  let b := { b with chargeAh := b.integrate current }
  (b, {
    frameId := if b.ns = "" then "base_link" else b.ns ++ "/base_link"
    voltage := b.nominalVoltage
    current := -current
    charge := b.chargeAh
    capacity := b.capacityAh
    designCapacity := b.capacityAh
    percentage := b.chargeAh / b.capacityAh
    powerSupplyStatus := if b.charging then .charging else .discharging })

/-- What a tick integrates and reports is the current `c`. -/
def Draws (b : BatteryPublisher) (c : ℚ) : Prop :=
  b.tick.1.chargeAh = b.integrate c ∧ b.tick.2.current = -c

theorem draws_iff {b : BatteryPublisher} {c : ℚ} : b.Draws c ↔ b.current = c := by
  constructor
  · rintro ⟨-, h⟩
    exact neg_inj.mp h
  · rintro rfl
    exact ⟨rfl, rfl⟩

/-- The charge stays between empty and full. -/
theorem tick_charge_mem (b : BatteryPublisher) (h : 0 ≤ b.capacityAh) :
    0 ≤ b.tick.1.chargeAh ∧ b.tick.1.chargeAh ≤ b.capacityAh :=
  ⟨le_max_left _ _, max_le h (min_le_left _ _)⟩

end BatteryPublisher

/-! ### One rover -/

/-- The three nodes of the rover `ns`, the twist forwarded last, and what is on its way to every
subscription. -/
structure Rover where
  teleop : Teleop.Loop 1
  arbiter : Arbiter.CmdVelArbiter
  battery : BatteryPublisher
  /-- The last twist on `/<ns>/cmd_vel_arb`. -/
  cmdVelArb : Option Twist := none
  /-- `/emergency_stop`, to the teleop and to the arbiter. -/
  estopTeleop : List Bool := []
  estopArbiter : List Bool := []
  /-- `/<ns>/cmd_vel_teleop`, to the arbiter. -/
  cmdVelTeleop : List Twist := []
  /-- `/<ns>/cmd_vel`, to the arbiter and to the battery. -/
  cmdVelArbiter : List Twist := []
  cmdVelBattery : List Twist := []

inductive Event
  /-- A message on `/emergency_stop`. -/
  | estop (data : Bool)
  /-- A message of the autonomy on `/<ns>/cmd_vel`. -/
  | autonomy (msg : Twist)
  /-- One iteration of the teleop; `spins` if `spin_once` handles a message. -/
  | teleop (key : Teleop.Key) (now : ℚ) (restarts spins : Bool)
  /-- The arbiter handles its next message on `/emergency_stop`, or for a slot of the rover. -/
  | arbiterEstop
  | arbiterTwist (key : Arbiter.Key) (now : ℚ)
  | arbiterTick (now : ℚ)
  /-- The battery handles its next message on `/<ns>/cmd_vel`, or one of the dock. -/
  | batteryTwist
  | batteryDock (data : String)
  | batteryTick
deriving DecidableEq

namespace Rover

/-- The subscription of the arbiter for the slot. -/
def slot (s : Rover) : Arbiter.Key → List Twist
  | .autonomy => s.cmdVelArbiter
  | .teleop => s.cmdVelTeleop

def setSlot (s : Rover) (msgs : List Twist) : Arbiter.Key → Rover
  | .autonomy => { s with cmdVelArbiter := msgs }
  | .teleop => { s with cmdVelTeleop := msgs }

/-- The last of the messages a tick of the arbiter publishes for the rover, or `last`. -/
def forwarded (ns : String) (last : Option Twist) (out : List (String × Twist)) : Option Twist :=
  out.foldl (fun last p => if p.1 = Arbiter.arbTopic ns then some p.2 else last) last

/-- One event; a node that has nothing to handle handles nothing, and the teleop may have been
left. -/
def step (cfg : Teleop.Cfg) (ns : String) (s : Rover) : Event → Option (Rover × Option BatteryState)
  | .estop data => some ({ s with
      estopTeleop := s.estopTeleop ++ [data]
      estopArbiter := s.estopArbiter ++ [data] }, none)
  | .autonomy msg => some ({ s with
      cmdVelArbiter := s.cmdVelArbiter ++ [msg]
      cmdVelBattery := s.cmdVelBattery ++ [msg] }, none)
  | .teleop key now restarts spins => do
    let estop := if spins then s.estopTeleop.head? else none
    let r ← (Teleop.teleop cfg 0).step s.teleop { key, now, restarts, estop }
    some ({ s with
      teleop := r.1
      estopTeleop := if spins then s.estopTeleop.tail else s.estopTeleop
      cmdVelTeleop := s.cmdVelTeleop ++ (r.2.twists 0).toList }, none)
  | .arbiterEstop => match s.estopArbiter with
    | [] => none
    | data :: rest => some ({ s with
        estopArbiter := rest
        arbiter := (Arbiter.onEstop s.arbiter data).1 }, none)
  | .arbiterTwist key now => match s.slot key with
    | [] => none
    | msg :: rest => some ({ s.setSlot rest key with
        arbiter := (Arbiter.onTwist s.arbiter ns key now msg).1 }, none)
  | .arbiterTick now =>
    let r := Arbiter.tick s.arbiter fun _ => now
    some ({ s with
      arbiter := r.1
      cmdVelArb := forwarded ns s.cmdVelArb (Arbiter.published r.2) }, none)
  | .batteryTwist => match s.cmdVelBattery with
    | [] => none
    | msg :: rest => some ({ s with cmdVelBattery := rest, battery := s.battery.onTwist msg }, none)
  | .batteryDock data => some ({ s with battery := s.battery.onDock data }, none)
  | .batteryTick => some ({ s with battery := s.battery.tick.1 }, some s.battery.tick.2)

end Rover

/-- The rover `ns` with its three nodes. -/
def rover (cfg : Teleop.Cfg) (teleopTimeout : ℚ) (tuning : Tuning) (ns : String) :
    Machine Rover Event (Option BatteryState) where
  init := {
    teleop := (Teleop.teleop cfg 0).init
    arbiter := (Arbiter.arbiter ⟨[ns], List.nodup_singleton ns⟩ teleopTimeout).init
    battery := .init tuning ns }
  step := Rover.step cfg ns

/-! ### Driving and draining -/

variable {cfg : Teleop.Cfg} {teleopTimeout : ℚ} {tuning : Tuning} {ns : String}

namespace Rover

/-- The rover is on its way: the twist forwarded last moves it. -/
def Driven (s : Rover) : Prop := ∃ t ∈ s.cmdVelArb, Moves t

/-- A tick of the battery now draws the drive current if the rover is driven. -/
def Drains (s : Rover) : Prop :=
  s.battery.charging = false → s.Driven → s.battery.Draws s.battery.driveCurrent

/-- When the battery ticks under way, the last twist of the autonomy it has handled moves the rover
too, or the currents do not differ. -/
def AutonomyMoves (s : Rover) (e : Event) : Prop :=
  e = .batteryTick → s.battery.charging = false → s.Driven →
    Moves s.battery.lastTwist ∨ s.battery.idleCurrent = s.battery.driveCurrent

instance (s : Rover) : Decidable s.Driven :=
  inferInstanceAs (Decidable (∃ t, t ∈ s.cmdVelArb ∧ Moves t))

instance (s : Rover) (e : Event) : Decidable (s.AutonomyMoves e) :=
  inferInstanceAs (Decidable (_ → _))

theorem drains_iff {s : Rover} : s.Drains ↔ s.AutonomyMoves .batteryTick := by
  have hcurrent : s.battery.charging = false → (s.battery.Draws s.battery.driveCurrent ↔
      Moves s.battery.lastTwist ∨ s.battery.idleCurrent = s.battery.driveCurrent) := by
    intro hcharging
    rw [BatteryPublisher.draws_iff, BatteryPublisher.current, hcharging, if_neg (by simp)]
    split_ifs with hmoves
    · exact iff_of_true rfl (Or.inl hmoves)
    · exact ⟨Or.inr, fun h => h.resolve_left hmoves⟩
  constructor
  · exact fun h _ hcharging hdriven => (hcurrent hcharging).mp (h hcharging hdriven)
  · exact fun h hcharging hdriven => (hcurrent hcharging).mpr (h rfl hcharging hdriven)

end Rover

/-- **When driving drains the battery**: exactly in the runs where, whenever the battery ticks under
way, the autonomy wants the rover to move as well. -/
theorem driving_drains_iff {tr : List (Event × Option BatteryState)} {s : Rover}
    (h : (rover cfg teleopTimeout tuning ns).Reaches tr s) :
    (∀ pre o s₀, pre ++ [(.batteryTick, o)] <+: tr →
      (rover cfg teleopTimeout tuning ns).Reaches pre s₀ → s₀.Drains) ↔
    (rover cfg teleopTimeout tuning ns).Run Rover.AutonomyMoves tr s := by
  rw [h.iff_forall_steps]
  constructor
  · intro hdrains pre x s₀ hp hreach htick
    obtain ⟨e, o⟩ := x
    obtain rfl : e = .batteryTick := htick
    exact Rover.drains_iff.mp (hdrains pre o s₀ hp hreach) rfl
  · intro hall pre o s₀ hp hreach
    exact Rover.drains_iff.mpr (hall pre _ s₀ hp hreach)

/-- The teleop drives the rover; the autonomy has never said anything. -/
def teleopDrives : List Event :=
  [.teleop (.arrow .up) 0 false true, .arbiterTwist .teleop 0, .arbiterTick 0]

/-- The battery does not notice. -/
theorem driving_drains_iff_teleop :
    ¬ ∀ tr s, (rover .defaults (1 / 5) .defaults "rover_0").Reaches tr s → s.Drains := by
  intro h
  obtain ⟨tr, s, hr, hcharging, hdriven, hidle⟩ :=
    Machine.exists_reaches_of_exec (M := rover .defaults (1 / 5) .defaults "rover_0") teleopDrives
      (p := fun q => q.2.battery.charging = false ∧ q.2.Driven ∧
        q.2.battery.current ≠ q.2.battery.driveCurrent) (by decide +kernel)
  exact hidle (BatteryPublisher.draws_iff.mp (h tr s hr hcharging hdriven))

/-- The autonomy drives the rover. -/
def autonomyDrives : List Event :=
  [.autonomy { linear := { x := 1 } }, .arbiterTwist .autonomy 0, .batteryTwist, .arbiterTick 0,
    .batteryTick]

theorem driving_drains_iff_autonomy :
    ∃ tr s, (rover .defaults (1 / 5) .defaults "rover_0").Reaches tr s ∧ s.Driven ∧
      ∀ pre o s₀, pre ++ [(.batteryTick, o)] <+: tr →
        (rover .defaults (1 / 5) .defaults "rover_0").Reaches pre s₀ → s₀.Drains := by
  obtain ⟨tr, s, hr, hdriven⟩ :=
    Machine.exists_run_of_exec (M := rover .defaults (1 / 5) .defaults "rover_0")
      (C := Rover.AutonomyMoves) autonomyDrives (p := fun q => q.2.Driven) (by decide +kernel)
      (by decide +kernel)
  exact ⟨tr, s, hr.reaches, hdriven, (driving_drains_iff hr.reaches).mpr hr⟩

/-! ### The source of the motion -/

namespace Rover

/-- What holds of the nodes in every run: the arbiter serves the rover alone, and the battery hears
what the autonomy has sent. -/
structure Wired (ns : String) (tr : List (Event × Option BatteryState)) (s : Rover) : Prop where
  roster : s.arbiter.namespaces = [ns]
  queued : ∀ msg ∈ s.cmdVelBattery, ∃ o, (Event.autonomy msg, o) ∈ tr
  heard : s.battery.lastTwist = {} ∨ ∃ o, (Event.autonomy s.battery.lastTwist, o) ∈ tr

theorem setSlot_frame (s : Rover) (msgs : List Twist) (key : Arbiter.Key) :
    (s.setSlot msgs key).cmdVelBattery = s.cmdVelBattery ∧
      (s.setSlot msgs key).battery = s.battery := by
  cases key <;> exact ⟨rfl, rfl⟩

/-- A step of which the battery has heard nothing new. -/
theorem Wired.of_same {tr : List (Event × Option BatteryState)} {s s' : Rover}
    (h : Wired ns tr s) (x : Event × Option BatteryState)
    (hroster : s'.arbiter.namespaces = s.arbiter.namespaces)
    (hqueue : s'.cmdVelBattery = s.cmdVelBattery)
    (hbattery : s'.battery.lastTwist = s.battery.lastTwist) : Wired ns (tr ++ [x]) s' := by
  refine ⟨hroster.trans h.roster, fun msg hmsg => ?_, ?_⟩
  · rw [hqueue] at hmsg
    obtain ⟨o, hmem⟩ := h.queued msg hmsg
    exact ⟨o, List.mem_append_left _ hmem⟩
  · rw [hbattery]
    exact h.heard.imp_right fun ⟨o, hmem⟩ => ⟨o, List.mem_append_left _ hmem⟩

/-- **Step lemma**. -/
theorem Wired.step {tr : List (Event × Option BatteryState)} {s s' : Rover} {e : Event}
    {o : Option BatteryState} (h : Wired ns tr s) (hs : s.step cfg ns e = some (s', o)) :
    Wired ns (tr ++ [(e, o)]) s' := by
  have hsame : Wired ns (tr ++ [(e, o)]) s := h.of_same _ rfl rfl rfl
  cases e with
  | estop data =>
    obtain ⟨rfl, rfl⟩ := Prod.mk.inj (Option.some.inj hs)
    exact h.of_same _ rfl rfl rfl
  | autonomy msg =>
    obtain ⟨rfl, rfl⟩ := Prod.mk.inj (Option.some.inj hs)
    refine ⟨hsame.roster, fun m hm => ?_, hsame.heard⟩
    rcases List.mem_append.mp hm with hm | hm
    · exact hsame.queued m hm
    · obtain rfl := List.mem_singleton.mp hm
      exact ⟨none, by simp⟩
  | teleop key now restarts spins =>
    simp only [Rover.step, Option.bind_eq_bind, Option.bind_eq_some_iff] at hs
    obtain ⟨r, -, hs⟩ := hs
    obtain ⟨rfl, rfl⟩ := Prod.mk.inj (Option.some.inj hs)
    exact h.of_same _ rfl rfl rfl
  | arbiterEstop =>
    cases hqueue : s.estopArbiter with
    | nil => simp [Rover.step, hqueue] at hs
    | cons data rest =>
      simp only [Rover.step, hqueue, Option.some.injEq, Prod.mk.injEq] at hs
      obtain ⟨rfl, rfl⟩ := hs
      exact h.of_same _ rfl rfl rfl
  | arbiterTwist key now =>
    cases hslot : s.slot key with
    | nil => simp [Rover.step, hslot] at hs
    | cons msg rest =>
      simp only [Rover.step, hslot, Option.some.injEq, Prod.mk.injEq] at hs
      obtain ⟨rfl, rfl⟩ := hs
      obtain ⟨hqueue, hbattery⟩ := s.setSlot_frame rest key
      exact h.of_same _ rfl hqueue (congrArg _ hbattery)
  | arbiterTick now =>
    obtain ⟨rfl, rfl⟩ := Prod.mk.inj (Option.some.inj hs)
    obtain ⟨f, hf⟩ := Arbiter.tickLoop_fst (fun _ => now) s.arbiter.namespaces s.arbiter
    refine h.of_same _ ?_ rfl rfl
    show (Arbiter.tickLoop _ _ _).1.namespaces = _
    rw [hf]
  | batteryTwist =>
    cases hqueue : s.cmdVelBattery with
    | nil => simp [Rover.step, hqueue] at hs
    | cons msg rest =>
      simp only [Rover.step, hqueue, Option.some.injEq, Prod.mk.injEq] at hs
      obtain ⟨rfl, rfl⟩ := hs
      have hmem : ∀ m ∈ msg :: rest, m ∈ s.cmdVelBattery := fun m hm => hqueue ▸ hm
      refine ⟨hsame.roster, fun m hm => hsame.queued m (hmem m (List.mem_cons_of_mem _ hm)),
        Or.inr ?_⟩
      exact hsame.queued msg (hmem msg List.mem_cons_self)
  | batteryDock data =>
    obtain ⟨rfl, rfl⟩ := Prod.mk.inj (Option.some.inj hs)
    exact h.of_same _ rfl rfl rfl
  | batteryTick =>
    obtain ⟨rfl, rfl⟩ := Prod.mk.inj (Option.some.inj hs)
    exact h.of_same _ rfl rfl rfl

end Rover

/-- **Run lemma**. -/
theorem wired_of_reaches {tr : List (Event × Option BatteryState)} {s : Rover}
    (h : (rover cfg teleopTimeout tuning ns).Reaches tr s) : s.Wired ns tr := by
  refine h.invariant (I := fun tr s => s.Wired ns tr)
    ⟨rfl, fun _ hm => absurd hm List.not_mem_nil, Or.inl rfl⟩ ?_
  exact fun _ _ _ _ _ _ ih _ hs => ih.step hs

/-- A tick of the arbiter forwards what its priorities select, the teleop or the autonomy. -/
theorem forwards_selection {tr : List (Event × Option BatteryState)} {s s' : Rover} {now : ℚ}
    {o : Option BatteryState} (h : (rover cfg teleopTimeout tuning ns).Reaches tr s)
    (hs : s.step cfg ns (.arbiterTick now) = some (s', o)) :
    s'.cmdVelArb = some (Arbiter.select s.arbiter ns now).2 := by
  obtain ⟨rfl, rfl⟩ := Prod.mk.inj (Option.some.inj hs)
  show Rover.forwarded ns s.cmdVelArb (Arbiter.published (Arbiter.tickLoop _ _ _).2) = _
  rw [Arbiter.tickLoop_published, (wired_of_reaches h).roster]
  simp [Rover.forwarded]

/-- **However the teleop drives the rover**, the battery of a rover whose autonomy sends no motion
draws the idle current. -/
theorem idles_under_teleop {tr : List (Event × Option BatteryState)} {s : Rover}
    (h : (rover cfg teleopTimeout tuning ns).Reaches tr s)
    (hautonomy : ∀ msg o, (Event.autonomy msg, o) ∈ tr → ¬ Moves msg)
    (hcharging : s.battery.charging = false) : s.battery.Draws s.battery.idleCurrent := by
  have hstill : ¬ Moves s.battery.lastTwist := by
    rcases (wired_of_reaches h).heard with hzero | ⟨o, hmem⟩
    · rw [hzero]
      decide +kernel
    · exact hautonomy _ o hmem
  rw [BatteryPublisher.draws_iff, BatteryPublisher.current, hcharging, if_neg (by simp),
    if_neg hstill]

end RoverSwarm.Battery
