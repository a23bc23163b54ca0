import RoverSwarm.Lib.Arithmetic
import RoverSwarm.Lib.Transition
import RoverSwarm.Msgs

/-!
# Gpio — `keyboard_gpio_node.py`, the pins of the two H-bridges

A wheel has a forward and a backward pin; both HIGH at once short its H-bridge.  The keyboard
listener and the twist callback write the pins one `GPIO.output` at a time, so the order of the
writes of one command matters.  Driving a wheel backward lowers the forward pin first; driving it
forward raises the forward pin before it lowers the backward one.  `notShorted_iff`: no write of a
run shorts a bridge exactly when no wheel is driven forward while its backward pin is HIGH.

The wheel speeds, the duty cycles and the clock are computed in an arithmetic `K` of which no law
is asked: its sums and quotients may be rounded, and a value may compare with nothing, like `nan`.
-/

namespace RoverSwarm.Gpio

open Transition

/-! ### The node -/

/-- The four direction pins, by the node's names for them. -/
inductive Pin
  | leftForward
  | leftBackward
  | rightForward
  | rightBackward
deriving DecidableEq, Repr

inductive Wheel
  | left
  | right
deriving DecidableEq, Repr

def Wheel.forward : Wheel → Pin
  | .left => .leftForward
  | .right => .rightForward

def Wheel.backward : Wheel → Pin
  | .left => .leftBackward
  | .right => .rightBackward

/-- The directions of `key_mapping`. -/
inductive Direction
  | up
  | down
  | left
  | right
deriving DecidableEq, Repr

/-- What the node does to the outside. -/
inductive Call (K : Type) [OfNat K 0]
  | output (pin : Pin) (high : Bool)
  | changeDutyCycle (wheel : Wheel) (dutyCycle : K)
  | publish (twist : Twist K)
deriving DecidableEq, Repr

/-- The parameters and the state of `KeyboardGPIOPWM`; `listening` until the listener's loop
ends. -/
structure KeyboardGPIOPWM (K : Type) [Arithmetic K] where
  wheelBase : K := 0.3
  maxLin : K := 1
  maxAng : K := 1
  manualTimeout : K := 0.3
  heldKeys : List Direction := []
  lastManualTime : K := 0
  listening : Bool := true
deriving DecidableEq, Repr

section Node

variable {K : Type} [Arithmetic K]

/-- `set_motor_pwm`. -/
def setMotorPwm (leftSpeed rightSpeed : K) : List (Call K) :=
  (if leftSpeed > 0 then
    [.output .leftForward true, .output .leftBackward false]
  else if leftSpeed < 0 then
    [.output .leftForward false, .output .leftBackward true]
  else
    [.output .leftForward false, .output .leftBackward false]) ++
  (if rightSpeed > 0 then
    [.output .rightForward true, .output .rightBackward false]
  else if rightSpeed < 0 then
    [.output .rightForward false, .output .rightBackward true]
  else
    [.output .rightForward false, .output .rightBackward false]) ++
  [.changeDutyCycle .left (Arithmetic.min (Arithmetic.abs leftSpeed * 100) 100),
    .changeDutyCycle .right (Arithmetic.min (Arithmetic.abs rightSpeed * 100) 100)]

/-- `twist_to_speeds`. -/
def twistToSpeeds (n : KeyboardGPIOPWM K) (msg : Twist K) : K × K :=
  let v := Arithmetic.max (Arithmetic.min msg.linear.x n.maxLin) (-n.maxLin)
  let w := Arithmetic.max (Arithmetic.min msg.angular.z n.maxAng) (-n.maxAng)
  let vl := v - (w * n.wheelBase / 2.0)
  let vr := v + (w * n.wheelBase / 2.0)
  let maxWheelSpeed := n.maxLin + (n.maxAng * n.wheelBase / 2.0)
  (vl / maxWheelSpeed, vr / maxWheelSpeed)

/-- `cmd_vel_callback`; `now` is its reading of the clock. -/
def cmdVelCallback (n : KeyboardGPIOPWM K) (now : K) (msg : Twist K) : List (Call K) :=
  if now - n.lastManualTime < n.manualTimeout then []
  else setMotorPwm (twistToSpeeds n msg).1 (twistToSpeeds n msg).2

/-- `key_mapping`. -/
def keyMapping (key : String) : Option Direction :=
  if key = "\x1b[A" then some .up
  else if key = "\x1b[B" then some .down
  else if key = "\x1b[D" then some .left
  else if key = "\x1b[C" then some .right
  else none

/-- The branch of `keyboard_listener` for a held direction. -/
def directionCalls : Direction → List (Call K)
  | .up =>
    [.output .leftForward true, .output .leftBackward false,
      .output .rightForward true, .output .rightBackward false,
      .changeDutyCycle .left 100, .changeDutyCycle .right 100,
      .publish { linear := { x := 0.5 } }]
  | .down =>
    [.output .leftForward false, .output .leftBackward true,
      .output .rightForward false, .output .rightBackward true,
      .changeDutyCycle .left 100, .changeDutyCycle .right 100,
      .publish { linear := { x := -0.5 } }]
  | .left =>
    [.output .leftForward false, .output .leftBackward true,
      .output .rightForward true, .output .rightBackward false,
      .changeDutyCycle .left 100, .changeDutyCycle .right 100,
      .publish { angular := { z := 1 } }]
  | .right =>
    [.output .leftForward true, .output .leftBackward false,
      .output .rightForward false, .output .rightBackward true,
      .changeDutyCycle .left 100, .changeDutyCycle .right 100,
      .publish { angular := { z := -1 } }]

/-- The branch of `keyboard_listener` that releases the held keys. -/
def releaseCalls : List (Call K) :=
  [.output .leftForward false, .output .leftBackward false,
    .output .rightForward false, .output .rightBackward false,
    .changeDutyCycle .left 0, .changeDutyCycle .right 0, .publish {}]

/-- One turn of the loop of `keyboard_listener`; `key` is what `get_key` returned.  The key `q`
ends the loop. -/
def pollKey (n : KeyboardGPIOPWM K) (key : Option String) (now : K) :
    KeyboardGPIOPWM K × List (Call K) :=
  if !n.listening then (n, [])
  else if key = some "q" then ({ n with listening := false }, [])
  else
    match key.bind keyMapping with
    | some d =>
      ({ n with heldKeys := n.heldKeys.insert d, lastManualTime := now }, directionCalls d)
    | none => if n.heldKeys ≠ [] then ({ n with heldKeys := [] }, releaseCalls) else (n, [])

inductive Input (K : Type) [OfNat K 0]
  | key (key : Option String) (now : K)
  | cmdVel (now : K) (msg : Twist K)
deriving DecidableEq, Repr

def KeyboardGPIOPWM.step (n : KeyboardGPIOPWM K) : Input K → KeyboardGPIOPWM K × List (Call K)
  | .key key now => pollKey n key now
  | .cmdVel now msg => (n, cmdVelCallback n now msg)

end Node

/-! ### The pins -/

section Pins

variable {K : Type} [OfNat K 0]

/-- The level of every pin, `true` for HIGH. -/
abbrev Pins := Pin → Bool

/-- A call on the pins: only `GPIO.output` changes them. -/
def Call.apply (p : Pins) : Call K → Pins
  | .output pin high => Function.update p pin high
  | _ => p

/-- The levels after every single `GPIO.output` of the calls. -/
def levels (p : Pins) : List (Call K) → List Pins
  | [] => []
  | .output pin high :: cs =>
    Function.update p pin high :: levels (Function.update p pin high) cs
  | _ :: cs => levels p cs

/-- The levels after all the calls. -/
def finalLevels (p : Pins) (cs : List (Call K)) : Pins := cs.foldl Call.apply p

def NotShorted (p : Pins) : Prop := ∀ w : Wheel, ¬ (p w.forward = true ∧ p w.backward = true)

theorem notShorted_iff_pins (p : Pins) :
    NotShorted p ↔ ¬ (p .leftForward = true ∧ p .leftBackward = true) ∧
      ¬ (p .rightForward = true ∧ p .rightBackward = true) := by
  constructor
  · exact fun h => ⟨h .left, h .right⟩
  · rintro ⟨hl, hr⟩ w
    cases w with
    | left => exact hl
    | right => exact hr

instance (p : Pins) : Decidable (NotShorted p) := decidable_of_iff' _ (notShorted_iff_pins p)

/-- What a command asks of one wheel. -/
inductive Drive
  | forward
  | backward
  | stop
deriving DecidableEq, Repr

/-- The two writes of a wheel, in the order the node makes them. -/
def driveCalls (w : Wheel) : Drive → List (Call K)
  | .forward => [.output w.forward true, .output w.backward false]
  | .backward => [.output w.forward false, .output w.backward true]
  | .stop => [.output w.forward false, .output w.backward false]

theorem finalLevels_append (p : Pins) (cs ds : List (Call K)) :
    finalLevels p (cs ++ ds) = finalLevels (finalLevels p cs) ds := List.foldl_append

theorem levels_append (p : Pins) (cs ds : List (Call K)) :
    levels p (cs ++ ds) = levels p cs ++ levels (finalLevels p cs) ds := by
  induction cs generalizing p with
  | nil => rfl
  | cons c cs ih => cases c <;> simp [levels, finalLevels, Call.apply, ih]

/-- The levels at the end are the ones the calls started from, or those after a write. -/
theorem finalLevels_mem (p : Pins) (cs : List (Call K)) :
    finalLevels p cs = p ∨ finalLevels p cs ∈ levels p cs := by
  induction cs generalizing p with
  | nil => exact Or.inl rfl
  | cons c cs ih =>
    cases c with
    | output pin high =>
      right
      rcases ih (Function.update p pin high) with h | h
      · exact List.mem_cons.mpr (Or.inl h)
      · exact List.mem_cons_of_mem _ h
    | changeDutyCycle w dc => exact ih p
    | publish t => exact ih p

/-- Safe writes leave safe levels. -/
theorem notShorted_finalLevels {p : Pins} {cs : List (Call K)} (hp : NotShorted p)
    (h : ∀ q ∈ levels p cs, NotShorted q) : NotShorted (finalLevels p cs) := by
  rcases finalLevels_mem p cs with heq | hmem
  · rw [heq]
    exact hp
  · exact h _ hmem

/-- One wheel's writes keep the bridges safe exactly when a forward drive finds the backward pin
LOW. -/
theorem driveCalls_levels {p : Pins} (hp : NotShorted p) (w : Wheel) (d : Drive) :
    (∀ q ∈ levels p (driveCalls (K := K) w d), NotShorted q) ↔
      (d = .forward → p w.backward = false) := by
  obtain ⟨hl, hr⟩ := (notShorted_iff_pins p).mp hp
  cases w <;> cases d <;>
    simp_all [driveCalls, levels, notShorted_iff_pins, Wheel.forward, Wheel.backward]

/-- The writes of the left wheel leave the pins of the right one alone. -/
theorem finalLevels_left (p : Pins) (d : Drive) :
    finalLevels p (driveCalls (K := K) .left d) .rightBackward = p .rightBackward := by
  cases d <;> rfl

end Pins

/-! ### Commands -/

variable {K : Type} [Arithmetic K]

/-- The node and its pins, all LOW at the start. -/
def system : Process (KeyboardGPIOPWM K × Pins) (Input K) (List (Call K)) where
  init := ({}, fun _ => false)
  step s i := (((s.1.step i).1, finalLevels s.2 (s.1.step i).2), (s.1.step i).2)

/-- The levels after every `GPIO.output` of a run. -/
def runLevels (is : List (Input K)) : List Pins :=
  levels (fun _ => false) (system.outputs is).flatten

/-- The drive a wheel speed asks for. -/
def driveOf (speed : K) : Drive :=
  if speed > 0 then .forward else if speed < 0 then .backward else .stop

/-- The drives a held direction asks for. -/
def drivesOf : Direction → Wheel → Drive
  | .up, _ => .forward
  | .down, _ => .backward
  | .left, .left => .backward
  | .left, .right => .forward
  | .right, .left => .forward
  | .right, .right => .backward

/-- The command an input is, if it is one: what it asks of either wheel. -/
def command (n : KeyboardGPIOPWM K) : Input K → Option (Wheel → Drive)
  | .key key _ =>
    if !n.listening ∨ key = some "q" then none
    else
      match key.bind keyMapping with
      | some d => some (drivesOf d)
      | none => if n.heldKeys ≠ [] then some fun _ => .stop else none
  | .cmdVel now msg =>
    if now - n.lastManualTime < n.manualTimeout then none
    else some fun
      | .left => driveOf (twistToSpeeds n msg).1
      | .right => driveOf (twistToSpeeds n msg).2

/-- The input drives the wheel forward. -/
def DrivesForward (n : KeyboardGPIOPWM K) (i : Input K) (w : Wheel) : Prop :=
  ∃ c, command n i = some c ∧ c w = .forward

/-- The writes of an input: none, or those of the two wheels of its command, left first. -/
theorem step_calls (n : KeyboardGPIOPWM K) (i : Input K) (p : Pins) :
    levels p (n.step i).2 =
      match command n i with
      | none => []
      | some c =>
        levels p (driveCalls (K := K) .left (c .left) ++ driveCalls .right (c .right)) := by
  cases i with
  | key key now =>
    simp only [KeyboardGPIOPWM.step, pollKey, command]
    cases n.listening with
    | false => simp [levels]
    | true =>
      by_cases hq : key = some "q"
      · simp [hq, levels]
      · simp only [Bool.not_true, Bool.false_eq_true, if_false, hq, or_self]
        cases key.bind keyMapping with
        | some d => cases d <;> rfl
        | none => by_cases hk : n.heldKeys = [] <;> simp [hk] <;> rfl
  | cmdVel now msg =>
    simp only [KeyboardGPIOPWM.step, cmdVelCallback, command]
    by_cases hman : now - n.lastManualTime < n.manualTimeout
    · simp [hman, levels]
    · rw [if_neg hman, if_neg hman]
      generalize (twistToSpeeds n msg).1 = l, (twistToSpeeds n msg).2 = r
      simp only [setMotorPwm, driveOf]
      split_ifs <;> rfl

/-- **Step lemma**: from safe levels, every write of an input is safe exactly when the input
drives no wheel forward whose backward pin is HIGH. -/
theorem step_levels {p : Pins} (hp : NotShorted p) (n : KeyboardGPIOPWM K) (i : Input K) :
    (∀ q ∈ levels p (n.step i).2, NotShorted q) ↔
      ∀ w, DrivesForward n i w → p w.backward = false := by
  rw [step_calls]
  cases hc : command n i with
  | none => simp [DrivesForward, hc]
  | some c =>
    simp only [levels_append, List.forall_mem_append]
    rw [driveCalls_levels hp]
    constructor
    · rintro ⟨hleft, hright⟩ w ⟨c', hc', hw⟩
      obtain rfl : c = c' := Option.some.inj (hc.symm.trans hc')
      cases w with
      | left => exact hleft hw
      | right =>
        have hsafe : NotShorted (finalLevels p (driveCalls (K := K) .left (c .left))) :=
          notShorted_finalLevels hp ((driveCalls_levels hp .left (c .left)).mpr hleft)
        have h := (driveCalls_levels hsafe .right (c .right)).mp hright hw
        rwa [Wheel.backward, finalLevels_left] at h
    · intro h
      have hleft : c .left = .forward → p Wheel.left.backward = false := fun hw =>
        h .left ⟨c, hc, hw⟩
      have hsafe : NotShorted (finalLevels p (driveCalls (K := K) .left (c .left))) :=
        notShorted_finalLevels hp ((driveCalls_levels hp .left (c .left)).mpr hleft)
      refine ⟨hleft, (driveCalls_levels hsafe .right (c .right)).mpr fun hw => ?_⟩
      rw [Wheel.backward, finalLevels_left]
      exact h .right ⟨c, hc, hw⟩

/-! ### Runs -/

theorem runLevels_concat (is : List (Input K)) (i : Input K) :
    runLevels (is ++ [i]) = runLevels is ++
      levels (finalLevels (fun _ => false) (system.outputs is).flatten)
        (((system.after is).1.step i).2) := by
  rw [runLevels, Process.outputs_concat, List.flatten_append, levels_append]
  simp [runLevels, system]

/-- The pins of the state are what the writes so far left. -/
theorem pins_after (is : List (Input K)) :
    (system.after is).2 = finalLevels (fun _ => false) (system.outputs is).flatten := by
  refine Process.invariant system
    (I := fun is s => s.2 = finalLevels (fun _ => false) (system.outputs is).flatten) rfl ?_ is
  intro is i ih
  rw [Process.outputs_concat, List.flatten_append, finalLevels_append, ← ih]
  simp [system]

theorem notShorted_after {is : List (Input K)} (h : ∀ q ∈ runLevels is, NotShorted q) :
    NotShorted (system.after is).2 := by
  rw [pins_after]
  have hlow : NotShorted fun _ => false := by decide
  exact notShorted_finalLevels hlow h

/-- **No write of a run shorts an H-bridge exactly when no input of the run drives a wheel forward
while its backward pin is HIGH.** -/
theorem notShorted_iff (is : List (Input K)) :
    (∀ q ∈ runLevels is, NotShorted q) ↔
      ∀ pre i, pre ++ [i] <+: is → ∀ w, DrivesForward (system.after pre).1 i w →
        (system.after pre).2 w.backward = false := by
  induction is using List.reverseRecOn with
  | nil =>
    refine ⟨fun _ pre i hp => ?_, fun _ q hq => absurd hq (by simp [runLevels, levels])⟩
    exact absurd (List.prefix_nil.mp hp) (by simp)
  | append_singleton is i ih =>
    rw [runLevels_concat, List.forall_mem_append, ← pins_after, Process.forall_steps_concat,
      ← ih]
    exact and_congr_right fun h => step_levels (notShorted_after h) _ i

open scoped Arithmetic.Exact in
/-- Up pressed right after down: the left bridge is shorted between the first two writes. -/
theorem not_notShorted :
    ¬ ∀ q ∈ runLevels (K := ℚ) [.key (some "\x1b[B") 1, .key (some "\x1b[A") 2],
      NotShorted q := by
  decide +kernel

end RoverSwarm.Gpio
