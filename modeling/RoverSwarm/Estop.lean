import RoverSwarm.Lib.Transition
import RoverSwarm.Msgs

/-!
# Estop — `estop_manager.py` together with its own subscription

The node publishes its status on the topic it also obeys, so every Bool it publishes is delivered
to `_on_ext` later.  `system` is the node with the topic as a queue of Bools in flight; `commander`
is what the node is for: a value that only commands change (E or R pressed, or an external Bool
delivered).  A status of the node is *stale* when it is delivered after the last command has come
to differ from the value it carries; the node keeps the last command exactly in the runs in which
no stale status is delivered.
-/

namespace RoverSwarm.Estop

open Transition

/-! ### The node -/

/-- What the callbacks of `EstopManager` read and write; `settings` says that stdin is a terminal
in cbreak mode. -/
structure EstopManager where
  rovers : List String
  settings : Bool
  stopped : Bool := false
deriving DecidableEq, Repr

inductive Action
  | warn (text : String)
  | publishStatus (data : Bool)
  | publishTwist (topic : String) (msg : Twist)
deriving DecidableEq, Repr

/-- `_on_ext`. -/
def onExt (m : EstopManager) (data : Bool) : EstopManager × List Action :=
  if data ≠ m.stopped then
    ({ m with stopped := data },
      [.warn ("E-STOP " ++ (if data then "ENGAGED" else "released") ++ " (external)")])
  else (m, [])

/-- `_poll_keys`; `ch` is the character waiting on stdin, if any. -/
def pollKeys (m : EstopManager) (ch : Option Char) : EstopManager × List Action :=
  if !m.settings then (m, []) else
  match ch with
  | none => (m, [])
  | some ch =>
    if ch = 'e' ∨ ch = 'E' then
      if !m.stopped then
        ({ m with stopped := true }, [.warn "E-STOP ENGAGED (keyboard)"])
      else (m, [])
    else if ch = 'r' ∨ ch = 'R' then
      if m.stopped then
        ({ m with stopped := false }, [.warn "E-STOP released (keyboard)"])
      else (m, [])
    else (m, [])

/-- `_tick`: the status, and a zero twist for every rover while stopped. -/
def tick (m : EstopManager) : List Action :=
  .publishStatus m.stopped ::
    (if m.stopped then m.rovers.map (fun ns => .publishTwist ("/" ++ ns ++ "/cmd_vel") {}) else [])

/-! ### The node and its topic -/

/-- A Bool in flight on the stop topic, by who published it. -/
inductive Flight
  | own (data : Bool)
  | ext (data : Bool)
deriving DecidableEq, Repr

/-- The node and the Bools published on the stop topic that are not delivered yet. -/
structure Net where
  manager : EstopManager
  topic : List Flight
deriving DecidableEq, Repr

inductive Event
  | tick
  | pollKeys (ch : Option Char)
  /-- Another node publishes a Bool. -/
  | publishExt (data : Bool)
  /-- The oldest Bool in flight reaches `_on_ext`; nothing happens when there is none. -/
  | deliver
deriving DecidableEq, Repr

/-- The statuses among the actions of a callback, as they enter the topic. -/
def statusFlights (as : List Action) : List Flight :=
  as.filterMap fun
    | .publishStatus b => some (.own b)
    | _ => none

def Net.step (s : Net) : Event → Net × List Action
  | .tick => ({ s with topic := s.topic ++ statusFlights (tick s.manager) }, tick s.manager)
  | .pollKeys ch => ({ s with manager := (pollKeys s.manager ch).1 }, (pollKeys s.manager ch).2)
  | .publishExt b => ({ s with topic := s.topic ++ [.ext b] }, [])
  | .deliver =>
    match s.topic with
    | [] => (s, [])
    | .own b :: rest | .ext b :: rest =>
      ({ manager := (onExt s.manager b).1, topic := rest }, (onExt s.manager b).2)

/-- The node as it starts, on an empty topic. -/
def system (rovers : List String) (settings : Bool) : Process Net Event (List Action) where
  init := ⟨{ rovers, settings }, []⟩
  step := Net.step

/-! ### The last command -/

/-- The value of the last command, and the topic as a node obeying commands only would fill it. -/
structure Commander where
  last : Bool
  topic : List Flight
deriving DecidableEq, Repr

/-- The command a handled key press is. -/
def keyCommand (settings : Bool) : Option Char → Option Bool
  | none => none
  | some ch =>
    if !settings then none
    else if ch = 'e' ∨ ch = 'E' then some true
    else if ch = 'r' ∨ ch = 'R' then some false
    else none

/-- The commander obeys E, R and delivered external Bools; the output is the command, if the event
is one. -/
def Commander.step (settings : Bool) (s : Commander) : Event → Commander × Option Bool
  | .tick => ({ s with topic := s.topic ++ [.own s.last] }, none)
  | .pollKeys ch =>
    ({ s with last := (keyCommand settings ch).getD s.last }, keyCommand settings ch)
  | .publishExt b => ({ s with topic := s.topic ++ [.ext b] }, none)
  | .deliver =>
    match s.topic with
    | [] => (s, none)
    | .own _ :: rest => ({ s with topic := rest }, none)
    | .ext b :: rest => ({ last := b, topic := rest }, some b)

def commander (settings : Bool) : Process Commander Event (Option Bool) where
  init := ⟨false, []⟩
  step := Commander.step settings

/-- The commands of a run, in order. -/
def commands (settings : Bool) (es : List Event) : List Bool :=
  ((commander settings).outputs es).filterMap id

/-- The commander holds the last command, False if there was none. -/
theorem commander_last (settings : Bool) (es : List Event) :
    ((commander settings).after es).last = (commands settings es).getLastD false := by
  refine Process.invariant (commander settings)
    (I := fun es s => s.last = (commands settings es).getLastD false) rfl ?_ es
  intro es e ih
  have hcmd : commands settings (es ++ [e]) =
      commands settings es ++
        (((commander settings).step ((commander settings).after es) e).2).toList := by
    simp only [commands, Process.outputs_concat, List.filterMap_append]
    cases ((commander settings).step ((commander settings).after es) e).2 <;> rfl
  rw [hcmd]
  generalize (commander settings).after es = s at ih ⊢
  cases e with
  | tick => simpa [commander, Commander.step] using ih
  | publishExt b => simpa [commander, Commander.step] using ih
  | pollKeys ch =>
    simp only [commander, Commander.step]
    cases keyCommand settings ch with
    | none => simpa using ih
    | some b => simp
  | deliver =>
    simp only [commander, Commander.step]
    split
    · simpa using ih
    · simpa using ih
    · simp

/-! ### What every callback does to `stopped` -/

@[simp] theorem onExt_fst (m : EstopManager) (b : Bool) : (onExt m b).1 = { m with stopped := b } := by
  unfold onExt
  by_cases h : b = m.stopped
  · rw [if_neg (not_not.mpr h), h]
  · rw [if_pos h]

theorem pollKeys_fst (m : EstopManager) (ch : Option Char) :
    (pollKeys m ch).1 = { m with stopped := (keyCommand m.settings ch).getD m.stopped } := by
  obtain ⟨rovers, settings, stopped⟩ := m
  cases settings <;> cases ch with
  | none => rfl
  | some ch =>
    by_cases he : ch = 'e' ∨ ch = 'E'
    · cases stopped <;> simp [pollKeys, keyCommand, he]
    · by_cases hr : ch = 'r' ∨ ch = 'R' <;> cases stopped <;> simp [pollKeys, keyCommand, he, hr]

@[simp] theorem statusFlights_tick (m : EstopManager) :
    statusFlights (tick m) = [.own m.stopped] := by
  unfold statusFlights tick
  cases m.stopped <;> simp

/-! ### What a delivery does -/

variable {rovers : List String} {settings : Bool}

@[simp] theorem system_step : (system rovers settings).step = Net.step := rfl

@[simp] theorem commander_step : (commander settings).step = Commander.step settings := rfl

theorem step_deliver_own {s : Net} {b : Bool} {rest : List Flight} (h : s.topic = .own b :: rest) :
    (s.step .deliver).1 = ⟨{ s.manager with stopped := b }, rest⟩ := by
  simp [Net.step, h]

theorem step_deliver_ext {s : Net} {b : Bool} {rest : List Flight} (h : s.topic = .ext b :: rest) :
    (s.step .deliver).1 = ⟨{ s.manager with stopped := b }, rest⟩ := by
  simp [Net.step, h]

theorem commander_deliver_own {q : Commander} {b : Bool} {rest : List Flight}
    (h : q.topic = .own b :: rest) :
    (q.step settings .deliver) = ({ q with topic := rest }, none) := by
  simp [Commander.step, h]

theorem commander_deliver_ext {q : Commander} {b : Bool} {rest : List Flight}
    (h : q.topic = .ext b :: rest) :
    (q.step settings .deliver) = (⟨b, rest⟩, some b) := by
  simp [Commander.step, h]

/-! ### The node against the commander -/

/-- The node holds the last command, and the topic holds the same Bools in both. -/
structure Agree (settings : Bool) (s : Net) (q : Commander) : Prop where
  settings : s.manager.settings = settings
  stopped : s.manager.stopped = q.last
  topic : s.topic = q.topic

/-- No stale status: whenever a status of the node is delivered, the last command is still the one
whose value the status carries. -/
def NoStaleStatus (settings : Bool) (es : List Event) : Prop :=
  ∀ pre, pre ++ [.deliver] <+: es → ∀ b rest,
    ((commander settings).after pre).topic = .own b :: rest →
      b = ((commander settings).after pre).last

theorem agree_step {s : Net} {q : Commander} {e : Event} (h : Agree settings s q)
    (he : ∀ b rest, e = .deliver → q.topic = .own b :: rest → b = q.last) :
    Agree settings (s.step e).1 (q.step settings e).1 := by
  obtain ⟨hset, hstop, htop⟩ := h
  cases e with
  | tick => exact ⟨hset, hstop, by simp [Net.step, Commander.step, hstop, htop]⟩
  | publishExt b => exact ⟨hset, hstop, by simp [Net.step, Commander.step, htop]⟩
  | pollKeys ch =>
    simp only [Net.step, Commander.step, pollKeys_fst]
    exact ⟨hset, by rw [hset, hstop], htop⟩
  | deliver =>
    match hq : q.topic with
    | [] =>
      simp only [Net.step, Commander.step, htop, hq]
      exact ⟨hset, hstop, by rw [htop, hq]⟩
    | .own b :: rest =>
      rw [step_deliver_own (htop.trans hq), commander_deliver_own hq]
      exact ⟨hset, he b rest rfl hq, rfl⟩
    | .ext b :: rest =>
      rw [step_deliver_ext (htop.trans hq), commander_deliver_ext hq]
      exact ⟨hset, rfl, rfl⟩

/-- The node and the commander agree all along the run if, as long as they do, every delivered
status of the node carries the last command. -/
theorem agree_of_deliver {es : List Event}
    (h : ∀ pre, pre ++ [.deliver] <+: es →
      Agree settings ((system rovers settings).after pre) ((commander settings).after pre) →
        ∀ b rest, ((commander settings).after pre).topic = .own b :: rest →
          b = ((commander settings).after pre).last) :
    ∀ pre, pre <+: es →
      Agree settings ((system rovers settings).after pre) ((commander settings).after pre) := by
  refine Process.simulation (system rovers settings) (commander settings)
    (R := Agree settings) ⟨rfl, rfl, rfl⟩ es ?_
  intro pre e hp hR
  exact agree_step hR fun b rest he hq => h pre (he ▸ hp) hR b rest hq

/-- Without stale statuses the node and the commander agree all along the run. -/
theorem agree_of_noStaleStatus {es : List Event} (h : NoStaleStatus settings es) :
    ∀ pre, pre <+: es →
      Agree settings ((system rovers settings).after pre) ((commander settings).after pre) :=
  agree_of_deliver fun pre hp _ => h pre hp

/-- **The node keeps the last command** along `es`: `stopped` is the last command at every moment,
delivering one of the node's own statuses never changes it, and once set it stays set until a
command False. -/
structure KeepsLastCommand (rovers : List String) (settings : Bool) (es : List Event) : Prop where
  stopped : ∀ pre, pre <+: es →
    ((system rovers settings).after pre).manager.stopped = (commands settings pre).getLastD false
  echo : ∀ pre, pre ++ [.deliver] <+: es → ∀ b rest,
    ((system rovers settings).after pre).topic = .own b :: rest →
      ((system rovers settings).after (pre ++ [.deliver])).manager.stopped =
        ((system rovers settings).after pre).manager.stopped
  held : ∀ pre mid cs, pre ++ mid <+: es → commands settings (pre ++ mid) = commands settings pre ++ cs →
    false ∉ cs → ((system rovers settings).after pre).manager.stopped = true →
      ((system rovers settings).after (pre ++ mid)).manager.stopped = true

/-- If `stopped` is the last command all along the run, the node and the commander agree. -/
theorem agree_of_stopped {es : List Event}
    (h : ∀ pre, pre <+: es →
      ((system rovers settings).after pre).manager.stopped = (commands settings pre).getLastD false) :
    ∀ pre, pre <+: es →
      Agree settings ((system rovers settings).after pre) ((commander settings).after pre) := by
  refine agree_of_deliver fun pre hp hR b rest hq => ?_
  -- the delivered status has just become `stopped`, and no command was handled
  have hlast := h _ hp
  rwa [← commander_last, Process.after_concat, Process.after_concat, system_step, commander_step,
    step_deliver_own (hR.topic.trans hq), commander_deliver_own hq] at hlast

/-- **`EstopManager` keeps the last command exactly in the runs without a stale status.** -/
theorem keepsLastCommand_iff (rovers : List String) (settings : Bool) (es : List Event) :
    KeepsLastCommand rovers settings es ↔ NoStaleStatus settings es := by
  constructor
  · intro h pre hp b rest hq
    have hR := agree_of_stopped h.stopped pre ((List.prefix_append _ _).trans hp)
    have hown := hR.topic.trans hq
    have hecho := h.echo pre hp b rest hown
    rwa [Process.after_concat, system_step, step_deliver_own hown, hR.stopped] at hecho
  · intro h
    have hR : ∀ pre, pre <+: es →
        Agree settings ((system rovers settings).after pre) ((commander settings).after pre) :=
      agree_of_noStaleStatus h
    have hstop : ∀ pre, pre <+: es → ((system rovers settings).after pre).manager.stopped =
        (commands settings pre).getLastD false := fun pre hp =>
      (hR pre hp).stopped.trans (commander_last settings pre)
    refine ⟨hstop, ?_, ?_⟩
    · intro pre hp b rest hq
      have hpre := hR pre ((List.prefix_append _ _).trans hp)
      have hb : b = ((commander settings).after pre).last :=
        h pre hp b rest (hpre.topic.symm.trans hq)
      rw [Process.after_concat, system_step, step_deliver_own hq, hpre.stopped, ← hb]
    · intro pre mid cs hp hcs hf ht
      rw [hstop _ hp, hcs]
      rw [hstop _ ((List.prefix_append _ _).trans hp)] at ht
      cases hc : cs.getLast? with
      | none => simpa [List.getLast?_eq_none_iff.mp hc] using ht
      | some b =>
        have hb : b ∈ cs := List.mem_of_getLast? hc
        cases b with
        | false => exact absurd hb hf
        | true => simp [List.getLastD_eq_getLast?, List.getLast?_append, hc]

/-- A status published just before E is pressed arrives after it and releases the stop. -/
theorem not_keepsLastCommand :
    ¬ KeepsLastCommand ["rover_0"] true [.tick, .pollKeys (some 'e'), .deliver] := by
  intro h
  have := h.stopped _ (List.prefix_refl _)
  revert this
  decide

end RoverSwarm.Estop
