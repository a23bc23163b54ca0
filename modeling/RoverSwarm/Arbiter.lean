import Mathlib.Data.List.Nodup
import Mathlib.Algebra.Order.Ring.Rat
import RoverSwarm.Lib.Transition
import RoverSwarm.Msgs

/-!
# Arbiter — `cmd_vel_arbiter.py`, the single writer in front of every rover's DiffDrive

The node latches the last autonomy and the last teleop twist of every rover and, on every tick,
publishes one twist per rover by priority: e-stop, teleop within `teleop_timeout` of its last
message, autonomy, zero.  `selection` says the same as a function of the message history;
`arbiter_refines` is the refinement.  A twist received before a release can still be published
after it only as the latched last message of its source (`published_after_release`).
-/

namespace RoverSwarm.Arbiter

open Transition

/-! ### The node -/

/-- The two twist slots of a rover. -/
inductive Key
  | autonomy
  | teleop
deriving DecidableEq, Repr

/-- Who won a tick. -/
inductive Source
  | estop
  | teleop
  | autonomy
  | zero
deriving DecidableEq, Repr

/-- The rovers of the roster: `self.rovers` is keyed by them, in this order. -/
structure Fleet where
  namespaces : List String
  nodup : namespaces.Nodup

/-- What the callbacks of `CmdVelArbiter` read and write. -/
structure CmdVelArbiter extends Fleet where
  teleopTimeout : ℚ
  estop : Bool := false
  lastSource : String → Option Source := fun _ => none
  /-- `self.rovers[ns][key]`: the stamp and the twist, or `None`. -/
  rovers : String → Key → Option (ℚ × Twist) := fun _ _ => none

inductive Action
  | logEstop (engaged : Bool)
  | logFirstTwist (ns : String) (key : Key) (vx : ℚ)
  | logSource (ns : String) (source : Source)
  | publish (topic : String) (msg : Twist)
deriving DecidableEq, Repr

/-- `_on_estop`. -/
def onEstop (a : CmdVelArbiter) (data : Bool) : CmdVelArbiter × List Action :=
  ({ a with estop := data }, if data ≠ a.estop then [.logEstop data] else [])

/-- The callback `_on_twist_factory(ns, key)` returns; `now` is its reading of the clock. -/
def onTwist (a : CmdVelArbiter) (ns : String) (key : Key) (now : ℚ) (msg : Twist) :
    CmdVelArbiter × List Action :=
  ({ a with
      rovers := Function.update a.rovers ns (Function.update (a.rovers ns) key (some (now, msg))) },
    if a.rovers ns key = none then [.logFirstTwist ns key msg.linear.x] else [])

/-- `_teleop_active`. -/
def teleopActive (a : CmdVelArbiter) (ns : String) (now : ℚ) : Bool :=
  match a.rovers ns .teleop with
  | none => false
  | some tel => decide (now - tel.1 ≤ a.teleopTimeout)

/-- `_select`. -/
def select (a : CmdVelArbiter) (ns : String) (now : ℚ) : Source × Twist :=
  if a.estop then (.estop, {})
  else
    match teleopActive a ns now, a.rovers ns .teleop, a.rovers ns .autonomy with
    | true, some tel, _ => (.teleop, tel.2)
    | _, _, some aut => (.autonomy, aut.2)
    | _, _, none => (.zero, {})

/-- The topic the bridge forwards. -/
def arbTopic (ns : String) : String := "/" ++ ns ++ "/cmd_vel_arb"

/-- One turn of the loop of `tick`. -/
def tickRover (a : CmdVelArbiter) (now : ℚ) (ns : String) : CmdVelArbiter × List Action :=
  let w := select a ns now
  if some w.1 ≠ a.lastSource ns then
    ({ a with lastSource := Function.update a.lastSource ns (some w.1) },
      [.logSource ns w.1, .publish (arbTopic ns) w.2])
  else (a, [.publish (arbTopic ns) w.2])

/-- The loop of `tick`; `now ns` is the reading of the clock made for the rover `ns`. -/
def tickLoop (now : String → ℚ) : List String → CmdVelArbiter → CmdVelArbiter × List Action
  | [], a => (a, [])
  | ns :: rest, a =>
    let r := tickRover a (now ns) ns
    let q := tickLoop now rest r.1
    (q.1, r.2 ++ q.2)

/-- `tick`. -/
def tick (a : CmdVelArbiter) (now : String → ℚ) : CmdVelArbiter × List Action :=
  tickLoop now a.namespaces a

inductive Event
  | emergencyStop (data : Bool)
  | twist (ns : String) (key : Key) (now : ℚ) (msg : Twist)
  | tick (now : String → ℚ)

/-- The node reacts to an event; it has no subscription for a rover outside the roster. -/
def CmdVelArbiter.step (a : CmdVelArbiter) : Event → CmdVelArbiter × List Action
  | .emergencyStop data => onEstop a data
  | .twist ns key now msg => if ns ∈ a.namespaces then onTwist a ns key now msg else (a, [])
  | .tick now => Arbiter.tick a now

def arbiter (fleet : Fleet) (teleopTimeout : ℚ) : Process CmdVelArbiter Event (List Action) where
  init := { fleet with teleopTimeout }
  step := CmdVelArbiter.step

/-- The twists among the actions of a step, with their topics. -/
def published (as : List Action) : List (String × Twist) :=
  as.filterMap fun
    | .publish topic msg => some (topic, msg)
    | _ => none

/-! ### The priority specification -/

/-- The Bool an event brings on `/emergency_stop`. -/
def estopOf : Event → Option Bool
  | .emergencyStop data => some data
  | _ => none

/-- The twist an event brings for the slot `key` of `ns`, with its time of reception. -/
def twistOf (ns : String) (key : Key) : Event → Option (ℚ × Twist)
  | .twist ns' key' now msg => if ns' = ns ∧ key' = key then some (now, msg) else none
  | _ => none

/-- The most recent Bool on `/emergency_stop`. -/
def lastEstop (h : List Event) : Bool := (lastOf estopOf h).getD false

/-- The last twist received for the slot `key` of `ns`. -/
def lastTwist (ns : String) (key : Key) (h : List Event) : Option (ℚ × Twist) :=
  lastOf (twistOf ns key) h

/-- The last teleop twist received for `ns`, unless it is older than the timeout. -/
def freshTeleop (teleopTimeout : ℚ) (h : List Event) (ns : String) (now : ℚ) : Option Twist :=
  (lastTwist ns .teleop h).bind fun tel =>
    if now - tel.1 ≤ teleopTimeout then some tel.2 else none

/-- The twist the priorities give to `ns` after the history `h`. -/
def selection (teleopTimeout : ℚ) (h : List Event) (ns : String) (now : ℚ) : Twist :=
  if lastEstop h then {}
  else ((freshTeleop teleopTimeout h ns now).or ((lastTwist ns .autonomy h).map Prod.snd)).getD {}

/-- The events that concern the rover `ns`. -/
def concerns (ns : String) : Event → Bool
  | .emergencyStop _ => true
  | .twist ns' _ _ _ => decide (ns' = ns)
  | .tick _ => false

theorem lastEstop_concat (h : List Event) (e : Event) :
    lastEstop (h ++ [e]) = (estopOf e).getD (lastEstop h) := by
  rw [lastEstop, lastOf_concat]
  cases estopOf e <;> rfl

theorem lastTwist_concat (ns : String) (key : Key) (h : List Event) (e : Event) :
    lastTwist ns key (h ++ [e]) = (twistOf ns key e).or (lastTwist ns key h) :=
  lastOf_concat h e

/-! ### What every callback does -/

@[simp] theorem arbiter_step (fleet : Fleet) (teleopTimeout : ℚ) :
    (arbiter fleet teleopTimeout).step = CmdVelArbiter.step := rfl

@[simp] theorem published_append (as bs : List Action) :
    published (as ++ bs) = published as ++ published bs := List.filterMap_append

theorem tickRover_published (a : CmdVelArbiter) (now : ℚ) (ns : String) :
    published (tickRover a now ns).2 = [(arbTopic ns, (select a ns now).2)] := by
  unfold tickRover
  dsimp only
  split_ifs <;> rfl

/-- A tick changes nothing but the log memory. -/
theorem tickRover_fst (a : CmdVelArbiter) (now : ℚ) (ns : String) :
    ∃ f, (tickRover a now ns).1 = { a with lastSource := f } := by
  unfold tickRover
  dsimp only
  split_ifs
  · exact ⟨_, rfl⟩
  · exact ⟨a.lastSource, rfl⟩

theorem tickLoop_fst (now : String → ℚ) (l : List String) (a : CmdVelArbiter) :
    ∃ f, (tickLoop now l a).1 = { a with lastSource := f } := by
  induction l generalizing a with
  | nil => exact ⟨a.lastSource, rfl⟩
  | cons ns rest ih =>
    obtain ⟨f, hf⟩ := tickRover_fst a (now ns) ns
    obtain ⟨g, hg⟩ := ih (tickRover a (now ns) ns).1
    exact ⟨g, by rw [tickLoop, hg, hf]⟩

@[simp] theorem select_lastSource (a : CmdVelArbiter) (f : String → Option Source) (ns : String)
    (now : ℚ) : select { a with lastSource := f } ns now = select a ns now := rfl

theorem tickLoop_published (now : String → ℚ) (l : List String) (a : CmdVelArbiter) :
    published (tickLoop now l a).2 = l.map fun ns => (arbTopic ns, (select a ns (now ns)).2) := by
  induction l generalizing a with
  | nil => rfl
  | cons ns rest ih =>
    obtain ⟨f, hf⟩ := tickRover_fst a (now ns) ns
    rw [tickLoop, published_append, tickRover_published, ih, hf]
    simp

/-! ### The refinement -/

variable {fleet : Fleet} {teleopTimeout : ℚ}

/-- The state of the node is the last messages of the history. -/
structure Latched (fleet : Fleet) (teleopTimeout : ℚ) (h : List Event) (a : CmdVelArbiter) :
    Prop where
  roster : a.toFleet = fleet
  timeout : a.teleopTimeout = teleopTimeout
  estop : a.estop = lastEstop h
  rovers : ∀ ns ∈ fleet.namespaces, ∀ key, a.rovers ns key = lastTwist ns key h

theorem latched_step {h : List Event} {a : CmdVelArbiter} (hl : Latched fleet teleopTimeout h a)
    (e : Event) : Latched fleet teleopTimeout (h ++ [e]) (a.step e).1 := by
  obtain ⟨hf, ht, he, hr⟩ := hl
  cases e with
  | emergencyStop data =>
    refine ⟨hf, ht, ?_, ?_⟩
    · simp [CmdVelArbiter.step, onEstop, lastEstop_concat, estopOf]
    · intro ns hns key
      simpa [CmdVelArbiter.step, onEstop, lastTwist_concat, twistOf] using hr ns hns key
  | twist ns' key' now msg =>
    have hes : lastEstop (h ++ [Event.twist ns' key' now msg]) = lastEstop h := by
      simp [lastEstop_concat, estopOf]
    by_cases hmem : ns' ∈ a.namespaces
    · simp only [CmdVelArbiter.step, if_pos hmem]
      refine ⟨hf, ht, by simpa [onTwist, hes] using he, ?_⟩
      intro ns hns key
      simp only [onTwist, lastTwist_concat, twistOf]
      by_cases h1 : ns = ns'
      · subst h1
        by_cases h2 : key = key'
        · subst h2
          simp
        · simpa [h2, Ne.symm h2] using hr ns hns key
      · simpa [h1, Ne.symm h1] using hr ns hns key
    · simp only [CmdVelArbiter.step, if_neg hmem]
      refine ⟨hf, ht, he.trans hes.symm, ?_⟩
      intro ns hns key
      have hne : ns' ≠ ns := fun h' => hmem (by rw [hf, h']; exact hns)
      simpa [lastTwist_concat, twistOf, hne] using hr ns hns key
  | tick now =>
    obtain ⟨f, hf'⟩ := tickLoop_fst now a.namespaces a
    simp only [CmdVelArbiter.step, tick, hf']
    refine ⟨hf, ht, ?_, ?_⟩
    · simpa [lastEstop_concat, estopOf] using he
    · intro ns hns key
      simpa [lastTwist_concat, twistOf] using hr ns hns key

theorem latched (fleet : Fleet) (teleopTimeout : ℚ) (h : List Event) :
    Latched fleet teleopTimeout h ((arbiter fleet teleopTimeout).after h) :=
  Process.invariant (arbiter fleet teleopTimeout) (I := Latched fleet teleopTimeout)
    ⟨rfl, rfl, rfl, fun _ _ _ => rfl⟩ (fun _ e hl => latched_step hl e) h

/-- What `_select` picks is what the priorities give. -/
theorem select_eq_selection {h : List Event} {a : CmdVelArbiter}
    (hl : Latched fleet teleopTimeout h a) {ns : String} (hns : ns ∈ fleet.namespaces) (now : ℚ) :
    (select a ns now).2 = selection teleopTimeout h ns now := by
  have htel := hl.rovers ns hns .teleop
  have haut := hl.rovers ns hns .autonomy
  unfold select selection freshTeleop teleopActive
  rw [hl.estop, htel, haut, hl.timeout]
  by_cases he : lastEstop h
  · simp [he]
  · cases lastTwist ns .teleop h with
    | none => cases lastTwist ns .autonomy h <;> simp [he]
    | some tel =>
      by_cases hact : now - tel.1 ≤ teleopTimeout
      · simp only [if_neg he, decide_eq_true hact, Option.bind_some, if_pos hact]
        rfl
      · simp only [if_neg he, decide_eq_false hact, Option.bind_some, if_neg hact]
        cases lastTwist ns .autonomy h <;> rfl

theorem tick_published (fleet : Fleet) (teleopTimeout : ℚ) (h : List Event) (now : String → ℚ) :
    published ((arbiter fleet teleopTimeout).step ((arbiter fleet teleopTimeout).after h)
      (.tick now)).2 =
      fleet.namespaces.map fun ns => (arbTopic ns, selection teleopTimeout h ns (now ns)) := by
  have hl := latched fleet teleopTimeout h
  have htick := tickLoop_published now fleet.namespaces ((arbiter fleet teleopTimeout).after h)
  rw [List.map_congr_left (fun ns hns => by rw [select_eq_selection hl hns])] at htick
  rw [← htick, arbiter_step]
  simp only [CmdVelArbiter.step, tick, hl.roster]

theorem selection_of_filter_eq {h h' : List Event} {ns : String}
    (heq : h.filter (concerns ns) = h'.filter (concerns ns)) (now : ℚ) :
    selection teleopTimeout h ns now = selection teleopTimeout h' ns now := by
  have hes : ∀ g : List Event, lastEstop (g.filter (concerns ns)) = lastEstop g := fun g =>
    congrArg (Option.getD · false)
      (lastOf_filter (fun e he => by cases e <;> simp_all [concerns, estopOf]) g)
  have htw : ∀ key (g : List Event),
      lastTwist ns key (g.filter (concerns ns)) = lastTwist ns key g := fun key =>
    lastOf_filter fun e he => by cases e <;> simp_all [concerns, twistOf]
  have key : ∀ g : List Event,
      selection teleopTimeout (g.filter (concerns ns)) ns now = selection teleopTimeout g ns now := by
    intro g
    simp only [selection, freshTeleop, hes, htw]
  rw [← key h, ← key h', heq]

theorem arbTopic_injective : Function.Injective arbTopic := by
  intro a b h
  have h' := congrArg String.toList h
  exact String.toList_injective (by simpa [arbTopic] using h')

/-- **The arbiter refines its priority specification**: every tick publishes, for every rover of
the roster, exactly one twist, the one `selection` gives; events that do not concern a rover do not
change its twist. -/
theorem arbiter_refines (fleet : Fleet) (teleopTimeout : ℚ) (h : List Event) (now : String → ℚ) :
    let out := published ((arbiter fleet teleopTimeout).step
      ((arbiter fleet teleopTimeout).after h) (.tick now)).2
    out = fleet.namespaces.map (fun ns => (arbTopic ns, selection teleopTimeout h ns (now ns))) ∧
    (∀ ns ∈ fleet.namespaces, (out.map Prod.fst).count (arbTopic ns) = 1) ∧
    ∀ ns h', h.filter (concerns ns) = h'.filter (concerns ns) →
      selection teleopTimeout h ns (now ns) = selection teleopTimeout h' ns (now ns) := by
  intro out
  have hout : out = _ := tick_published fleet teleopTimeout h now
  refine ⟨hout, ?_, fun ns h' heq => selection_of_filter_eq heq _⟩
  intro ns hns
  have htopics : out.map Prod.fst = fleet.namespaces.map arbTopic := by
    rw [hout, List.map_map]
    rfl
  rw [htopics]
  exact List.count_eq_one_of_mem (fleet.nodup.map arbTopic_injective)
    (List.mem_map_of_mem hns)

/-! ### Twists across an emergency stop -/

/-- The twists a tick publishes after the history `h`. -/
def tickAfter (fleet : Fleet) (teleopTimeout : ℚ) (h : List Event) (now : String → ℚ) :
    List (String × Twist) :=
  published ((arbiter fleet teleopTimeout).step
    ((arbiter fleet teleopTimeout).after h) (.tick now)).2

/-- A history that engages the emergency stop after `h₁` and releases it after `h₂`. -/
def engageRelease (h₁ h₂ h₃ : List Event) : List Event :=
  h₁ ++ .emergencyStop true :: h₂ ++ .emergencyStop false :: h₃

/-- Every nonzero twist published after the release was received after it. -/
def NothingSurvives (fleet : Fleet) (teleopTimeout : ℚ) (h₁ h₂ h₃ : List Event)
    (now : String → ℚ) : Prop :=
  ∀ ns m, (arbTopic ns, m) ∈ tickAfter fleet teleopTimeout (engageRelease h₁ h₂ h₃) now →
    m ≠ {} → ∃ key t, .twist ns key t m ∈ h₃

/-- A nonzero selection is the last twist of one of the two slots. -/
theorem selection_cases {h : List Event} {ns : String} {now : ℚ} {m : Twist}
    (hsel : selection teleopTimeout h ns now = m) (hm : m ≠ {}) :
    (∃ t, lastTwist ns .teleop h = some (t, m) ∧ now - t ≤ teleopTimeout) ∨
    ∃ t, lastTwist ns .autonomy h = some (t, m) := by
  unfold selection at hsel
  split_ifs at hsel with he
  · exact absurd hsel.symm hm
  · cases hf : freshTeleop teleopTimeout h ns now with
    | some tel =>
      left
      rw [hf] at hsel
      obtain rfl : tel = m := hsel
      obtain ⟨⟨t, m'⟩, hl, ht⟩ := Option.bind_eq_some_iff.mp hf
      split_ifs at ht with hage
      obtain rfl : m' = tel := Option.some.inj ht
      exact ⟨t, hl, hage⟩
    | none =>
      right
      rw [hf, Option.none_or] at hsel
      cases ha : lastTwist ns .autonomy h with
      | none =>
        rw [ha] at hsel
        exact absurd hsel.symm hm
      | some aut =>
        rw [ha] at hsel
        obtain rfl : aut.2 = m := hsel
        exact ⟨aut.1, rfl⟩

/-- The last twist of a slot came after the release, or before it and none came since. -/
theorem lastTwist_engageRelease {h₁ h₂ h₃ : List Event} {ns : String} {key : Key} {t : ℚ}
    {m : Twist} (h : lastTwist ns key (engageRelease h₁ h₂ h₃) = some (t, m)) :
    .twist ns key t m ∈ h₃ ∨
    (lastTwist ns key h₃ = none ∧
      lastTwist ns key (h₁ ++ .emergencyStop true :: h₂) = some (t, m)) := by
  have hsplit : engageRelease h₁ h₂ h₃ =
      (h₁ ++ .emergencyStop true :: h₂ ++ [.emergencyStop false]) ++ h₃ := by
    simp [engageRelease]
  rw [hsplit, lastTwist, lastOf_append] at h
  cases hl : lastOf (twistOf ns key) h₃ with
  | some r =>
    rw [hl, Option.some_or] at h
    obtain rfl : r = (t, m) := Option.some.inj h
    obtain ⟨e, he, htw⟩ := exists_of_lastOf_eq_some hl
    cases e with
    | emergencyStop data => exact absurd htw (by simp [twistOf])
    | tick now => exact absurd htw (by simp [twistOf])
    | twist ns' key' now msg =>
      simp only [twistOf, Option.ite_none_right_eq_some, Option.some.injEq, Prod.mk.injEq] at htw
      obtain ⟨⟨rfl, rfl⟩, rfl, rfl⟩ := htw
      exact Or.inl he
  | none =>
    rw [hl, Option.none_or] at h
    have hestop : twistOf ns key (.emergencyStop false) = none := rfl
    rw [← lastTwist, lastTwist_concat, hestop, Option.none_or] at h
    exact Or.inr ⟨hl, h⟩

/-- **What survives a release.**  A nonzero twist published after the release was received after
it, or is the last teleop twist from before the release, no older than the timeout and with none
since, or is the last autonomy twist from before the release with none since. -/
theorem published_after_release (fleet : Fleet) (teleopTimeout : ℚ) (h₁ h₂ h₃ : List Event)
    (now : String → ℚ) (ns : String) (m : Twist)
    (hpub : (arbTopic ns, m) ∈ tickAfter fleet teleopTimeout (engageRelease h₁ h₂ h₃) now)
    (hm : m ≠ {}) :
    (∃ key t, .twist ns key t m ∈ h₃) ∨
    (lastTwist ns .teleop h₃ = none ∧
      ∃ t, lastTwist ns .teleop (h₁ ++ .emergencyStop true :: h₂) = some (t, m) ∧
        now ns - t ≤ teleopTimeout) ∨
    (lastTwist ns .autonomy h₃ = none ∧
      ∃ t, lastTwist ns .autonomy (h₁ ++ .emergencyStop true :: h₂) = some (t, m)) := by
  rw [tickAfter, tick_published, List.mem_map] at hpub
  obtain ⟨ns', -, heq⟩ := hpub
  rw [Prod.mk.injEq] at heq
  obtain rfl := arbTopic_injective heq.1
  rcases selection_cases heq.2 hm with ⟨t, hl, hage⟩ | ⟨t, hl⟩
  · rcases lastTwist_engageRelease hl with hmem | ⟨hnone, hpre⟩
    · exact Or.inl ⟨_, t, hmem⟩
    · exact Or.inr (Or.inl ⟨hnone, t, hpre, hage⟩)
  · rcases lastTwist_engageRelease hl with hmem | ⟨hnone, hpre⟩
    · exact Or.inl ⟨_, t, hmem⟩
    · exact Or.inr (Or.inr ⟨hnone, t, hpre⟩)

/-- One rover, driving forward on its autonomy topic when the stop is engaged. -/
def oneRover : Fleet := ⟨["rover_0"], by decide⟩

theorem published_after_release_autonomy :
    let go : Twist := { linear := { x := 1 } }
    (lastTwist "rover_0" .autonomy [] = none ∧
      ∃ t, lastTwist "rover_0" .autonomy
        ([.twist "rover_0" .autonomy 0 go] ++ .emergencyStop true :: []) = some (t, go)) := by
  intro go
  rcases published_after_release oneRover (1 / 5) [.twist "rover_0" .autonomy 0 go] [] []
    (fun _ => 10) "rover_0" go (by decide +kernel) (by decide +kernel) with
    ⟨key, t, h⟩ | ⟨-, t, h, -⟩ | h
  · exact absurd h (by simp)
  · exact absurd h (by simp [lastTwist, lastOf, twistOf])
  · exact h

/-- The latched autonomy twist is published again after the release, and so is a teleop twist
younger than the timeout. -/
theorem not_nothingSurvives :
    ¬ NothingSurvives oneRover (1 / 5) [.twist "rover_0" .autonomy 0 { linear := { x := 1 } }]
      [] [] (fun _ => 10) ∧
    ¬ NothingSurvives oneRover (1 / 5) [.twist "rover_0" .teleop 0 { linear := { x := 1 } }]
      [] [] (fun _ => 1 / 10) := by
  constructor <;> intro h <;>
  obtain ⟨key, t, hmem⟩ := h "rover_0" { linear := { x := 1 } } (by decide +kernel)
    (by decide +kernel) <;>
  exact absurd hmem (by simp)

end RoverSwarm.Arbiter
