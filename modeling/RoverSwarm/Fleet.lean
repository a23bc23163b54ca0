import Mathlib
import RoverSwarm.Lib.Dict

/-!
# Fleet — the names that `rover_swarm.launch.py` and `simulation.launch.py` give the rovers

Both launch files read the block `fleet` of `swarm.yaml`, and number the rovers behind a prefix.
`simulation.launch.py` takes a setting without a value for one that is absent, and clamps the number
of rovers to ten; `rover_swarm.launch.py`, which includes it, does neither.
-/

namespace RoverSwarm.Fleet

/-! ### The settings -/

/-- A value of the file; `Ω` are the floats, dates, lists and whatever else is no text. -/
inductive Value (Ω : Type) where
  | null
  | bool (b : Bool)
  | int (i : ℤ)
  | str (s : String)
  | other (o : Ω)
deriving DecidableEq

/-- The built-in conversions that are not spelled out here: `int` of a text, and `str` and `int` of
the other values.  A number that has been written is read back. -/
structure Builtins (Ω : Type) where
  intStr : String → Option ℤ
  strOther : Ω → String
  intOther : Ω → Option ℤ
  intStr_toString : ∀ i : ℤ, intStr (toString i) = some i

/-- A place of the file where a mapping is expected: nothing, a mapping, or something else, which
counts as true or as false. -/
inductive Block (α : Type) where
  | null
  | map (d : Dict String α)
  | other (truthy : Bool)

variable {Ω : Type}

/-- `is None`. -/
def Value.isNone : Value Ω → Bool
  | .null => true
  | _ => false

namespace Builtins

/-- `str(v)`, and what an f-string makes of `v`. -/
def str (py : Builtins Ω) : Value Ω → String
  | .null => "None"
  | .bool true => "True"
  | .bool false => "False"
  | .int i => toString i
  | .str s => s
  | .other o => py.strOther o

/-- `int(v)`, unless it raises. -/
def int (py : Builtins Ω) : Value Ω → Option ℤ
  | .null => none
  | .bool b => some b.toInt
  | .int i => some i
  | .str s => py.intStr s
  | .other o => py.intOther o

end Builtins

/-- `block or {}`, as far as it is a mapping; looking something up in anything else raises. -/
def Block.orEmpty {α : Type} : Block α → Option (Dict String α)
  | .null => some ∅
  | .map d => some d
  | .other false => some ∅
  | .other true => none

/-- The contents of `swarm.yaml`. -/
abbrev SwarmYaml (Ω : Type) := Block (Block (Block (Value Ω)))

/-- `(data.get('fleet') or {}).get('ros__parameters') or {}`, with which both files begin. -/
def fleetParams (data : SwarmYaml Ω) : Option (Dict String (Value Ω)) := do
  let data ← data.orEmpty
  let fleet ← ((data.get? "fleet").getD .null).orEmpty
  ((fleet.get? "ros__parameters").getD .null).orEmpty

/-- `[f'{prefix}{first + i}' for i in range(n)]`. -/
def numbered (namespacePrefix : String) (first n : ℤ) : List String :=
  (List.range n.toNat).map fun i : ℕ => namespacePrefix ++ toString (first + (i : ℤ))

/-! ### `simulation.launch.py` -/

namespace Simulation

/-- `FLEET_DEFAULTS`, as far as the names depend on it. -/
def fleetDefaults : Dict String (Value Ω) :=
  ⟨[("num_rovers", .int 1), ("namespace_prefix", .str "rover_"), ("first_index", .int 0)],
    by simp⟩

/-- `load_fleet_config`. -/
def loadFleetConfig (data : SwarmYaml Ω) : Option (Dict String (Value Ω)) := do
  let params ← fleetParams data
  some (fleetDefaults.update (params.filter fun v => !v.isNone))

/-- The part of `_launch_setup` that settles `rover_ns_list`, the rovers to be spawned; `numArg` is
the argument `num_rovers`. -/
def roverNsList (py : Builtins Ω) (data : SwarmYaml Ω) (numArg : String) :
    Option (List String) := do
  let fleet ← loadFleetConfig data
  let numRovers ←
    if numArg ≠ "" then py.intStr numArg else (fleet.get? "num_rovers").bind py.int
  let namespacePrefix ← (fleet.get? "namespace_prefix").map py.str
  let first ← (fleet.get? "first_index").bind py.int
  some (numbered namespacePrefix first (max 1 (min 10 numRovers)))

end Simulation

/-! ### `rover_swarm.launch.py` -/

namespace Swarm

/-- `FLEET_DEFAULTS`. -/
def defaultPrefix : Value Ω := .str "rover_"

/-- `FLEET_DEFAULTS`. -/
def defaultFirst : Value Ω := .int 0

/-- `_rover_fleet`. -/
def roverFleet (py : Builtins Ω) (data : SwarmYaml Ω) : Option (Value Ω × ℤ) := do
  let fleet ← fleetParams data
  let namespacePrefix := (fleet.get? "namespace_prefix").getD defaultPrefix
  let first ← py.int ((fleet.get? "first_index").getD defaultFirst)
  some (namespacePrefix, first)

/-- The arguments of one included `cslam_rover_lidar.launch.py`. -/
structure CslamStack where
  robotId : String
  ns : String
  roverNamespace : String
  maxNbRobots : String

/-- A node `relay` of `topic_tools`. -/
structure TopicRelay where
  name : String
  source : String
  target : String

/-- What is started with `nav2`: the relays, the included `nav2_stack.launch.py` by their
`rover_namespace`, and the nodes that are queried afterwards. -/
structure Nav2 where
  tfRelay : List String
  initialposeRelays : List TopicRelay
  goalposeRelays : List TopicRelay
  navStacks : List String
  lifecycleQueries : List String

/-- What is launched: the simulation with this argument `num_rovers`, and the stacks. -/
structure Launched where
  numRovers : String
  cslam : List CslamStack
  nav2 : Option Nav2

def initialposeRelay (roverNs : String) : TopicRelay :=
  ⟨"initialpose_relay_" ++ roverNs, "/initialpose", "/" ++ roverNs ++ "/initialpose"⟩

def lifecycleQuery (roverNs : String) : String := "/" ++ roverNs ++ "/bt_navigator"

def goalposeRelay (roverNs : String) : TopicRelay :=
  ⟨"goalpose_relay_" ++ roverNs, "/goal_pose", "/" ++ roverNs ++ "/goal_pose"⟩

/-- `launch_setup`, given the arguments `max_nb_robots` and `nav2`. -/
def launchSetup (py : Builtins Ω) (data : SwarmYaml Ω) (maxNbRobots : ℤ) (nav2 : String) :
    Option Launched := do
  let maxNbRobots := max 1 maxNbRobots
  let (namespacePrefix, first) ← roverFleet py data
  let cslam := (List.range maxNbRobots.toNat).map fun i : ℕ =>
    { robotId := toString i
      ns := "/r" ++ toString i
      roverNamespace := py.str namespacePrefix ++ toString (first + (i : ℤ))
      maxNbRobots := toString maxNbRobots : CslamStack }
  let roverNsList := numbered (py.str namespacePrefix) first maxNbRobots
  let nav2Processes : Nav2 :=
    { tfRelay := roverNsList
      initialposeRelays := roverNsList.map initialposeRelay
      goalposeRelays := roverNsList.map goalposeRelay
      navStacks := roverNsList
      lifecycleQueries := roverNsList.map lifecycleQuery }
  some
    { numRovers := toString maxNbRobots
      cslam := cslam
      nav2 := if nav2.toLower ∈ ["0", "false", "no"] then none else some nav2Processes }

end Swarm

/-! ### The two lists of names -/

@[simp] theorem length_numbered (p : String) (first n : ℤ) :
    (numbered p first n).length = n.toNat := by
  simp [numbered]

/-- With a rover at all, the prefixes tell the lists apart if no number makes up for them. -/
theorem numbered_ne {p q : String} (hne : ∀ s t : String, p ++ s ≠ q ++ t) {n : ℤ} (hn : 1 ≤ n)
    (first first' m : ℤ) : numbered p first n ≠ numbered q first' m := by
  intro heq
  have hpos : 0 < n.toNat := by omega
  have hmem : p ++ toString (first + (0 : ℕ)) ∈ numbered p first n :=
    List.mem_map.mpr ⟨0, List.mem_range.mpr hpos, rfl⟩
  rw [heq] at hmem
  obtain ⟨i, _, hi⟩ := List.mem_map.mp hmem
  exact hne _ _ hi.symm

theorem toString_ne_empty (i : ℤ) : toString i ≠ "" := by
  cases i with
  | ofNat m => exact Nat.repr_ne_empty
  | negSucc m =>
    intro h
    have hlist : "-".toList ++ (Nat.repr (m + 1)).toList = [] := by
      rw [← String.toList_append]
      exact congrArg String.toList h
    exact absurd (List.append_eq_nil_iff.mp hlist).1 (by decide)

/-- The setting as `simulation.launch.py` takes it: without a value it is the default. -/
def settingOr (params : Dict String (Value Ω)) (key : String) (default : Value Ω) : Value Ω :=
  ((params.get? key).filter fun v => !v.isNone).getD default

theorem settingOr_eq {params : Dict String (Value Ω)} {key : String}
    (h : params.get? key ≠ some .null) (default : Value Ω) :
    settingOr params key default = (params.get? key).getD default := by
  unfold settingOr
  cases hget : params.get? key with
  | none => rfl
  | some v =>
    cases v with
    | null => exact absurd hget h
    | _ => rfl

theorem settingOr_of_null {params : Dict String (Value Ω)} {key : String}
    (h : params.get? key = some .null) (default : Value Ω) :
    settingOr params key default = default := by
  unfold settingOr
  rw [h]
  rfl

/-- The names of the rovers that are spawned. -/
theorem Simulation.roverNsList_eq (py : Builtins Ω) {data : SwarmYaml Ω}
    {params : Dict String (Value Ω)} (h : fleetParams data = some params) (n : ℤ) :
    roverNsList py data (toString n) =
      (py.int (settingOr params "first_index" Swarm.defaultFirst)).map fun first =>
        numbered (py.str (settingOr params "namespace_prefix" Swarm.defaultPrefix)) first
          (max 1 (min 10 n)) := by
  have hget : ∀ key, (fleetDefaults.update (params.filter fun v => !v.isNone)).get? key =
      ((params.get? key).filter fun v => !v.isNone).or (fleetDefaults.get? key) := fun key => by
    rw [Dict.get?_update, Dict.get?_filter]
  have hprefix : (fleetDefaults.update (params.filter fun v => !v.isNone)).get? "namespace_prefix" =
      some (settingOr params "namespace_prefix" Swarm.defaultPrefix) := by
    rw [hget, settingOr]
    cases (params.get? "namespace_prefix").filter fun v => !v.isNone <;> rfl
  have hfirst : (fleetDefaults.update (params.filter fun v => !v.isNone)).get? "first_index" =
      some (settingOr params "first_index" Swarm.defaultFirst) := by
    rw [hget, settingOr]
    cases (params.get? "first_index").filter fun v => !v.isNone <;> rfl
  have hload : loadFleetConfig data =
      some (fleetDefaults.update (params.filter fun v => !v.isNone)) := by
    rw [loadFleetConfig, h]
    rfl
  unfold roverNsList
  rw [hload]
  simp only [Option.bind_eq_bind, Option.bind_some, if_pos (toString_ne_empty n),
    py.intStr_toString, hprefix, hfirst, Option.map_some]
  cases py.int (settingOr params "first_index" Swarm.defaultFirst) <;> rfl

/-- Both files begin in the same way, so that what one of them accepts as a block the other does. -/
theorem Simulation.exists_fleetParams {py : Builtins Ω} {data : SwarmYaml Ω} {numArg : String}
    {names : List String} (h : roverNsList py data numArg = some names) :
    ∃ params, fleetParams data = some params := by
  unfold roverNsList at h
  obtain ⟨fleet, hfleet, _⟩ := Option.bind_eq_some_iff.mp h
  unfold loadFleetConfig at hfleet
  obtain ⟨params, hparams, _⟩ := Option.bind_eq_some_iff.mp hfleet
  exact ⟨params, hparams⟩

namespace Swarm

/-- Everything that is started for a rover is started for these rovers and no others, in order. -/
def Launched.Serves (out : Launched) (names : List String) : Prop :=
  out.cslam.map CslamStack.roverNamespace = names ∧
    ∀ nav2, out.nav2 = some nav2 → nav2.tfRelay = names ∧ nav2.navStacks = names ∧
      nav2.initialposeRelays = names.map initialposeRelay ∧
      nav2.goalposeRelays = names.map goalposeRelay ∧
      nav2.lifecycleQueries = names.map lifecycleQuery

/-- What `rover_swarm.launch.py` launches serves the names it makes of the settings. -/
theorem launchSetup_serves_iff (py : Builtins Ω) {data : SwarmYaml Ω}
    {params : Dict String (Value Ω)} (h : fleetParams data = some params) (maxNbRobots : ℤ)
    (nav2 : String) (names : List String) :
    (∃ out, launchSetup py data maxNbRobots nav2 = some out ∧ out.Serves names) ↔
      ∃ first, py.int ((params.get? "first_index").getD defaultFirst) = some first ∧
        numbered (py.str ((params.get? "namespace_prefix").getD defaultPrefix)) first
          (max 1 maxNbRobots) = names := by
  unfold launchSetup roverFleet
  rw [h]
  simp only [Option.bind_eq_bind, Option.bind_some]
  cases py.int ((params.get? "first_index").getD defaultFirst) with
  | none => simp
  | some first =>
    simp only [Option.bind_some, Option.some.injEq, exists_eq_left']
    have hcslam : (List.range (max 1 maxNbRobots).toNat).map (fun i : ℕ =>
        py.str ((params.get? "namespace_prefix").getD defaultPrefix) ++ toString (first + (i : ℤ))) =
          numbered (py.str ((params.get? "namespace_prefix").getD defaultPrefix)) first
            (max 1 maxNbRobots) := rfl
    unfold Launched.Serves
    rw [List.map_map]
    refine (and_iff_left_of_imp ?_).trans (iff_of_eq (congrArg (· = names) hcslam))
    rintro rfl nav hnav
    split_ifs at hnav
    obtain rfl := Option.some.inj hnav
    exact ⟨rfl, rfl, rfl, rfl, rfl⟩

end Swarm

/-- Neither the prefix nor the first index stands in the file without a value. -/
def SpelledOut (data : SwarmYaml Ω) : Prop :=
  ∀ params, fleetParams data = some params →
    params.get? "namespace_prefix" ≠ some .null ∧ params.get? "first_index" ≠ some .null

/-- Where the simulation accepts the settings, the swarm launch file serves the rovers that the
simulation spawns exactly if there are at most ten and both settings are absent or have a value. -/
theorem serves_spawned_iff (py : Builtins Ω) (data : SwarmYaml Ω) (maxNbRobots : ℤ)
    (nav2 : String) (names : List String)
    (hsim : Simulation.roverNsList py data (toString (max 1 maxNbRobots)) = some names) :
    (∃ out, Swarm.launchSetup py data maxNbRobots nav2 = some out ∧ out.Serves names) ↔
      maxNbRobots ≤ 10 ∧ SpelledOut data := by
  obtain ⟨params, hparams⟩ := Simulation.exists_fleetParams hsim
  have hspelled : SpelledOut data ↔
      params.get? "namespace_prefix" ≠ some .null ∧ params.get? "first_index" ≠ some .null := by
    refine ⟨fun h => h params hparams, fun h params' hparams' => ?_⟩
    obtain rfl := Option.some.inj (hparams.symm.trans hparams')
    exact h
  rw [Simulation.roverNsList_eq py hparams] at hsim
  obtain ⟨first, hfirst, rfl⟩ := Option.map_eq_some_iff.mp hsim
  rw [Swarm.launchSetup_serves_iff py hparams, hspelled]
  constructor
  · rintro ⟨first', hfirst', heq⟩
    refine ⟨?_, ?_, ?_⟩
    · have hlength := congrArg List.length heq
      rw [length_numbered, length_numbered] at hlength
      omega
    · intro hnull
      rw [hnull, settingOr_of_null hnull] at heq
      refine numbered_ne (fun s t h => ?_) (le_max_left 1 maxNbRobots) _ _ _ heq
      have hhead := congrArg (fun u : String => u.toList.head?) h
      exact absurd hhead (by simp [Builtins.str, Swarm.defaultPrefix])
    · intro hnull
      rw [hnull] at hfirst'
      exact Option.some_ne_none _ hfirst'.symm
  · rintro ⟨hle, hprefix, hindex⟩
    rw [settingOr_eq hindex] at hfirst
    rw [settingOr_eq hprefix]
    refine ⟨first, hfirst, ?_⟩
    have hclamp : max 1 (min 10 (max 1 maxNbRobots)) = max 1 maxNbRobots := by omega
    rw [hclamp]

/-- The conversions where there are only texts and integers. -/
def plain : Builtins Empty :=
  -- that a number is read back is a lemma of `Std`, which comes with Mathlib as a whole only
  ⟨String.toInt?, Empty.elim, Empty.elim, Int.toInt?_repr⟩

/-- A file with these settings in the block `fleet`. -/
def fileWith (params : Dict String (Value Empty)) : SwarmYaml Empty :=
  .map ⟨[("fleet", .map ⟨[("ros__parameters", .map params)], List.nodup_singleton _⟩)],
    List.nodup_singleton _⟩

/-- A file with one setting. -/
def fileWithOne (key : String) (v : Value Empty) : SwarmYaml Empty :=
  fileWith ⟨[(key, v)], List.nodup_singleton _⟩

/-- Two rovers whose first index is 5, and no prefix. -/
theorem serves_spawned_iff_two :
    Simulation.roverNsList plain (fileWithOne "first_index" (.int 5)) (toString (max 1 2 : ℤ)) =
      some ["rover_5", "rover_6"] ∧
    ∃ out, Swarm.launchSetup plain (fileWithOne "first_index" (.int 5)) 2 "true" = some out ∧
      out.Serves ["rover_5", "rover_6"] := by
  have hsim : Simulation.roverNsList plain (fileWithOne "first_index" (.int 5))
      (toString (max 1 2 : ℤ)) = some ["rover_5", "rover_6"] := by
    rw [Simulation.roverNsList_eq plain rfl]
    decide
  refine ⟨hsim, (serves_spawned_iff plain _ 2 "true" _ hsim).mpr ⟨by decide, ?_⟩⟩
  rintro params hparams
  obtain rfl := Option.some.inj hparams
  decide

/-- A prefix without a value becomes `None`, a first index without a value raises, and an eleventh
rover is served but not spawned. -/
theorem not_serves_spawned :
    (Simulation.roverNsList plain (fileWithOne "namespace_prefix" .null) (toString (max 1 2 : ℤ)) =
        some ["rover_0", "rover_1"] ∧
      ¬ ∃ out, Swarm.launchSetup plain (fileWithOne "namespace_prefix" .null) 2 "true" = some out ∧
        out.Serves ["rover_0", "rover_1"]) ∧
    (Simulation.roverNsList plain (fileWithOne "first_index" .null) (toString (max 1 2 : ℤ)) =
        some ["rover_0", "rover_1"] ∧
      Swarm.launchSetup plain (fileWithOne "first_index" .null) 2 "true" = none) ∧
    ∃ names, Simulation.roverNsList plain .null (toString (max 1 11 : ℤ)) = some names ∧
      ¬ ∃ out, Swarm.launchSetup plain .null 11 "true" = some out ∧ out.Serves names := by
  refine ⟨⟨?_, ?_⟩, ⟨?_, rfl⟩, numbered "rover_" 0 10, ?_, ?_⟩
  · rw [Simulation.roverNsList_eq plain rfl]
    decide
  · rw [Swarm.launchSetup_serves_iff plain rfl]
    rintro ⟨first, hfirst, heq⟩
    obtain rfl := Option.some.inj hfirst
    exact absurd heq (by decide)
  · rw [Simulation.roverNsList_eq plain rfl]
    decide
  · rw [Simulation.roverNsList_eq plain rfl]
    decide
  · rw [Swarm.launchSetup_serves_iff plain rfl]
    rintro ⟨first, hfirst, heq⟩
    have hlength := congrArg List.length heq
    rw [length_numbered, length_numbered] at hlength
    exact absurd hlength (by decide)

end RoverSwarm.Fleet
