import Mathlib.Order.WellFounded
import RoverSwarm.Lib.Loop
import RoverSwarm.Lib.Utf8
import RoverSwarm.Lib.Walk

/-!
# Teleop.Restart — looking for the launch process of the session

`find_launch_argv` climbs from the parent of the teleop to the first process whose command line
mentions the launch file.  It takes the fourth field of `/proc/<pid>/stat` for the parent.  The
second field there is the name of the process, unquoted, so white space in a name moves the fields.
-/

namespace RoverSwarm.Teleop

open Utf8

/-! ### The process table -/

def isSpace (b : UInt8) : Bool := b ∈ [9, 10, 11, 12, 13, 32]

/-- What `/proc/<pid>/stat` is made of, up to the parent, and the rest. -/
structure Process where
  name : List UInt8
  state : UInt8
  ppid : ℕ
  rest : List UInt8
  state_not_space : isSpace state = false

/-- The processes by pid: a parent from pid 2 on exists, and the ancestors of a process end. -/
structure ProcessTree where
  process : ℕ → Option Process
  exists_parent : ∀ {pid p}, process pid = some p → 1 < p.ppid → (process p.ppid).isSome
  acyclic : WellFounded fun parent child => ∃ p, process child = some p ∧ p.ppid = parent

def decimal (n : ℕ) : List UInt8 := (Nat.toDigits 10 n).map Char.toUInt8

/-- `/proc/<pid>/stat`. -/
def statFile (pid : ℕ) (p : Process) : List UInt8 :=
  decimal pid ++ 32 :: 40 :: (p.name ++
    41 :: 32 :: p.state :: 32 :: (decimal p.ppid ++ 32 :: p.rest))

/-! ### Reading it -/

def isDigit (b : UInt8) : Bool := 48 ≤ b && b ≤ 57

/-- `bytes.split()`. -/
def split (bytes : List UInt8) : List (List UInt8) :=
  (bytes.splitOnP isSpace).filter fun field => !field.isEmpty

/-- Digits after the first one; an underscore may stand between two of them. -/
def intFrom (acc : ℕ) : List UInt8 → Option ℕ
  | [] => some acc
  | 95 :: b :: bytes => if isDigit b then intFrom (10 * acc + (b.toNat - 48)) bytes else none
  | b :: bytes => if isDigit b then intFrom (10 * acc + (b.toNat - 48)) bytes else none

def natOf : List UInt8 → Option ℕ
  | [] => none
  | b :: bytes => if isDigit b then intFrom (b.toNat - 48) bytes else none

/-- `int` of a field; `none` if it raises `ValueError`. -/
def int : List UInt8 → Option ℤ
  | 43 :: bytes => (natOf bytes).map fun n => (n : ℤ)
  | 45 :: bytes => (natOf bytes).map fun n => -(n : ℤ)
  | bytes => (natOf bytes).map fun n => (n : ℤ)

/-- `int(parts[3])`; `none` if it raises `IndexError` or `ValueError`. -/
def readPpid (pid : ℕ) (p : Process) : Option ℤ := (split (statFile pid p))[3]?.bind int

/-- The arguments of a command line. -/
def argv (cmdline : List UInt8) : List (List UInt8) :=
  (cmdline.splitOnP (· == 0)).filter fun arg => !arg.isEmpty

def launchFile : String := "rover_swarm.launch.py"

/-- `'rover_swarm.launch.py' in a`. -/
def mentions (arg : String) : Bool := launchFile.toList <:+: arg.toList

inductive Outcome where
  | found (args : List String) (pid : ℕ)
  | notFound
  | raised
deriving DecidableEq, Repr

/-- One iteration: the next pid, or the outcome. -/
def climb (tree : ProcessTree) (cmdline : ℕ → List UInt8) (pid : ℕ) : ℤ ⊕ Outcome :=
  match tree.process pid with
  | none => .inr .notFound
  | some p =>
    match (argv (cmdline pid)).mapM decode with
    | none => .inr .raised
    | some args =>
      if args.any mentions then .inr (.found args pid)
      else
        match readPpid pid p with
        | none => .inr .notFound
        | some ppid => .inl ppid

/-- The walk goes on. -/
def climbing : ℤ ⊕ Outcome → Bool
  | .inl pid => 1 < pid
  | .inr _ => false

def climbOn (tree : ProcessTree) (cmdline : ℕ → List UInt8) : ℤ ⊕ Outcome → ℤ ⊕ Outcome
  | .inl pid => climb tree cmdline pid.toNat
  | .inr outcome => .inr outcome

/-- What is returned or raised in the end. -/
def outcomeOf : ℤ ⊕ Outcome → Outcome
  | .inl _ => .notFound
  | .inr outcome => outcome

/-- `find_launch_argv` of a teleop with the parent `pid`; `none` if it does not end within `fuel`
tests of the loop. -/
def findLaunchArgv (tree : ProcessTree) (cmdline : ℕ → List UInt8) (fuel pid : ℕ) :
    Option Outcome :=
  (Loop.run climbing (climbOn tree cmdline) fuel (.inl pid)).map outcomeOf

/-! ### Names without white space -/

theorem isDigit_iff {b : UInt8} : isDigit b = true ↔ 48 ≤ b.toNat ∧ b.toNat ≤ 57 := by
  simp [isDigit, UInt8.le_iff_toNat_le]

theorem isDigit_toUInt8 {c : Char} (h : c.isDigit) :
    isDigit c.toUInt8 = true ∧ c.toUInt8.toNat = c.toNat := by
  have hrange : 48 ≤ c.toNat ∧ c.toNat ≤ 57 := by
    simpa [Char.isDigit, UInt32.le_iff_toNat_le] using h
  have htoNat : c.toUInt8.toNat = c.toNat := by
    show c.toNat % 256 = c.toNat
    omega
  exact ⟨isDigit_iff.mpr (htoNat ▸ hrange), htoNat⟩

theorem not_isSpace_of_isDigit {b : UInt8} (h : isDigit b = true) : isSpace b = false := by
  have hrange := isDigit_iff.mp h
  simp only [isSpace, List.mem_cons, List.not_mem_nil, or_false, decide_eq_false_iff_not,
    ← UInt8.toNat_inj]
  simp
  omega

theorem intFrom_cons {b : UInt8} (h : isDigit b = true) (acc : ℕ) (bytes : List UInt8) :
    intFrom acc (b :: bytes) = intFrom (10 * acc + (b.toNat - 48)) bytes := by
  have hne : b ≠ 95 := by
    rintro rfl
    exact absurd h (by decide)
  rw [intFrom, if_pos h]
  intro _ _ hb _
  exact hne hb

theorem intFrom_map {cs : List Char} (h : ∀ c ∈ cs, c.isDigit) (acc : ℕ) :
    intFrom acc (cs.map Char.toUInt8) = some (Nat.ofDigitChars 10 cs acc) := by
  induction cs generalizing acc with
  | nil => rfl
  | cons c cs ih =>
    obtain ⟨hdigit, htoNat⟩ := isDigit_toUInt8 (h c List.mem_cons_self)
    rw [List.map_cons, intFrom_cons hdigit, ih fun d hd => h d (List.mem_cons_of_mem c hd),
      Nat.ofDigitChars_cons, htoNat]
    rfl

theorem isDigit_of_mem_decimal {n : ℕ} {b : UInt8} (h : b ∈ decimal n) : isDigit b = true := by
  obtain ⟨c, hc, rfl⟩ := List.mem_map.mp h
  exact (isDigit_toUInt8 (Nat.isDigit_of_mem_toDigits (by omega) le_rfl hc)).1

theorem decimal_ne_nil (n : ℕ) : decimal n ≠ [] := by
  simp [decimal]

theorem natOf_decimal (n : ℕ) : natOf (decimal n) = some n := by
  have hdigits : ∀ c ∈ Nat.toDigits 10 n, c.isDigit :=
    fun c hc => Nat.isDigit_of_mem_toDigits (by omega) le_rfl hc
  have hvalue : Nat.ofDigitChars 10 (Nat.toDigits 10 n) 0 = n := Nat.ofDigitChars_ten_toDigits
  unfold decimal
  revert hdigits hvalue
  cases hchars : Nat.toDigits 10 n with
  | nil => exact absurd hchars Nat.toDigits_ne_nil
  | cons c cs =>
    intro hdigits hvalue
    obtain ⟨hdigit, htoNat⟩ := isDigit_toUInt8 (hdigits c List.mem_cons_self)
    rw [List.map_cons, natOf, if_pos hdigit,
      intFrom_map fun d hd => hdigits d (List.mem_cons_of_mem c hd), htoNat]
    rw [Nat.ofDigitChars_cons, Nat.mul_zero, Nat.zero_add] at hvalue
    exact congrArg some hvalue

/-- A number is read back. -/
theorem int_decimal (n : ℕ) : int (decimal n) = some (n : ℤ) := by
  obtain ⟨b, bytes, hbytes⟩ := List.exists_cons_of_ne_nil (decimal_ne_nil n)
  have hdigit : isDigit b = true := isDigit_of_mem_decimal (hbytes ▸ List.mem_cons_self)
  have hnat := natOf_decimal n
  rw [hbytes] at hnat ⊢
  unfold int
  split
  · rename_i heq
    obtain rfl : b = 43 := (List.cons.inj heq).1
    exact absurd hdigit (by decide)
  · rename_i heq
    obtain rfl : b = 45 := (List.cons.inj heq).1
    exact absurd hdigit (by decide)
  · rw [hnat]
    rfl

theorem split_append_cons (xs ys : List UInt8) {sep : UInt8} (h : isSpace sep = true) :
    split (xs ++ sep :: ys) = split xs ++ split ys := by
  unfold split
  rw [List.splitOnP_append_cons xs ys h, List.filter_append]

theorem split_field {field : List UInt8} (hne : field ≠ [])
    (h : ∀ b ∈ field, isSpace b = false) : split field = [field] := by
  unfold split
  rw [List.splitOnP_eq_singleton h]
  simp [hne]

/-- Without white space in the name, the fourth field is the parent. -/
theorem readPpid_eq {p : Process} (h : ∀ b ∈ p.name, isSpace b = false) (pid : ℕ) :
    readPpid pid p = some (p.ppid : ℤ) := by
  have hfile : statFile pid p = decimal pid ++ 32 :: ((40 :: p.name ++ [41]) ++
      32 :: ([p.state] ++ 32 :: (decimal p.ppid ++ 32 :: p.rest))) := by
    simp [statFile]
  have hname : split (40 :: p.name ++ [41]) = [40 :: p.name ++ [41]] := by
    refine split_field (by simp) fun b hb => ?_
    rcases List.mem_append.mp hb with hb | hb
    · rcases List.mem_cons.mp hb with rfl | hb
      · rfl
      · exact h b hb
    · obtain rfl := List.mem_singleton.mp hb
      rfl
  have hdecimal : ∀ n, split (decimal n) = [decimal n] := fun n =>
    split_field (decimal_ne_nil n) fun b hb => not_isSpace_of_isDigit (isDigit_of_mem_decimal hb)
  have hstate : split [p.state] = [[p.state]] := by
    refine split_field (List.cons_ne_nil _ _) fun b hb => ?_
    obtain rfl := List.mem_singleton.mp hb
    exact p.state_not_space
  generalize 40 :: p.name ++ [41] = field at hfile hname
  unfold readPpid
  rw [hfile, split_append_cons _ _ rfl, split_append_cons _ _ rfl, split_append_cons _ _ rfl,
    split_append_cons _ _ rfl, hdecimal, hname, hstate, hdecimal]
  exact int_decimal p.ppid

/-! ### The launch process -/

section Tree

variable (tree : ProcessTree) (cmdline : ℕ → List UInt8)

namespace ProcessTree

/-- The parent; zero for what is not a process. -/
def parentOf (pid : ℕ) : ℕ := ((tree.process pid).map Process.ppid).getD 0

end ProcessTree

/-- The command line mentions the launch file. -/
def Launches (pid : ℕ) : Prop :=
  ∃ arg ∈ argv (cmdline pid), encode launchFile.toList <:+: arg

/-- The first process from `pid` upwards that mentions the launch file, if there is one before
pid 1. -/
inductive Nearest : ℕ → Option ℕ → Prop
  | root {pid : ℕ} : pid ≤ 1 → Nearest pid none
  | here {pid : ℕ} : 1 < pid → Launches cmdline pid → Nearest pid (some pid)
  | above {pid : ℕ} {r : Option ℕ} : 1 < pid → ¬ Launches cmdline pid →
      Nearest (tree.parentOf pid) r → Nearest pid r

/-- The arguments and the pid of the process, or nothing. -/
def Answers : Option ℕ → Outcome → Prop
  | none, o => o = .notFound
  | some pid, o => ∃ args : List String, o = .found args pid ∧
      args.map (fun arg => encode arg.toList) = argv (cmdline pid)

/-- The walk ends, with the launch process of the session. -/
def FindsLaunch (pid : ℕ) : Prop :=
  ∃ fuel o, findLaunchArgv tree cmdline fuel pid = some o ∧
    ∃ r, Nearest tree cmdline pid r ∧ Answers cmdline r o

/-- The command line is text. -/
def IsText (pid : ℕ) : Prop := ∀ arg ∈ argv (cmdline pid), (decode arg).isSome

/-- What is read for the parent is no process. -/
def LeadsNowhere (pid : ℕ) (p : Process) : Prop :=
  ∀ r, readPpid pid p = some r → 1 < r → tree.process r.toNat = none

/-- What is read for the parent is another process. -/
def LeadsElsewhere (pid : ℕ) (p : Process) : Prop :=
  ∃ r, readPpid pid p = some r ∧ r ≠ p.ppid ∧ 1 < r ∧ (tree.process r.toNat).isSome

/-- The way up to the launch process is text, and every parent on it is read right; or there is no
launch process, and this is so up to a process whose parent is read as no process. -/
inductive LedUp : ℕ → Prop
  | root {pid : ℕ} : pid ≤ 1 → LedUp pid
  | here {pid : ℕ} : 1 < pid → IsText cmdline pid → Launches cmdline pid → LedUp pid
  | above {pid : ℕ} {p : Process} : 1 < pid → IsText cmdline pid → ¬ Launches cmdline pid →
      tree.process pid = some p → readPpid pid p = some (p.ppid : ℤ) → LedUp p.ppid → LedUp pid
  | lost {pid : ℕ} {p : Process} : 1 < pid → IsText cmdline pid → ¬ Launches cmdline pid →
      tree.process pid = some p → LeadsNowhere tree pid p → Nearest tree cmdline pid none →
      LedUp pid

/-- The first parent on the way up that is read wrong is read as another process. -/
inductive LedAstray : ℕ → Prop
  | here {pid : ℕ} {p : Process} : 1 < pid → ¬ Launches cmdline pid →
      tree.process pid = some p → LeadsElsewhere tree pid p → LedAstray pid
  | above {pid : ℕ} {p : Process} : 1 < pid → ¬ Launches cmdline pid →
      tree.process pid = some p → readPpid pid p = some (p.ppid : ℤ) → LedAstray p.ppid →
      LedAstray pid

end Tree

/-! ### One iteration -/

/-- The arguments are decoded one by one. -/
theorem mapM_decode_of_isSome {bytes : List (List UInt8)}
    (h : ∀ arg ∈ bytes, (decode arg).isSome) :
    ∃ args : List String, bytes.mapM decode = some args ∧
      args.map (fun arg => encode arg.toList) = bytes := by
  induction bytes with
  | nil => exact ⟨[], rfl, rfl⟩
  | cons b bytes ih =>
    obtain ⟨arg, harg⟩ := Option.isSome_iff_exists.mp (h b List.mem_cons_self)
    obtain ⟨args, hargs, hbytes⟩ := ih fun b' hb' => h b' (List.mem_cons_of_mem b hb')
    refine ⟨arg :: args, ?_, ?_⟩
    · rw [List.mapM_cons, harg, hargs]
      rfl
    · rw [List.map_cons, hbytes, decode_eq_some_iff.mp harg]

theorem mapM_decode_eq_none {bytes : List (List UInt8)}
    (h : ¬ ∀ arg ∈ bytes, (decode arg).isSome) : bytes.mapM decode = none := by
  by_contra hne
  obtain ⟨args, hargs⟩ := Option.ne_none_iff_exists'.mp hne
  refine h fun arg harg => ?_
  obtain ⟨_, _, hsome⟩ := Walk.exists_mem_of_mapM hargs harg
  rw [hsome]
  rfl

theorem mentions_iff {arg : String} :
    mentions arg = true ↔ encode launchFile.toList <:+: encode arg.toList := by
  have hne : launchFile.toList ≠ [] := by decide
  unfold mentions
  rw [decide_eq_true_iff, infix_encode_iff hne]

section Climb

variable {tree : ProcessTree} {cmdline : ℕ → List UInt8} {pid : ℕ} {p : Process}

theorem any_mentions_iff {args : List String}
    (h : args.map (fun arg => encode arg.toList) = argv (cmdline pid)) :
    args.any mentions = true ↔ Launches cmdline pid := by
  unfold Launches
  rw [← h, List.any_eq_true]
  simp only [mentions_iff, List.mem_map, exists_exists_and_eq_and]

/-- A command line that is not text. -/
theorem climb_raised (hp : tree.process pid = some p)
    (h : ¬ IsText cmdline pid) :
    climb tree cmdline pid = .inr .raised := by
  rw [climb, hp]
  simp only [mapM_decode_eq_none h]

theorem climb_found (hp : tree.process pid = some p)
    (htext : IsText cmdline pid) (h : Launches cmdline pid) :
    ∃ args : List String, climb tree cmdline pid = .inr (.found args pid) ∧
      args.map (fun arg => encode arg.toList) = argv (cmdline pid) := by
  obtain ⟨args, hargs, hbytes⟩ := mapM_decode_of_isSome htext
  refine ⟨args, ?_, hbytes⟩
  rw [climb, hp]
  simp only [hargs]
  rw [if_pos ((any_mentions_iff hbytes).mpr h)]

/-- A process that is not the launch process. -/
theorem climb_parent (hp : tree.process pid = some p)
    (htext : IsText cmdline pid) (h : ¬ Launches cmdline pid) :
    climb tree cmdline pid = match readPpid pid p with
      | none => .inr .notFound
      | some ppid => .inl ppid := by
  obtain ⟨args, hargs, hbytes⟩ := mapM_decode_of_isSome htext
  rw [climb, hp]
  simp only [hargs]
  rw [if_neg fun hany => h ((any_mentions_iff hbytes).mp hany)]

/-- The walk ends with the outcome `o`. -/
def Ends (tree : ProcessTree) (cmdline : ℕ → List UInt8) (s : ℤ ⊕ Outcome) (o : Outcome) : Prop :=
  ∃ fuel, (Loop.run climbing (climbOn tree cmdline) fuel s).map outcomeOf = some o

theorem ends_outcome {o o' : Outcome} : Ends tree cmdline (.inr o) o' ↔ o' = o :=
  Loop.exists_map_run_of_stop outcomeOf rfl

theorem ends_root {r : ℤ} (h : ¬ 1 < r) {o : Outcome} :
    Ends tree cmdline (.inl r) o ↔ o = .notFound :=
  Loop.exists_map_run_of_stop outcomeOf (decide_eq_false h)

theorem ends_climb {r : ℤ} (h : 1 < r) {o : Outcome} :
    Ends tree cmdline (.inl r) o ↔ Ends tree cmdline (climb tree cmdline r.toNat) o :=
  Loop.exists_map_run_of_pass outcomeOf (decide_eq_true h)

/-- What is read does not lead to a process, and the walk ends there. -/
theorem ends_of_not_process {r : ℤ} (h : 1 < r → tree.process r.toNat = none) {o : Outcome} :
    Ends tree cmdline (.inl r) o ↔ o = .notFound := by
  by_cases hr : 1 < r
  · rw [ends_climb hr, climb, h hr]
    exact ends_outcome
  · exact ends_root hr

theorem parentOf_eq (hp : tree.process pid = some p) : tree.parentOf pid = p.ppid := by
  rw [ProcessTree.parentOf, hp]
  rfl

/-! ### Where the walk ends -/

theorem findsLaunch_iff : FindsLaunch tree cmdline pid ↔
    ∃ o, Ends tree cmdline (.inl (pid : ℤ)) o ∧
      ∃ r, Nearest tree cmdline pid r ∧ Answers cmdline r o :=
  ⟨fun ⟨fuel, o, hrun, hanswers⟩ => ⟨o, ⟨fuel, hrun⟩, hanswers⟩,
    fun ⟨o, ⟨fuel, hrun⟩, hanswers⟩ => ⟨fuel, o, hrun, hanswers⟩⟩

/-- The walk goes on where the parent is read right. -/
theorem ends_parent (h : 1 < pid) (htext : IsText cmdline pid) (hl : ¬ Launches cmdline pid)
    (hp : tree.process pid = some p) (hread : readPpid pid p = some (p.ppid : ℤ)) {o : Outcome} :
    Ends tree cmdline (.inl (pid : ℤ)) o ↔ Ends tree cmdline (.inl (p.ppid : ℤ)) o := by
  rw [ends_climb (by omega), Int.toNat_natCast, climb_parent hp htext hl, hread]

/-- Nothing is found where the parent is read as no process. -/
theorem ends_lost (h : 1 < pid) (htext : IsText cmdline pid) (hl : ¬ Launches cmdline pid)
    (hp : tree.process pid = some p) (hlost : LeadsNowhere tree pid p) {o : Outcome} :
    Ends tree cmdline (.inl (pid : ℤ)) o ↔ o = .notFound := by
  rw [ends_climb (by omega), Int.toNat_natCast, climb_parent hp htext hl]
  cases hread : readPpid pid p with
  | none => exact ends_outcome
  | some r => exact ends_of_not_process (hlost r hread)

theorem nearest_above (h : 1 < pid) (hl : ¬ Launches cmdline pid)
    (hp : tree.process pid = some p) {r : Option ℕ} :
    Nearest tree cmdline pid r ↔ Nearest tree cmdline p.ppid r := by
  rw [← parentOf_eq hp]
  constructor
  · intro hr
    cases hr with
    | root hroot => omega
    | here _ hlaunch => exact absurd hlaunch hl
    | above _ _ hr => exact hr
  · exact .above h hl

theorem findsLaunch_parent (h : 1 < pid) (htext : IsText cmdline pid)
    (hl : ¬ Launches cmdline pid) (hp : tree.process pid = some p)
    (hread : readPpid pid p = some (p.ppid : ℤ)) :
    FindsLaunch tree cmdline pid ↔ FindsLaunch tree cmdline p.ppid := by
  rw [findsLaunch_iff, findsLaunch_iff]
  simp only [ends_parent h htext hl hp hread, nearest_above h hl hp]

/-- **The walk that is led up** ends with the launch process. -/
theorem LedUp.findsLaunch (hexists : 1 < pid → (tree.process pid).isSome)
    (h : LedUp tree cmdline pid) : FindsLaunch tree cmdline pid := by
  induction h with
  | root hroot =>
    exact findsLaunch_iff.mpr ⟨.notFound, (ends_root (by omega)).mpr rfl, none, .root hroot, rfl⟩
  | @here pid hpid htext hl =>
    obtain ⟨p, hp⟩ := Option.isSome_iff_exists.mp (hexists hpid)
    obtain ⟨args, hfound, hargs⟩ := climb_found hp htext hl
    refine findsLaunch_iff.mpr ⟨.found args pid, ?_, some pid, .here hpid hl, args, rfl, hargs⟩
    rw [ends_climb (by omega), Int.toNat_natCast, hfound]
    exact ends_outcome.mpr rfl
  | above hpid htext hl hp hread _ ih =>
    exact (findsLaunch_parent hpid htext hl hp hread).mpr (ih (tree.exists_parent hp))
  | lost hpid htext hl hp hlost hnone =>
    exact findsLaunch_iff.mpr
      ⟨.notFound, (ends_lost hpid htext hl hp hlost).mpr rfl, none, hnone, rfl⟩

/-- A command line that is not text is answered by nothing. -/
theorem isText_of_findsLaunch (h : 1 < pid) (hp : tree.process pid = some p)
    (hfinds : FindsLaunch tree cmdline pid) : IsText cmdline pid := by
  by_contra htext
  obtain ⟨o, ho, r, -, hanswers⟩ := findsLaunch_iff.mp hfinds
  rw [ends_climb (by omega), Int.toNat_natCast, climb_raised hp htext, ends_outcome] at ho
  subst ho
  cases r with
  | none => exact absurd hanswers (by simp [Answers])
  | some launch =>
    obtain ⟨args, hargs, -⟩ := hanswers
    exact absurd hargs (by simp)

/-- **The walk that finds the launch process** has been led up, if it has not been led astray. -/
theorem ledUp_of_findsLaunch (hexists : 1 < pid → (tree.process pid).isSome)
    (hastray : ¬ LedAstray tree cmdline pid) (h : FindsLaunch tree cmdline pid) :
    LedUp tree cmdline pid := by
  induction pid using tree.acyclic.induction with
  | _ pid ih =>
    by_cases hpid : 1 < pid
    swap
    · exact .root (by omega)
    obtain ⟨p, hp⟩ := Option.isSome_iff_exists.mp (hexists hpid)
    have htext := isText_of_findsLaunch hpid hp h
    by_cases hl : Launches cmdline pid
    · exact .here hpid htext hl
    by_cases hread : readPpid pid p = some (p.ppid : ℤ)
    · exact .above hpid htext hl hp hread (ih p.ppid ⟨p, hp, rfl⟩ (tree.exists_parent hp)
        (fun habove => hastray (.above hpid hl hp hread habove))
        ((findsLaunch_parent hpid htext hl hp hread).mp h))
    · -- what is read is no process, so nothing is found
      have hlost : LeadsNowhere tree pid p := by
        intro r hr hpos
        by_contra hprocess
        refine hastray (.here hpid hl hp ⟨r, hr, ?_, hpos, Option.isSome_iff_ne_none.mpr hprocess⟩)
        rintro rfl
        exact hread hr
      obtain ⟨o, ho, r, hr, hanswers⟩ := findsLaunch_iff.mp h
      obtain rfl := (ends_lost hpid htext hl hp hlost).mp ho
      cases r with
      | none => exact .lost hpid htext hl hp hlost hr
      | some launch =>
        obtain ⟨args, hargs, -⟩ := hanswers
        exact absurd hargs (by simp)

theorem Nearest.unique {r r' : Option ℕ} (h : Nearest tree cmdline pid r)
    (h' : Nearest tree cmdline pid r') : r = r' := by
  induction h with
  | root hroot =>
    cases h' with
    | root => rfl
    | here hpid => omega
    | above hpid => omega
  | here hpid hl =>
    cases h' with
    | root => omega
    | here => rfl
    | above _ hno => exact absurd hl hno
  | above hpid hno _ ih =>
    cases h' with
    | root => omega
    | here _ hl => exact absurd hl hno
    | above _ _ h' => exact ih h'

end Climb

/-! ### When the launch process is found -/

/-- **When the launch process is found**: the walk finds the launch process if every command line on
the way is text and every parent on it is read right, or if there is none and what is read leads to
no process; and only then, unless it is led to another process, from where it may come to the launch
process by accident. -/
theorem findsLaunch_iff_ledUp (tree : ProcessTree) (cmdline : ℕ → List UInt8) (pid : ℕ)
    (hexists : 1 < pid → (tree.process pid).isSome) :
    (LedUp tree cmdline pid → FindsLaunch tree cmdline pid) ∧
      (¬ LedAstray tree cmdline pid →
        (FindsLaunch tree cmdline pid ↔ LedUp tree cmdline pid)) :=
  ⟨LedUp.findsLaunch hexists,
    fun hastray => ⟨ledUp_of_findsLaunch hexists hastray, LedUp.findsLaunch hexists⟩⟩

/-! ### Two sessions -/

/-- The command lines of a system where only the processes of `pids` mention the launch file. -/
def launchAt (pids : List ℕ) (pid : ℕ) : List UInt8 :=
  if pid ∈ pids then encode launchFile.toList else []

theorem argv_launchAt (pids : List ℕ) (pid : ℕ) :
    argv (launchAt pids pid) = if pid ∈ pids then [encode launchFile.toList] else [] := by
  unfold launchAt
  split_ifs
  · decide +kernel
  · rfl

theorem launches_launchAt {pids : List ℕ} {pid : ℕ} :
    Launches (launchAt pids) pid ↔ pid ∈ pids := by
  unfold Launches
  rw [argv_launchAt]
  split_ifs with h
  · simp [h]
  · simp [h]

theorem isText_launchAt (pids : List ℕ) (pid : ℕ) : IsText (launchAt pids) pid := by
  intro arg harg
  rw [argv_launchAt] at harg
  split_ifs at harg
  · obtain rfl := List.mem_singleton.mp harg
    rw [decode_encode]
    rfl
  · exact absurd harg List.not_mem_nil

/-- The launch process 10, started from `tmux`, and its child 20, the parent of the teleop. -/
def session (name : String) : ProcessTree where
  process pid :=
    if pid = 20 then some ⟨encode name.toList, 83, 10, [], rfl⟩
    else if pid = 10 then some ⟨encode "ros2".toList, 83, 5, [], rfl⟩
    else if pid = 5 then some ⟨encode "tmux: server".toList, 83, 1, [], rfl⟩
    else none
  exists_parent {pid p} hp hpos := by
    split_ifs at hp with h20 h10 h5
    · obtain rfl := Option.some.inj hp
      rfl
    · obtain rfl := Option.some.inj hp
      rfl
    · obtain rfl := Option.some.inj hp
      exact absurd hpos (by decide)
  acyclic := by
    refine Subrelation.wf (r := (· < ·)) ?_ Nat.lt_wfRel.wf
    rintro parent child ⟨p, hp, rfl⟩
    split_ifs at hp with h20 h10 h5
    · obtain rfl := Option.some.inj hp
      show 10 < child
      omega
    · obtain rfl := Option.some.inj hp
      show 5 < child
      omega
    · obtain rfl := Option.some.inj hp
      show 1 < child
      omega

/-- A parent that is called `bash`: the name of what is above the launch process does not matter. -/
theorem findsLaunch_bash : FindsLaunch (session "bash") (launchAt [10]) 20 := by
  have hlaunch : LedUp (session "bash") (launchAt [10]) 10 :=
    .here (by decide) (isText_launchAt [10] 10) (launches_launchAt.mpr List.mem_cons_self)
  have hbash : LedUp (session "bash") (launchAt [10]) 20 :=
    .above (by decide) (isText_launchAt [10] 20)
      (fun hl => absurd (launches_launchAt.mp hl) (by simp)) rfl (readPpid_eq (by decide +kernel) 20)
      hlaunch
  exact (findsLaunch_iff_ledUp (session "bash") (launchAt [10]) 20 fun _ => rfl).1 hbash

/-- A parent that is called `tmux: server`: the fourth field is its state. -/
theorem not_findsLaunch :
    ¬ ∀ (tree : ProcessTree) (cmdline : ℕ → List UInt8) (pid : ℕ),
      (1 < pid → (tree.process pid).isSome) → FindsLaunch tree cmdline pid := by
  intro h
  obtain ⟨o, ho, r, hr, hanswers⟩ :=
    findsLaunch_iff.mp (h (session "tmux: server") (launchAt [10]) 20 fun _ => rfl)
  have hsilent : ¬ Launches (launchAt [10]) 20 :=
    fun hl => absurd (launches_launchAt.mp hl) (by simp)
  have hnearest : Nearest (session "tmux: server") (launchAt [10]) 20 (some 10) :=
    .above (by omega) hsilent (.here (by decide) (launches_launchAt.mpr List.mem_cons_self))
  obtain rfl := hr.unique hnearest
  obtain ⟨args, rfl, -⟩ := hanswers
  have hread : readPpid 20 ⟨encode "tmux: server".toList, 83, 10, [], rfl⟩ = none := by
    decide +kernel
  have hlost : LeadsNowhere (session "tmux: server") 20
      ⟨encode "tmux: server".toList, 83, 10, [], rfl⟩ := by
    intro r hr
    exact absurd (hread.symm.trans hr) (by simp)
  have hend := (ends_lost (by omega) (isText_launchAt [10] 20) hsilent rfl hlost).mp ho
  exact absurd hend (by simp)

end RoverSwarm.Teleop
