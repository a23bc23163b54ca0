import RoverSwarm.Lib.Fields
import RoverSwarm.Lib.Loop

/-!
# Rendezvous — the schedule of a simulated rendezvous

The constructor reads the lines of a schedule file: a robot id and times after it, separated by
commas.  Its loop walks over the positions of the commas with `find` and `substr`; where there is
none, `npos + 1` is zero, and the walk starts over.  A number that cannot be read throws, and the
exception ends the reading.
-/

namespace RoverSwarm.Rendezvous

open Fields

/-! ### Strings -/

/-- A position in a string; `none` is `npos`. -/
abbrev Pos := Option ℕ

/-- `pos + 1`, which is zero for `npos`. -/
def next : Pos → ℕ
  | none => 0
  | some pos => pos + 1

/-- `line.find(",", pos)`. -/
def findComma (line : List Char) (pos : Pos) : Pos := pos.bind (find ',' line)

/-- `line.substr(pos, count)`; `none` where it throws. -/
def substr (line : List Char) (pos : ℕ) (count : Pos) : Option (List Char) :=
  if pos > line.length then none
  else some (count.elim (line.drop pos) (line.drop pos).take)

/-- `std::stoull`, in 64 bits: a negative number wraps, a large one throws. -/
def stoull (s : List Char) : Option ℕ :=
  (leadingInt s).bind fun n => if n.natAbs < 2 ^ 64 then some (n % 2 ^ 64).toNat else none

/-- `std::stoul`: `unsigned long` has 64 bits as well. -/
def stoul (s : List Char) : Option ℕ := stoull s

/-- The lines that `std::getline` returns. -/
def getLines (content : List Char) : List (List Char) :=
  let lines := (split '\n' content).1 :: (split '\n' content).2
  if lines.getLast? = some [] then lines.dropLast else lines

/-! ### The constructor -/

/-- A number of seconds since the epoch, as the clock has it. -/
abbrev Seconds := Fin (2 ^ 63)

/-- The sum of a number of the schedule and the initial time, in `uint64_t`. -/
def addTime (v : ℕ) (initialTime : Seconds) : ℕ := (v + initialTime) % 2 ^ 64

/-- The loop over a line. -/
structure Scan where
  delim0 : Pos
  rendezvousRanges : List (ℕ × ℕ)
  thrown : Bool := false

/-- The number in a part of a line. -/
def number (line : List Char) (pos : ℕ) (count : Pos) : Option ℕ :=
  (substr line pos count).bind stoull

section Constructor

variable (robotId : ℕ) (initialTime : Seconds)

/-- One pass of the loop over a line. -/
def pass (line : List Char) (s : Scan) : Scan :=
  let delim1 := find ',' line (next s.delim0)
  match number line (next s.delim0) delim1 with
  | none => { s with thrown := true }
  | some start =>
    let delim0 := delim1
    let delim1 := findComma line delim0
    match number line (next delim0) delim1 with
    | none => { s with thrown := true }
    | some stop =>
      { s with
        rendezvousRanges := s.rendezvousRanges ++
          [(addTime start initialTime, addTime stop initialTime)]
        delim0 := find ',' line (next delim1) }

/-- The ranges so far, and whether an exception was thrown. -/
structure Reader where
  rendezvousRanges : List (ℕ × ℕ) := []
  thrown : Bool := false
  deriving DecidableEq

/-- Reads a line with at most `fuel` tests of the loop; nothing is read after an exception. -/
def readLine (fuel : ℕ) (r : Reader) (line : List Char) : Option Reader :=
  if r.thrown then some r
  else
    let delim0 := find ',' line 0
    match (substr line 0 delim0).bind stoul with
    | none => some { r with thrown := true }
    | some id =>
      if robotId = id then
        (Loop.run (fun s => !s.thrown && s.delim0.isSome) (pass initialTime line) fuel
          { delim0, rendezvousRanges := r.rendezvousRanges }).map fun s =>
            ⟨s.rendezvousRanges, s.thrown⟩
      else some r

structure SimulatedRendezVous where
  robotId : ℕ
  rendezvousRanges : List (ℕ × ℕ)
  enabled : Bool
  deriving DecidableEq

/-- The constructor; `file` is `none` if the file cannot be opened. -/
def SimulatedRendezVous.new (fuel : ℕ) (file : Option (List Char)) :
    Option SimulatedRendezVous :=
  match file with
  | none => some ⟨robotId, [], false⟩
  | some content =>
    ((getLines content).foldlM (readLine robotId initialTime fuel) {}).map fun r =>
      ⟨robotId, r.rendezvousRanges, !r.thrown⟩

end Constructor

/-- `is_alive` at a time. -/
def SimulatedRendezVous.isAlive (s : SimulatedRendezVous) (currentTime : ℕ) : Bool :=
  if s.enabled then
    s.rendezvousRanges.any fun range => currentTime ≥ range.1 && currentTime ≤ range.2
  else true

/-! ### What the loop does with the fields -/

/-- How the reading ends. -/
inductive Ending
  | done
  | thrown
  | endless
  deriving DecidableEq

/-- The ranges that the loop makes of the fields behind the comma at `c`, and how it ends: an end is
cut to as many characters as stand before its comma, and a last start without an end sends the walk
back to the first comma. -/
def scan (initialTime : Seconds) : ℕ → List (List Char) → List (ℕ × ℕ) × Ending
  | _, [] => ([], .done)
  | _, [s] => ([], if (stoull s).isSome then .endless else .thrown)
  | c, s :: e :: fs =>
    match stoull s, stoull (e.take (c + 1 + s.length)) with
    | some start, some stop =>
      let rest := scan initialTime (c + 1 + s.length + 1 + e.length) fs
      ((addTime start initialTime, addTime stop initialTime) :: rest.1, rest.2)
    | _, _ => ([], .thrown)

/-! ### One pass -/

theorem stoull_append_joined (s : List Char) (fs : List (List Char)) :
    stoull (s ++ joined ',' fs) = stoull s := by
  unfold stoull
  rw [leadingInt_append_joined]

/-- A cut text is read up to the comma or up to the cut. -/
theorem stoull_take_append_joined (s : List Char) (fs : List (List Char)) (n : ℕ) :
    stoull ((s ++ joined ',' fs).take n) = stoull (s.take n) := by
  unfold stoull
  rw [List.take_append]
  cases fs with
  | nil => rw [joined, List.flatMap_nil, List.take_nil, List.append_nil]
  | cons f fs =>
    rw [joined_cons]
    cases n - s.length with
    | zero => rw [List.take_zero, List.append_nil]
    | succ m => rw [List.take_succ_cons, leadingInt_append_cons stops_comma]

theorem number_append (pre t : List Char) (count : Pos) :
    number (pre ++ t) pre.length count = stoull (count.elim t t.take) := by
  unfold number substr
  rw [if_neg (by rw [List.length_append]; omega), List.drop_left]
  rfl

variable {robotId : ℕ} {initialTime : Seconds}

/-- A pass over a start and an end. -/
theorem pass_fields (pre s e : List Char) (fs : List (List Char)) (hs : ',' ∉ s) (he : ',' ∉ e)
    (ranges : List (ℕ × ℕ)) :
    pass initialTime (pre ++ joined ',' (s :: e :: fs)) ⟨some pre.length, ranges, false⟩ =
      match stoull s, stoull (e.take (pre.length + 1 + s.length)) with
      | some start, some stop =>
        ⟨if fs = [] then none else some (pre.length + 1 + s.length + 1 + e.length),
          ranges ++ [(addTime start initialTime, addTime stop initialTime)], false⟩
      | _, _ => ⟨some pre.length, ranges, true⟩ := by
  have hline : pre ++ joined ',' (s :: e :: fs) =
      (pre ++ [',']) ++ (s ++ joined ',' (e :: fs)) := by
    rw [joined_cons, List.append_assoc]
    rfl
  have hline' : pre ++ joined ',' (s :: e :: fs) =
      (pre ++ [','] ++ s) ++ ',' :: (e ++ joined ',' fs) := by
    rw [hline, joined_cons]
    simp only [List.append_assoc]
  have hline'' : pre ++ joined ',' (s :: e :: fs) =
      (pre ++ [','] ++ s ++ [',']) ++ (e ++ joined ',' fs) := by
    rw [hline']
    simp only [List.append_assoc, List.cons_append, List.nil_append]
  have hlen : (pre ++ [',']).length = pre.length + 1 := by simp
  have hlen' : (pre ++ [','] ++ s).length = pre.length + 1 + s.length := by simp; omega
  have hlen'' : (pre ++ [','] ++ s ++ [',']).length = pre.length + 1 + s.length + 1 := by
    simp; omega
  -- the comma behind the start, found twice, and the one behind the end
  have hfind : find ',' (pre ++ joined ',' (s :: e :: fs)) (pre.length + 1) =
      some (pre.length + 1 + s.length) := by
    rw [hline, ← hlen, find_field _ _ _ hs, if_neg (List.cons_ne_nil _ _)]
  have hfind' : find ',' (pre ++ joined ',' (s :: e :: fs)) (pre.length + 1 + s.length) =
      some (pre.length + 1 + s.length) := by
    rw [hline', ← hlen', find_self]
  have hfind'' : find ',' (pre ++ joined ',' (s :: e :: fs)) (pre.length + 1 + s.length + 1) =
      if fs = [] then none else some (pre.length + 1 + s.length + 1 + e.length) := by
    rw [hline'', ← hlen'', find_field _ _ _ he]
  -- the start is not cut, for its length is below the position of the comma behind it
  have hstart : number (pre ++ joined ',' (s :: e :: fs)) (pre.length + 1)
      (some (pre.length + 1 + s.length)) = stoull s := by
    rw [hline, ← hlen, number_append, Option.elim_some, stoull_take_append_joined,
      List.take_of_length_le (by omega)]
  have hstop : number (pre ++ joined ',' (s :: e :: fs)) (pre.length + 1 + s.length + 1)
      (some (pre.length + 1 + s.length)) = stoull (e.take (pre.length + 1 + s.length)) := by
    rw [hline'', ← hlen'', number_append, Option.elim_some, stoull_take_append_joined]
  unfold pass findComma
  simp only [next, hfind, hfind', hfind'', hstart, hstop, Option.bind_some]
  cases stoull s with
  | none => rfl
  | some start =>
    cases stoull (e.take (pre.length + 1 + s.length)) with
    | none => rfl
    | some stop => rfl

/-- A pair is read, or a number of it throws. -/
theorem pair_cases (s e : List Char) (c : ℕ) :
    (∃ start stop, stoull s = some start ∧ stoull (e.take (c + 1 + s.length)) = some stop) ∨
      (stoull s = none ∨ stoull (e.take (c + 1 + s.length)) = none) := by
  cases hstart : stoull s with
  | none => exact Or.inr (Or.inl rfl)
  | some start =>
    cases hstop : stoull (e.take (c + 1 + s.length)) with
    | none => exact Or.inr (Or.inr rfl)
    | some stop => exact Or.inl ⟨start, stop, rfl, rfl⟩

section Pairs

variable {line pre s e : List Char} {fs : List (List Char)} {start stop : ℕ}

theorem pass_pair (hline : line = pre ++ joined ',' (s :: e :: fs)) (hs : ',' ∉ s) (he : ',' ∉ e)
    (ranges : List (ℕ × ℕ)) (hstart : stoull s = some start)
    (hstop : stoull (e.take (pre.length + 1 + s.length)) = some stop) :
    pass initialTime line ⟨some pre.length, ranges, false⟩ =
      ⟨if fs = [] then none else some (pre.length + 1 + s.length + 1 + e.length),
        ranges ++ [(addTime start initialTime, addTime stop initialTime)], false⟩ := by
  rw [hline, pass_fields pre s e fs hs he, hstart, hstop]

theorem pass_thrown (hline : line = pre ++ joined ',' (s :: e :: fs)) (hs : ',' ∉ s) (he : ',' ∉ e)
    (ranges : List (ℕ × ℕ))
    (h : stoull s = none ∨ stoull (e.take (pre.length + 1 + s.length)) = none) :
    pass initialTime line ⟨some pre.length, ranges, false⟩ = ⟨some pre.length, ranges, true⟩ := by
  rw [hline, pass_fields pre s e fs hs he]
  rcases h with h | h
  · rw [h]
  · rw [h]
    cases stoull s with
    | none => rfl
    | some start => rfl

theorem scan_pair (c : ℕ) (fs : List (List Char)) (hstart : stoull s = some start)
    (hstop : stoull (e.take (c + 1 + s.length)) = some stop) :
    scan initialTime c (s :: e :: fs) =
      ((addTime start initialTime, addTime stop initialTime) ::
        (scan initialTime (c + 1 + s.length + 1 + e.length) fs).1,
        (scan initialTime (c + 1 + s.length + 1 + e.length) fs).2) := by
  rw [scan, hstart, hstop]

theorem scan_thrown (c : ℕ) (fs : List (List Char))
    (h : stoull s = none ∨ stoull (e.take (c + 1 + s.length)) = none) :
    scan initialTime c (s :: e :: fs) = ([], .thrown) := by
  rw [scan]
  rcases h with h | h
  · rw [h]
  · rw [h]
    cases stoull s with
    | none => rfl
    | some start => rfl

/-- The text up to the comma behind a pair. -/
theorem behind_pair (hline : line = pre ++ joined ',' (s :: e :: fs)) :
    (pre ++ ',' :: (s ++ ',' :: e)).length = pre.length + 1 + s.length + 1 + e.length ∧
      line = (pre ++ ',' :: (s ++ ',' :: e)) ++ joined ',' fs := by
  constructor
  · simp only [List.length_append, List.length_cons]
    omega
  · rw [hline, joined_cons, joined_cons]
    simp

end Pairs

/-- A pass over a start without an end: the end is read from the front of the line. -/
theorem pass_single (pre s : List Char) (hs : ',' ∉ s) (ranges : List (ℕ × ℕ)) :
    pass initialTime (pre ++ joined ',' [s]) ⟨some pre.length, ranges, false⟩ =
      match stoull s, stoull (pre ++ joined ',' [s]) with
      | some start, some stop =>
        ⟨find ',' (pre ++ joined ',' [s]) 0,
          ranges ++ [(addTime start initialTime, addTime stop initialTime)], false⟩
      | _, _ => ⟨some pre.length, ranges, true⟩ := by
  have hline : pre ++ joined ',' [s] = (pre ++ [',']) ++ (s ++ joined ',' []) := by
    rw [joined_cons, List.append_assoc]
    rfl
  have hlen : (pre ++ [',']).length = pre.length + 1 := by simp
  have hfind : find ',' (pre ++ joined ',' [s]) (pre.length + 1) = none := by
    rw [hline, ← hlen, find_field _ _ _ hs, if_pos rfl]
  have hstart : number (pre ++ joined ',' [s]) (pre.length + 1) none = stoull s := by
    rw [hline, ← hlen, number_append, Option.elim_none, stoull_append_joined]
  have hstop : number (pre ++ joined ',' [s]) 0 none = stoull (pre ++ joined ',' [s]) :=
    number_append [] _ none
  unfold pass findComma
  simp only [next, hfind, hstart, hstop, Option.bind_none]
  cases stoull s with
  | none => rfl
  | some start =>
    cases stoull (pre ++ joined ',' [s]) with
    | none => rfl
    | some stop => rfl

/-! ### The loop over a line -/

/-- The loop over a line. -/
def walk (initialTime : Seconds) (line : List Char) (fuel : ℕ) (s : Scan) : Option Scan :=
  Loop.run (fun s => !s.thrown && s.delim0.isSome) (pass initialTime line) fuel s

theorem walk_stop {line : List Char} {s : Scan} (h : s.thrown = true ∨ s.delim0 = none)
    {fuel : ℕ} (hfuel : 0 < fuel) : walk initialTime line fuel s = some s := by
  obtain ⟨fuel, rfl⟩ := Nat.exists_eq_succ_of_ne_zero hfuel.ne'
  unfold walk
  rw [Loop.run, if_neg]
  rcases h with h | h <;> simp [h]

theorem walk_succ {line : List Char} {pos : ℕ} {ranges : List (ℕ × ℕ)} (fuel : ℕ) :
    walk initialTime line (fuel + 1) ⟨some pos, ranges, false⟩ =
      walk initialTime line fuel (pass initialTime line ⟨some pos, ranges, false⟩) := rfl

/-- **The loop ends with what `scan` says**, if it ends. -/
theorem walk_scan {line : List Char} : ∀ (fs : List (List Char)) (pre : List Char)
    (ranges : List (ℕ × ℕ)), line = pre ++ joined ',' fs → (∀ f ∈ fs, ',' ∉ f) →
    (scan initialTime pre.length fs).2 ≠ .endless →
    ∃ fuel r, walk initialTime line fuel ⟨if fs = [] then none else some pre.length, ranges, false⟩ =
        some r ∧ r.rendezvousRanges = ranges ++ (scan initialTime pre.length fs).1 ∧
      r.thrown = decide ((scan initialTime pre.length fs).2 = .thrown)
  | [], pre, ranges, _, _, _ =>
    ⟨1, _, walk_stop (Or.inr rfl) one_pos, (List.append_nil ranges).symm, rfl⟩
  | [s], pre, ranges, hline, hcomma, hend => by
    rw [scan] at hend ⊢
    cases hs : stoull s with
    | some start => exact absurd (by rw [hs]; rfl) hend
    | none =>
      have hpass : pass initialTime line ⟨some pre.length, ranges, false⟩ =
          ⟨some pre.length, ranges, true⟩ := by
        rw [hline, pass_single pre s (hcomma s List.mem_cons_self), hs]
      refine ⟨2, ⟨some pre.length, ranges, true⟩, ?_, (List.append_nil ranges).symm, rfl⟩
      rw [if_neg (List.cons_ne_nil _ _), walk_succ, hpass]
      exact walk_stop (Or.inl rfl) one_pos
  | s :: e :: fs, pre, ranges, hline, hcomma, hend => by
    have hs := hcomma s List.mem_cons_self
    have he := hcomma e (List.mem_cons_of_mem s List.mem_cons_self)
    rw [if_neg (List.cons_ne_nil _ _)]
    rcases pair_cases s e pre.length with ⟨start, stop, hstart, hstop⟩ | hnone
    · rw [scan_pair _ _ hstart hstop] at hend ⊢
      obtain ⟨hpre, hrest⟩ := behind_pair hline
      obtain ⟨fuel, r, hrun, hranges, hthrown⟩ := walk_scan fs _
        (ranges ++ [(addTime start initialTime, addTime stop initialTime)]) hrest
        (fun f hf => hcomma f (List.mem_cons_of_mem s (List.mem_cons_of_mem e hf)))
        (by rw [hpre]; exact hend)
      rw [hpre] at hrun hranges hthrown
      refine ⟨fuel + 1, r, ?_, ?_, hthrown⟩
      · rw [walk_succ, pass_pair hline hs he ranges hstart hstop, hrun]
      · rw [hranges, List.append_assoc]
        rfl
    · rw [scan_thrown _ _ hnone]
      refine ⟨2, ⟨some pre.length, ranges, true⟩, ?_, (List.append_nil ranges).symm, rfl⟩
      rw [walk_succ, pass_thrown hline hs he ranges hnone]
      exact walk_stop (Or.inl rfl) one_pos

theorem ne_nil_of_endless {c : ℕ} {fs : List (List Char)}
    (h : (scan initialTime c fs).2 = .endless) : fs ≠ [] := by
  rintro rfl
  exact absurd h (by rw [scan]; decide)

/-- The walk stands at a comma from which it does not end. -/
structure Lost (initialTime : Seconds) (line : List Char) (st : Scan) : Prop where
  going : st.thrown = false
  behind : ∃ pre fs, line = pre ++ joined ',' fs ∧ (∀ f ∈ fs, ',' ∉ f) ∧
    st.delim0 = some pre.length ∧ (scan initialTime pre.length fs).2 = .endless

/-- **Step lemma**: a pass over a pair leads to the next comma, and one over a start without an end
back to the first. -/
theorem Lost.pass {line : List Char} {st : Scan} (h : Lost initialTime line st)
    (hread : (stoull line).isSome)
    (hback : ∀ ranges, Lost initialTime line ⟨find ',' line 0, ranges, false⟩) :
    Lost initialTime line (pass initialTime line st) := by
  obtain ⟨delim0, ranges, thrown⟩ := st
  obtain ⟨rfl, pre, fs, hline, hcomma, rfl, hend⟩ := h
  match fs, hline, hcomma, hend with
  | [], _, _, hend => exact absurd rfl (ne_nil_of_endless hend)
  | [s], hline, hcomma, hend =>
    rw [scan] at hend
    cases hs : stoull s with
    | none =>
      rw [hs] at hend
      exact absurd hend (by decide)
    | some start =>
      obtain ⟨id, hid⟩ := Option.isSome_iff_exists.mp hread
      have hpass : Rendezvous.pass initialTime line ⟨some pre.length, ranges, false⟩ =
          ⟨find ',' line 0,
            ranges ++ [(addTime start initialTime, addTime id initialTime)], false⟩ := by
        rw [hline] at hid ⊢
        rw [pass_single pre s (hcomma s List.mem_cons_self), hs, hid]
      rw [hpass]
      exact hback _
  | s :: e :: fs, hline, hcomma, hend =>
    have hs := hcomma s List.mem_cons_self
    have he := hcomma e (List.mem_cons_of_mem s List.mem_cons_self)
    rcases pair_cases s e pre.length with ⟨start, stop, hstart, hstop⟩ | hnone
    · rw [scan_pair _ _ hstart hstop] at hend
      obtain ⟨hpre, hrest⟩ := behind_pair hline
      rw [pass_pair hline hs he ranges hstart hstop, if_neg (ne_nil_of_endless hend)]
      refine ⟨rfl, _, fs, hrest, fun f hf => ?_, ?_, ?_⟩
      · exact hcomma f (List.mem_cons_of_mem s (List.mem_cons_of_mem e hf))
      · rw [hpre]
      · rw [hpre]
        exact hend
    · rw [scan_thrown _ _ hnone] at hend
      exact absurd hend (by decide)

/-- **A start without an end keeps the loop going**: if all its numbers can be read, it comes back to
the first comma again and again. -/
theorem walk_endless {first : List Char} {fs : List (List Char)} (hfirst : ',' ∉ first)
    (hcomma : ∀ f ∈ fs, ',' ∉ f) (hid : (stoull first).isSome)
    (hend : (scan initialTime first.length fs).2 = .endless) (ranges : List (ℕ × ℕ)) (fuel : ℕ) :
    walk initialTime (first ++ joined ',' fs) fuel ⟨some first.length, ranges, false⟩ = none := by
  have hread : (stoull (first ++ joined ',' fs)).isSome := by rwa [stoull_append_joined]
  have hback : find ',' (first ++ joined ',' fs) 0 = some first.length := by
    rw [find_first first fs hfirst, if_neg (ne_nil_of_endless hend)]
  have hlost : ∀ ranges,
      Lost initialTime (first ++ joined ',' fs) ⟨some first.length, ranges, false⟩ :=
    fun _ => ⟨rfl, first, fs, rfl, hcomma, rfl, hend⟩
  refine Loop.run_eq_none_of_invariant ?_ (hlost ranges) fuel
  intro st hst
  refine ⟨?_, hst.pass hread fun ranges => ?_⟩
  · obtain ⟨hgoing, pre, fs, -, -, hdelim, -⟩ := hst
    rw [hgoing, hdelim]
    rfl
  · rw [hback]
    exact hlost ranges

/-! ### Lines and files -/

section Effect

variable (robotId : ℕ) (initialTime : Seconds)

/-- The ranges a line adds, and how its reading ends. -/
def lineEffect (line : List Char) : List (ℕ × ℕ) × Ending :=
  match stoul (split ',' line).1 with
  | none => ([], .thrown)
  | some id =>
    if robotId = id then scan initialTime (split ',' line).1.length (split ',' line).2
    else ([], .done)

/-- The ranges the lines add, up to the one that is not read to its end. -/
def fileEffect : List (List Char) → List (ℕ × ℕ) × Ending
  | [] => ([], .done)
  | line :: lines =>
    if (lineEffect robotId initialTime line).2 = .done then
      ((lineEffect robotId initialTime line).1 ++ (fileEffect lines).1, (fileEffect lines).2)
    else lineEffect robotId initialTime line

end Effect

theorem find_zero (line : List Char) : find ',' line 0 =
    if (split ',' line).2 = [] then none else some (split ',' line).1.length := by
  have h := find_first (split ',' line).1 (split ',' line).2 (notMem_split line).1
  rwa [split_append_joined] at h

/-- The robot id is read from the first field. -/
theorem stoul_first (line : List Char) :
    (substr line 0 (find ',' line 0)).bind stoul = stoul (split ',' line).1 := by
  have hnumber : (substr line 0 (find ',' line 0)).bind stoul =
      stoull ((find ',' line 0).elim line line.take) := number_append [] line _
  rw [hnumber, find_zero]
  unfold stoul
  have hline : (split ',' line).1 ++ joined ',' (split ',' line).2 = line :=
    split_append_joined line
  split_ifs with hnone
  · rw [Option.elim_none]
    conv_lhs => rw [← hline]
    rw [stoull_append_joined]
  · rw [Option.elim_some]
    have htake : ((split ',' line).1 ++ joined ',' (split ',' line).2).take
        (split ',' line).1.length = (split ',' line).1 := List.take_left
    rw [hline] at htake
    rw [htake]

theorem readLine_eq (fuel : ℕ) (ranges : List (ℕ × ℕ)) (line : List Char) :
    readLine robotId initialTime fuel ⟨ranges, false⟩ line =
      match stoul (split ',' line).1 with
      | none => some ⟨ranges, true⟩
      | some id =>
        if robotId = id then
          (walk initialTime line fuel ⟨if (split ',' line).2 = [] then none
            else some (split ',' line).1.length, ranges, false⟩).map fun s =>
              ⟨s.rendezvousRanges, s.thrown⟩
        else some ⟨ranges, false⟩ := by
  rw [← stoul_first, ← find_zero]
  rfl

/-- A line whose loop does not end. -/
theorem readLine_endless {line : List Char} (h : (lineEffect robotId initialTime line).2 = .endless)
    (ranges : List (ℕ × ℕ)) (fuel : ℕ) :
    readLine robotId initialTime fuel ⟨ranges, false⟩ line = none := by
  unfold lineEffect at h
  rw [readLine_eq]
  cases hid : stoul (split ',' line).1 with
  | none =>
    rw [hid] at h
    cases h
  | some id =>
    rw [hid] at h
    dsimp only at h ⊢
    by_cases hown : robotId = id
    · rw [if_pos hown] at h ⊢
      have hfs : (split ',' line).2 ≠ [] := by
        intro hnil
        rw [hnil, scan] at h
        exact absurd h (by decide)
      have hwalk := walk_endless (notMem_split line).1 (notMem_split line).2
        (Option.isSome_iff_exists.mpr ⟨id, hid⟩) h ranges fuel
      rw [split_append_joined] at hwalk
      rw [if_neg hfs, hwalk]
      rfl
    · rw [if_neg hown] at h
      exact absurd h (by decide)

/-- A line that is read to its end or throws. -/
theorem readLine_ends {line : List Char} (h : (lineEffect robotId initialTime line).2 ≠ .endless)
    (ranges : List (ℕ × ℕ)) : ∃ n, ∀ fuel ≥ n,
      readLine robotId initialTime fuel ⟨ranges, false⟩ line =
        some ⟨ranges ++ (lineEffect robotId initialTime line).1,
          decide ((lineEffect robotId initialTime line).2 = .thrown)⟩ := by
  unfold lineEffect at h ⊢
  simp only [readLine_eq]
  cases hid : stoul (split ',' line).1 with
  | none =>
    refine ⟨0, fun _ _ => ?_⟩
    simp
  | some id =>
    rw [hid] at h
    dsimp only at h ⊢
    by_cases hown : robotId = id
    · rw [if_pos hown] at h
      simp only [if_pos hown]
      obtain ⟨n, r, hrun, hranges, hthrown⟩ := walk_scan (split ',' line).2 (split ',' line).1
        ranges (split_append_joined line).symm (notMem_split line).2 h
      refine ⟨n, fun fuel hfuel => ?_⟩
      have hmono : walk initialTime line fuel _ = some r := Loop.run_mono hfuel hrun
      rw [hmono, Option.map_some, hranges, hthrown]
    · simp only [if_neg hown]
      refine ⟨0, fun _ _ => ?_⟩
      simp

/-- More fuel changes nothing. -/
theorem readLine_mono {n fuel : ℕ} (hle : n ≤ fuel) {r r' : Reader} {line : List Char}
    (h : readLine robotId initialTime n r line = some r') :
    readLine robotId initialTime fuel r line = some r' := by
  obtain ⟨ranges, thrown⟩ := r
  cases thrown with
  | true => exact h
  | false =>
    rw [readLine_eq] at h ⊢
    cases hid : stoul (split ',' line).1 with
    | none =>
      rw [hid] at h
      exact h
    | some id =>
      rw [hid] at h
      dsimp only at h ⊢
      by_cases hown : robotId = id
      · rw [if_pos hown, Option.map_eq_some_iff] at h ⊢
        obtain ⟨s, hs, hr⟩ := h
        exact ⟨s, Loop.run_mono hle hs, hr⟩
      · rw [if_neg hown] at h ⊢
        exact h

theorem foldlM_thrown (fuel : ℕ) (ranges : List (ℕ × ℕ)) (lines : List (List Char)) :
    lines.foldlM (readLine robotId initialTime fuel) ⟨ranges, true⟩ = some ⟨ranges, true⟩ := by
  induction lines with
  | nil => rfl
  | cons line lines ih =>
    rw [List.foldlM_cons]
    exact ih

theorem foldlM_endless {lines : List (List Char)}
    (h : (fileEffect robotId initialTime lines).2 = .endless) (ranges : List (ℕ × ℕ)) (fuel : ℕ) :
    lines.foldlM (readLine robotId initialTime fuel) ⟨ranges, false⟩ = none := by
  induction lines generalizing ranges with
  | nil => exact absurd h (by rw [fileEffect]; decide)
  | cons line lines ih =>
    rw [fileEffect] at h
    rw [List.foldlM_cons]
    by_cases hdone : (lineEffect robotId initialTime line).2 = .done
    · rw [if_pos hdone] at h
      cases hread : readLine robotId initialTime fuel ⟨ranges, false⟩ line with
      | none => rfl
      | some r =>
        -- the fuel was enough for this line, and it reads what it reads with more
        obtain ⟨n, hn⟩ := readLine_ends (by rw [hdone]; decide) ranges
        have hmore := (readLine_mono (le_max_right n fuel) hread).symm.trans
          (hn (max n fuel) (le_max_left n fuel))
        rw [hdone] at hmore
        obtain rfl := Option.some.inj hmore
        exact ih h _
    · rw [if_neg hdone] at h
      rw [readLine_endless h]
      rfl

theorem foldlM_ends {lines : List (List Char)}
    (h : (fileEffect robotId initialTime lines).2 ≠ .endless) (ranges : List (ℕ × ℕ)) :
    ∃ n, ∀ fuel ≥ n, lines.foldlM (readLine robotId initialTime fuel) ⟨ranges, false⟩ =
      some ⟨ranges ++ (fileEffect robotId initialTime lines).1,
        decide ((fileEffect robotId initialTime lines).2 = .thrown)⟩ := by
  induction lines generalizing ranges with
  | nil =>
    refine ⟨0, fun fuel _ => ?_⟩
    rw [List.foldlM_nil, fileEffect, List.append_nil]
    rfl
  | cons line lines ih =>
    rw [fileEffect] at h ⊢
    by_cases hdone : (lineEffect robotId initialTime line).2 = .done
    · rw [if_pos hdone] at h ⊢
      obtain ⟨n, hn⟩ := readLine_ends (by rw [hdone]; decide) ranges
      obtain ⟨m, hm⟩ := ih h (ranges ++ (lineEffect robotId initialTime line).1)
      refine ⟨max n m, fun fuel hfuel => ?_⟩
      rw [List.foldlM_cons, hn fuel ((le_max_left n m).trans hfuel), hdone]
      show lines.foldlM (readLine robotId initialTime fuel) ⟨_, false⟩ = _
      rw [hm fuel ((le_max_right n m).trans hfuel), List.append_assoc]
    · rw [if_neg hdone] at h ⊢
      obtain ⟨n, hn⟩ := readLine_ends h ranges
      have hthrown : (lineEffect robotId initialTime line).2 = .thrown := by
        cases hend : (lineEffect robotId initialTime line).2 with
        | done => exact absurd hend hdone
        | thrown => rfl
        | endless => exact absurd hend h
      refine ⟨n, fun fuel hfuel => ?_⟩
      rw [List.foldlM_cons, hn fuel hfuel, hthrown]
      exact foldlM_thrown fuel _ lines

/-- **The constructor ends with what the lines say**, if it ends. -/
theorem new_ends {content : List Char}
    (h : (fileEffect robotId initialTime (getLines content)).2 ≠ .endless) :
    ∃ n, ∀ fuel ≥ n, SimulatedRendezVous.new robotId initialTime fuel (some content) =
      some ⟨robotId, (fileEffect robotId initialTime (getLines content)).1,
        !decide ((fileEffect robotId initialTime (getLines content)).2 = .thrown)⟩ := by
  obtain ⟨n, hn⟩ := foldlM_ends h []
  refine ⟨n, fun fuel hfuel => ?_⟩
  show Option.map _ ((getLines content).foldlM (readLine robotId initialTime fuel) ⟨[], false⟩) = _
  rw [hn fuel hfuel]
  rfl

theorem new_endless {content : List Char}
    (h : (fileEffect robotId initialTime (getLines content)).2 = .endless) (fuel : ℕ) :
    SimulatedRendezVous.new robotId initialTime fuel (some content) = none := by
  show Option.map _ ((getLines content).foldlM (readLine robotId initialTime fuel) ⟨[], false⟩) = _
  rw [foldlM_endless h]
  rfl

/-! ### Termination -/

/-- The numbers that are read behind the comma at `c` can be read, the ends cut as they are. -/
def Readable : ℕ → List (List Char) → Prop
  | _, [] => True
  | _, [s] => (stoull s).isSome
  | c, s :: e :: fs => (stoull s).isSome ∧ (stoull (e.take (c + 1 + s.length))).isSome ∧
      Readable (c + 1 + s.length + 1 + e.length) fs

/-- The line is read to its end: it is of another robot, or has a pair behind every second comma,
and no number of it throws. -/
def ReadThrough (robotId : ℕ) (line : List Char) : Prop :=
  ∃ id, stoul (split ',' line).1 = some id ∧ (robotId = id →
    Even (line.count ',') ∧ Readable (split ',' line).1.length (split ',' line).2)

/-- The line is of the robot and has a start without an end, and no number of it throws. -/
def Unpaired (robotId : ℕ) (line : List Char) : Prop :=
  stoul (split ',' line).1 = some robotId ∧ Odd (line.count ',') ∧
    Readable (split ',' line).1.length (split ',' line).2

theorem scan_ending : ∀ (c : ℕ) (fs : List (List Char)),
    ((scan initialTime c fs).2 = .endless ↔ Odd fs.length ∧ Readable c fs) ∧
      ((scan initialTime c fs).2 = .done ↔ Even fs.length ∧ Readable c fs)
  | c, [] => by simp [scan, Readable]
  | c, [s] => by
    rw [scan, Readable]
    cases stoull s with
    | none => simp
    | some start => simp
  | c, s :: e :: fs => by
    have hlen : (s :: e :: fs).length = fs.length + 2 := rfl
    have hodd : Odd (fs.length + 2) ↔ Odd fs.length := by
      rw [Nat.odd_add]
      simp
    have heven : Even (fs.length + 2) ↔ Even fs.length := by
      rw [Nat.even_add]
      simp
    rw [hlen, hodd, heven, Readable]
    rcases pair_cases s e c with ⟨start, stop, hstart, hstop⟩ | hnone
    · obtain ⟨hend, hdone⟩ := scan_ending (c + 1 + s.length + 1 + e.length) fs
      rw [scan_pair _ _ hstart hstop, hstart, hstop]
      simpa using ⟨hend, hdone⟩
    · rw [scan_thrown _ _ hnone]
      rcases hnone with hnone | hnone
      · simp [hnone]
      · simp [hnone]

theorem lineEffect_endless_iff (robotId : ℕ) (initialTime : Seconds) (line : List Char) :
    (lineEffect robotId initialTime line).2 = .endless ↔ Unpaired robotId line := by
  unfold lineEffect Unpaired
  rw [count_eq_length_split]
  cases stoul (split ',' line).1 with
  | none => simp
  | some id =>
    dsimp only
    by_cases hown : robotId = id
    · rw [if_pos hown, (scan_ending _ _).1, hown]
      simp
    · rw [if_neg hown]
      simp [Ne.symm hown]

theorem lineEffect_done_iff (robotId : ℕ) (initialTime : Seconds) (line : List Char) :
    (lineEffect robotId initialTime line).2 = .done ↔ ReadThrough robotId line := by
  unfold lineEffect ReadThrough
  rw [count_eq_length_split]
  cases stoul (split ',' line).1 with
  | none => simp
  | some id =>
    dsimp only
    by_cases hown : robotId = id
    · rw [if_pos hown, (scan_ending _ _).2]
      simp [hown]
    · rw [if_neg hown]
      simp [hown]

theorem fileEffect_endless_iff (robotId : ℕ) (initialTime : Seconds) (lines : List (List Char)) :
    (fileEffect robotId initialTime lines).2 = .endless ↔ ∃ pre line post,
      lines = pre ++ line :: post ∧ (∀ l ∈ pre, ReadThrough robotId l) ∧ Unpaired robotId line := by
  induction lines with
  | nil => simp [fileEffect]
  | cons line lines ih =>
    rw [fileEffect]
    by_cases hdone : (lineEffect robotId initialTime line).2 = .done
    · rw [if_pos hdone, ih]
      constructor
      · rintro ⟨pre, l, post, rfl, hpre, hl⟩
        refine ⟨line :: pre, l, post, rfl, fun l' hl' => ?_, hl⟩
        rcases List.mem_cons.mp hl' with rfl | hl'
        · exact (lineEffect_done_iff robotId initialTime l').mp hdone
        · exact hpre l' hl'
      · rintro ⟨pre, l, post, heq, hpre, hl⟩
        cases pre with
        | nil =>
          obtain ⟨rfl, rfl⟩ := List.cons.inj heq
          rw [(lineEffect_endless_iff robotId initialTime line).mpr hl] at hdone
          exact absurd hdone (by decide)
        | cons l' pre =>
          obtain ⟨rfl, rfl⟩ := List.cons.inj heq
          exact ⟨pre, l, post, rfl, fun l' hl' => hpre l' (List.mem_cons_of_mem _ hl'), hl⟩
    · rw [if_neg hdone, lineEffect_endless_iff]
      constructor
      · intro hl
        exact ⟨[], line, lines, rfl, fun l hl => absurd hl List.not_mem_nil, hl⟩
      · rintro ⟨pre, l, post, heq, hpre, hl⟩
        cases pre with
        | nil =>
          obtain ⟨rfl, rfl⟩ := List.cons.inj heq
          exact hl
        | cons l' pre =>
          obtain ⟨rfl, rfl⟩ := List.cons.inj heq
          exact absurd ((lineEffect_done_iff robotId initialTime line).mpr
            (hpre line List.mem_cons_self)) hdone

/-- **Reading the schedule ends exactly if** no line that the reading comes to has a start without
an end, with all of its numbers readable. -/
theorem new_terminates_iff (robotId : ℕ) (initialTime : Seconds) (content : List Char) :
    (∃ fuel r, SimulatedRendezVous.new robotId initialTime fuel (some content) = some r) ↔
      ¬ ∃ pre line post, getLines content = pre ++ line :: post ∧
        (∀ l ∈ pre, ReadThrough robotId l) ∧ Unpaired robotId line := by
  rw [← fileEffect_endless_iff robotId initialTime]
  constructor
  · rintro ⟨fuel, r, hr⟩ hend
    rw [new_endless hend] at hr
    exact absurd hr (by simp)
  · intro h
    obtain ⟨n, hn⟩ := new_ends h
    exact ⟨n, _, hn n (le_refl n)⟩

/-- A schedule with the start of a rendezvous only. -/
theorem new_unpaired : ¬ ∃ fuel r,
    SimulatedRendezVous.new 0 1700000000 fuel (some "0,100\n".toList) = some r := by
  rintro ⟨fuel, r, hr⟩
  rw [new_endless (by decide +kernel)] at hr
  exact absurd hr (by simp)

end RoverSwarm.Rendezvous
