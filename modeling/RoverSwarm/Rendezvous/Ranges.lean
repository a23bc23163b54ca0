import RoverSwarm.Rendezvous

/-!
# Rendezvous/Ranges — the ranges of a well-formed schedule

A well-formed line is a robot id and one or more pairs of integers.  The length with which an end is
cut out of the line is the position of the comma before it, which may be less than the end is long:
then its last digits are lost.
-/

namespace RoverSwarm.Rendezvous

open Fields

/-! ### Well-formed schedules -/

/-- What a line says. -/
structure Entry where
  robotId : ℕ
  pairs : List (ℤ × ℤ)

/-- The fields are the numerals of the pairs. -/
def Numerals : List (List Char) → List (ℤ × ℤ) → Prop
  | [], [] => True
  | s :: e :: fs, (a, b) :: ps => IsInt s a ∧ IsInt e b ∧ Numerals fs ps
  | _, _ => False

instance decidableNumerals : (fs : List (List Char)) → (ps : List (ℤ × ℤ)) →
    Decidable (Numerals fs ps)
  | [], [] => isTrue trivial
  | s :: e :: fs, (a, b) :: ps =>
    have := decidableNumerals fs ps
    inferInstanceAs (Decidable (IsInt s a ∧ IsInt e b ∧ Numerals fs ps))
  | [], _ :: _ => isFalse id
  | [_], [] => isFalse id
  | [_], _ :: _ => isFalse id
  | _ :: _ :: _, [] => isFalse id

/-- The line is a robot id followed by one or more pairs of integers. -/
def WellFormed (line : List Char) (entry : Entry) : Prop :=
  IsInt (split ',' line).1 entry.robotId ∧ entry.robotId < 2 ^ 32 ∧ entry.pairs ≠ [] ∧
    Numerals (split ',' line).2 entry.pairs

instance (line : List Char) (entry : Entry) : Decidable (WellFormed line entry) :=
  inferInstanceAs (Decidable (_ ∧ _ ∧ _ ∧ _))

/-- The ranges of the robot, in the order of the file. -/
def expectedRanges (robotId : ℕ) (initialTime : Seconds) (entries : List Entry) : List (ℤ × ℤ) :=
  (entries.filter fun entry => entry.robotId = robotId).flatMap fun entry =>
    entry.pairs.map fun p => (p.1 + (initialTime : ℕ), p.2 + (initialTime : ℕ))

/-- The constructor returns with exactly the expected ranges, and the robot is alive exactly at the
times in them. -/
def ReadsExactly (robotId : ℕ) (initialTime : Seconds) (content : List Char)
    (entries : List Entry) : Prop :=
  ∃ n r, (∀ fuel ≥ n, SimulatedRendezVous.new robotId initialTime fuel (some content) = some r) ∧
    (r.rendezvousRanges.map fun range => ((range.1 : ℤ), (range.2 : ℤ))) =
      expectedRanges robotId initialTime entries ∧
    ∀ currentTime : ℕ, r.isAlive currentTime = true ↔
      ∃ range ∈ expectedRanges robotId initialTime entries,
        range.1 ≤ currentTime ∧ currentTime ≤ range.2

/-- The number can be read, and its time is one of `uint64_t`. -/
def InRange (initialTime : Seconds) (n : ℤ) : Prop :=
  n.natAbs < 2 ^ 64 ∧ 0 ≤ n + (initialTime : ℕ) ∧ n + (initialTime : ℕ) < 2 ^ 64

/-- The numbers of the fields behind the comma at `c` are in range, and no end loses digits: it
reads the same when it is cut to as many characters as stand before its comma. -/
def Fits (initialTime : Seconds) : ℕ → List (List Char) → List (ℤ × ℤ) → Prop
  | c, s :: e :: fs, (a, b) :: ps => InRange initialTime a ∧ InRange initialTime b ∧
      leadingInt (e.take (c + 1 + s.length)) = some b ∧
      Fits initialTime (c + 1 + s.length + 1 + e.length) fs ps
  | _, _, _ => True

/-! ### One pair -/

variable {robotId : ℕ} {initialTime : Seconds}

theorem stoull_eq_some_iff {s : List Char} {n : ℤ} (h : leadingInt s = some n) {v : ℕ} :
    stoull s = some v ↔ n.natAbs < 2 ^ 64 ∧ v = (n % 2 ^ 64).toNat := by
  unfold stoull
  rw [h, Option.bind_some]
  split_ifs with hlt
  · rw [Option.some_inj]
    exact ⟨fun hv => ⟨hlt, hv.symm⟩, fun ⟨_, hv⟩ => hv.symm⟩
  · exact ⟨fun hv => absurd hv (by simp), fun ⟨hlt', _⟩ => absurd hlt' hlt⟩

theorem addTime_cast (n : ℤ) :
    (addTime (n % 2 ^ 64).toNat initialTime : ℤ) = (n + (initialTime : ℕ)) % 2 ^ 64 := by
  unfold addTime
  push_cast
  omega

/-- A start is read right. -/
theorem start_iff (initialTime : Seconds) {s : List Char} {a : ℤ} (ha : leadingInt s = some a) :
    (∃ start, stoull s = some start ∧ (addTime start initialTime : ℤ) = a + (initialTime : ℕ)) ↔
      InRange initialTime a := by
  unfold InRange
  constructor
  · rintro ⟨start, hstart, heq⟩
    obtain ⟨hlt, rfl⟩ := (stoull_eq_some_iff ha).mp hstart
    rw [addTime_cast] at heq
    omega
  · rintro ⟨hlt, hlo, hhi⟩
    refine ⟨_, (stoull_eq_some_iff ha).mpr ⟨hlt, rfl⟩, ?_⟩
    rw [addTime_cast]
    omega

/-- An end is read right exactly if the cut keeps its number. -/
theorem stop_iff (initialTime : Seconds) {e : List Char} {b : ℤ} (hb : leadingInt e = some b)
    (n : ℕ) :
    (∃ stop, stoull (e.take n) = some stop ∧
        (addTime stop initialTime : ℤ) = b + (initialTime : ℕ)) ↔
      InRange initialTime b ∧ leadingInt (e.take n) = some b := by
  constructor
  · rintro ⟨stop, hstop, heq⟩
    cases hcut : leadingInt (e.take n) with
    | none =>
      unfold stoull at hstop
      rw [hcut] at hstop
      exact absurd hstop (by simp)
    | some b' =>
      obtain ⟨hlt, rfl⟩ := (stoull_eq_some_iff hcut).mp hstop
      have hsign := leadingInt_take hcut hb
      have htime := initialTime.isLt
      rw [addTime_cast] at heq
      -- the same sign and the same remainder
      obtain rfl : b' = b := by omega
      refine ⟨?_, rfl⟩
      unfold InRange
      omega
  · rintro ⟨hrange, hcut⟩
    exact (start_iff initialTime hcut).mpr hrange

/-! ### One line -/

/-- The ranges as integers. -/
def casts (ranges : List (ℕ × ℕ)) : List (ℤ × ℤ) :=
  ranges.map fun range => ((range.1 : ℤ), (range.2 : ℤ))

/-- The pairs at the initial time. -/
def shifted (initialTime : Seconds) (ps : List (ℤ × ℤ)) : List (ℤ × ℤ) :=
  ps.map fun p => (p.1 + (initialTime : ℕ), p.2 + (initialTime : ℕ))

theorem length_casts (ranges : List (ℕ × ℕ)) : (casts ranges).length = ranges.length :=
  List.length_map _

theorem length_shifted (ps : List (ℤ × ℤ)) : (shifted initialTime ps).length = ps.length :=
  List.length_map _

/-- What the loop makes of well-formed fields: all pairs if it does not throw, and fewer if it does;
the right ones exactly if the fields fit. -/
structure Scanned (ending : Ending) (ranges : List (ℕ × ℕ)) (ps : List (ℤ × ℤ))
    (initialTime : Seconds) (fits : Prop) : Prop where
  not_endless : ending ≠ .endless
  length_done : ending = .done → ranges.length = ps.length
  length_thrown : ending = .thrown → ranges.length < ps.length
  exact_iff : casts ranges = shifted initialTime ps ↔ fits

namespace Scanned

variable {ending : Ending} {ranges : List (ℕ × ℕ)} {ps : List (ℤ × ℤ)} {fits : Prop}

/-- A line that throws has fewer ranges than it should, whatever is expected behind them. -/
theorem ne_append (h : Scanned ending ranges ps initialTime fits) (hnot : ending ≠ .done)
    (rest : List (ℤ × ℤ)) : casts ranges ≠ shifted initialTime ps ++ rest := by
  have hthrown : ending = .thrown := by
    cases ending with
    | done => exact absurd rfl hnot
    | thrown => rfl
    | endless => exact absurd rfl h.not_endless
  have hlt := h.length_thrown hthrown
  intro heq
  have hlen := congrArg List.length heq
  rw [length_casts, List.length_append, length_shifted] at hlen
  omega

theorem done_of_fits (h : Scanned ending ranges ps initialTime fits) (hfits : fits) :
    ending = .done := by
  by_contra hnot
  refine h.ne_append hnot [] ?_
  rw [List.append_nil]
  exact h.exact_iff.mpr hfits

end Scanned

theorem scanned (initialTime : Seconds) :
    ∀ (fs : List (List Char)) (ps : List (ℤ × ℤ)) (c : ℕ), Numerals fs ps →
    Scanned (scan initialTime c fs).2 (scan initialTime c fs).1 ps initialTime
      (Fits initialTime c fs ps)
  | [], [], c, _ => by
    rw [scan]
    refine ⟨by decide, fun _ => rfl, fun h => absurd h (by decide), ?_⟩
    simp [casts, shifted, Fits]
  | s :: e :: fs, (a, b) :: ps, c, h => by
    obtain ⟨hs, he, hrest⟩ := h
    have ih := scanned initialTime fs ps (c + 1 + s.length + 1 + e.length) hrest
    have hstart := start_iff initialTime hs.1
    have hstop := stop_iff initialTime he.1 (c + 1 + s.length)
    rcases pair_cases s e c with ⟨start, stop, hv, hw⟩ | hnone
    · rw [scan_pair _ _ hv hw]
      rw [hv] at hstart
      rw [hw] at hstop
      have hstart' : (addTime start initialTime : ℤ) = a + (initialTime : ℕ) ↔
          InRange initialTime a := by simpa using hstart
      have hstop' : (addTime stop initialTime : ℤ) = b + (initialTime : ℕ) ↔
          InRange initialTime b ∧ leadingInt (e.take (c + 1 + s.length)) = some b := by
        simpa using hstop
      refine ⟨ih.not_endless, fun hdone => ?_, fun hthrown => ?_, ?_⟩
      · have hlen := ih.length_done hdone
        simp only [List.length_cons]
        omega
      · have hlen := ih.length_thrown hthrown
        simp only [List.length_cons]
        omega
      · show ((addTime start initialTime : ℤ), (addTime stop initialTime : ℤ)) :: casts _ =
          (a + (initialTime : ℕ), b + (initialTime : ℕ)) :: shifted initialTime ps ↔ _
        rw [List.cons.injEq, Prod.mk.injEq, hstart', hstop', ih.exact_iff, Fits]
        tauto
    · rw [scan_thrown _ _ hnone]
      refine ⟨by decide, fun h => absurd h (by decide), fun _ => Nat.succ_pos _, ?_⟩
      constructor
      · intro heq
        exact absurd heq (List.cons_ne_nil _ _).symm
      · rintro ⟨ha, hb, hcut, -⟩
        obtain ⟨start, hv, -⟩ := hstart.mpr ha
        obtain ⟨stop, hw, -⟩ := hstop.mpr ⟨hb, hcut⟩
        rcases hnone with hnone | hnone
        · rw [hv] at hnone
          exact absurd hnone (by simp)
        · rw [hw] at hnone
          exact absurd hnone (by simp)

/-- The entries fit the lines they stand for, as far as these are of the robot. -/
def LineFits (robotId : ℕ) (initialTime : Seconds) (line : List Char) (entry : Entry) : Prop :=
  entry.robotId = robotId →
    Fits initialTime (split ',' line).1.length (split ',' line).2 entry.pairs

theorem lineEffect_own {line : List Char} {entry : Entry} (h : WellFormed line entry)
    (hown : entry.robotId = robotId) : lineEffect robotId initialTime line =
      scan initialTime (split ',' line).1.length (split ',' line).2 := by
  obtain ⟨⟨hid, -⟩, hlt, -⟩ := h
  have hread : stoul (split ',' line).1 = some robotId := by
    refine (stoull_eq_some_iff hid).mpr ?_
    omega
  unfold lineEffect
  rw [hread]
  exact if_pos rfl

theorem lineEffect_other {line : List Char} {entry : Entry} (h : WellFormed line entry)
    (hother : entry.robotId ≠ robotId) : lineEffect robotId initialTime line = ([], .done) := by
  obtain ⟨⟨hid, -⟩, hlt, -⟩ := h
  have hread : stoul (split ',' line).1 = some entry.robotId := by
    refine (stoull_eq_some_iff hid).mpr ?_
    omega
  unfold lineEffect
  rw [hread]
  exact if_neg fun heq => hother heq.symm

/-! ### All lines -/

theorem casts_append (ranges ranges' : List (ℕ × ℕ)) :
    casts (ranges ++ ranges') = casts ranges ++ casts ranges' := List.map_append

theorem expectedRanges_own {entry : Entry} (entries : List Entry)
    (hown : entry.robotId = robotId) : expectedRanges robotId initialTime (entry :: entries) =
      shifted initialTime entry.pairs ++ expectedRanges robotId initialTime entries := by
  have hfilter : (entry :: entries).filter (fun entry => entry.robotId = robotId) =
      entry :: entries.filter fun entry => entry.robotId = robotId :=
    List.filter_cons_of_pos (decide_eq_true hown)
  unfold expectedRanges
  rw [hfilter]
  rfl

theorem expectedRanges_other {entry : Entry} (entries : List Entry)
    (hother : entry.robotId ≠ robotId) : expectedRanges robotId initialTime (entry :: entries) =
      expectedRanges robotId initialTime entries := by
  unfold expectedRanges
  rw [List.filter_cons_of_neg (by simpa using hother)]

/-- **The file is read exactly if its lines fit**: then nothing throws. -/
theorem fileEffect_exact_iff (robotId : ℕ) (initialTime : Seconds) {lines : List (List Char)}
    {entries : List Entry}
    (h : List.Forall₂ WellFormed lines entries) :
    (fileEffect robotId initialTime lines).2 ≠ .endless ∧
      (casts (fileEffect robotId initialTime lines).1 = expectedRanges robotId initialTime entries ↔
        List.Forall₂ (LineFits robotId initialTime) lines entries) ∧
      (List.Forall₂ (LineFits robotId initialTime) lines entries →
        (fileEffect robotId initialTime lines).2 = .done) := by
  induction h with
  | nil =>
    rw [fileEffect]
    exact ⟨by decide, ⟨fun _ => List.Forall₂.nil, fun _ => rfl⟩, fun _ => rfl⟩
  | @cons line entry lines entries hline hlines ih =>
    obtain ⟨hend, hiff, hdone⟩ := ih
    rw [fileEffect, List.forall₂_cons]
    by_cases hown : entry.robotId = robotId
    · rw [lineEffect_own hline hown, expectedRanges_own entries hown]
      have hscan := scanned initialTime (split ',' line).2 entry.pairs
        (split ',' line).1.length hline.2.2.2
      have hfits : LineFits robotId initialTime line entry ↔
          Fits initialTime (split ',' line).1.length (split ',' line).2 entry.pairs :=
        ⟨fun hfit => hfit hown, fun hfit _ => hfit⟩
      rw [hfits]
      generalize scan initialTime (split ',' line).1.length (split ',' line).2 = effect at hscan ⊢
      by_cases hlast : effect.2 = .done
      · rw [if_pos hlast]
        have hlen := hscan.length_done hlast
        refine ⟨hend, ?_, fun hall => hdone hall.2⟩
        rw [casts_append, ← hiff, ← hscan.exact_iff]
        constructor
        · intro heq
          exact List.append_inj heq (by rw [length_casts, length_shifted, hlen])
        · rintro ⟨hpairs, hrest⟩
          rw [hpairs, hrest]
      · rw [if_neg hlast]
        exact ⟨hscan.not_endless, ⟨fun heq => absurd heq (hscan.ne_append hlast _),
          fun hall => absurd (hscan.done_of_fits hall.1) hlast⟩,
          fun hall => absurd (hscan.done_of_fits hall.1) hlast⟩
    · rw [lineEffect_other hline hown, expectedRanges_other entries hown, if_pos rfl,
        List.nil_append, hiff]
      have hfit : LineFits robotId initialTime line entry := fun heq => absurd heq hown
      exact ⟨hend, ⟨fun hall => ⟨hfit, hall⟩, fun hall => hall.2⟩, fun hall => hdone hall.2⟩

/-- Alive is being in a range. -/
theorem isAlive_iff {r : SimulatedRendezVous} (henabled : r.enabled = true) (currentTime : ℕ) :
    r.isAlive currentTime = true ↔
      ∃ range ∈ casts r.rendezvousRanges, range.1 ≤ currentTime ∧ currentTime ≤ range.2 := by
  unfold SimulatedRendezVous.isAlive casts
  rw [if_pos henabled, List.any_eq_true]
  constructor
  · rintro ⟨range, hmem, hin⟩
    refine ⟨_, List.mem_map.mpr ⟨range, hmem, rfl⟩, ?_⟩
    simpa using hin
  · rintro ⟨_, hmem, hin⟩
    obtain ⟨range, hrange, rfl⟩ := List.mem_map.mp hmem
    refine ⟨range, hrange, ?_⟩
    simpa using hin

/-- **The ranges of a well-formed schedule are read exactly if** the times of the robot are in the
range of the types and no end is longer than the text before its comma. -/
theorem readsExactly_iff (robotId : ℕ) (initialTime : Seconds) {content : List Char}
    {entries : List Entry} (h : List.Forall₂ WellFormed (getLines content) entries) :
    ReadsExactly robotId initialTime content entries ↔
      List.Forall₂ (LineFits robotId initialTime) (getLines content) entries := by
  obtain ⟨hend, hiff, hdone⟩ := fileEffect_exact_iff robotId initialTime h
  obtain ⟨n, hn⟩ := new_ends hend
  constructor
  · rintro ⟨m, r, hm, hranges, -⟩
    have hr := (hm (max n m) (le_max_right n m)).symm.trans (hn (max n m) (le_max_left n m))
    obtain rfl := Option.some.inj hr
    exact hiff.mp hranges
  · intro hall
    have hranges := hiff.mpr hall
    refine ⟨n, _, hn, hranges, fun currentTime => ?_⟩
    rw [isAlive_iff (by rw [hdone hall]; rfl), ← hranges]

/-- A schedule of two robots, with two rendezvous in a line. -/
def twoRobots : List Char := "0,100,200,300,400\n1,5,7\n0,-50,50\n".toList

theorem readsExactly_twoRobots :
    ReadsExactly 0 1700000000 twoRobots
        [⟨0, [(100, 200), (300, 400)]⟩, ⟨1, [(5, 7)]⟩, ⟨0, [(-50, 50)]⟩] ↔
      List.Forall₂ (LineFits 0 1700000000) (getLines twoRobots)
        [⟨0, [(100, 200), (300, 400)]⟩, ⟨1, [(5, 7)]⟩, ⟨0, [(-50, 50)]⟩] :=
  readsExactly_iff 0 1700000000 (by decide +kernel)

/-- The schedule of an hour from the start on. -/
def anHour : List Char := "0,0,3600\n".toList

/-- The end of the hour is read as 360: three characters stand before its comma. -/
theorem readsExactly_anHour :
    List.Forall₂ WellFormed (getLines anHour) [⟨0, [(0, 3600)]⟩] ∧
      ¬ ReadsExactly 0 1700000000 anHour [⟨0, [(0, 3600)]⟩] := by
  constructor
  · decide +kernel
  · rintro ⟨m, r, hm, hranges, -⟩
    have heffect : fileEffect 0 1700000000 (getLines anHour) =
        ([(1700000000, 1700000360)], .done) := by decide +kernel
    have hends : (fileEffect 0 1700000000 (getLines anHour)).2 ≠ .endless := by
      rw [heffect]
      decide
    obtain ⟨n, hn⟩ := new_ends hends
    have hr := (hm (max n m) (le_max_right n m)).symm.trans (hn (max n m) (le_max_left n m))
    obtain rfl := Option.some.inj hr
    rw [heffect] at hranges
    exact absurd hranges (by decide +kernel)

end RoverSwarm.Rendezvous
