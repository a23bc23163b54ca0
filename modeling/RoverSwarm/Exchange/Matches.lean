import RoverSwarm.Exchange.Delivery
import RoverSwarm.Lib.WalkRemove
import RoverSwarm.Selection.Model

/-!
# Exchange.Matches — the inter-robot matches on their way to the broker

`inter_robot_matches_timer_callback` leaves out the matches between the two robots in range, by
removing them from the chunks it is walking.  A match that follows a removed one is stepped over,
and so is the chunk that follows one that has become empty.  So what is sent is right exactly if no
two matches to remove stand beside each other (`transmits_iff`).
-/

namespace RoverSwarm.Exchange

open Selection (EdgeInterRobot)
open WalkRemove

structure InterRobotMatch where
  robot0Id : ℕ
  robot0KeyframeId : ℕ
  robot1Id : ℕ
  robot1KeyframeId : ℕ
  weight : ℚ
deriving DecidableEq, Repr

structure InterRobotMatches where
  robotId : ℕ
  matches_ : List InterRobotMatch
deriving DecidableEq, Repr

/-- What a robot sends matches from. -/
structure MatchSender where
  neighborManager : NeighborManager
  interRobotMatchesBuffer : SortedDict ℕ EdgeInterRobot := ∅

namespace MatchSender

variable (s : MatchSender)

/-- `delete_useless_inter_robot_matches` on a buffer from `first` to `last`. -/
def deleteUselessInterRobotMatches (first last : ℕ) : MatchSender :=
  let fromMatchId := s.neighborManager.uselessMatches last
  if first ≤ fromMatchId then
    { s with interRobotMatchesBuffer :=
        s.interRobotMatchesBuffer.deleteWalking fun k => (k : ℤ) < fromMatchId }
  else s

end MatchSender

/-! ### The timer callback -/

def edgeToMatch (edge : EdgeInterRobot) : InterRobotMatch :=
  ⟨edge.robot0Id, edge.robot0KeyframeId, edge.robot1Id, edge.robot1KeyframeId, edge.weight⟩

def bothInRange (neighborsInRange : List ℕ) (edge : EdgeInterRobot) : Bool :=
  edge.robot0Id ∈ neighborsInRange && edge.robot1Id ∈ neighborsInRange

/-- The loop over one chunk. -/
def removeKnown (neighborsInRange : List ℕ) (c : List EdgeInterRobot) : List EdgeInterRobot :=
  walk id (bothInRange neighborsInRange) (fun edge other => other.eq edge) [] c

/-- The loop over the chunks. -/
def removeKnownMatches (neighborsInRange : List ℕ) (chunks : List (List EdgeInterRobot)) :
    List (List EdgeInterRobot) :=
  walk (removeKnown neighborsInRange) (fun c => c.length ≤ 0)
    (fun c other => other.isEqv c EdgeInterRobot.eq) [] chunks

/-- The chunks of the matches selected for sending. -/
def selectedChunks (s : MatchSender) (maxElems : ℕ) (now now' : ℕ → ℚ) :
    List (List EdgeInterRobot) :=
  match s.interRobotMatchesBuffer.firstKey?, s.interRobotMatchesBuffer.lastKey? with
  | some first, some last =>
    dictToListChunks s.interRobotMatchesBuffer
      ((s.neighborManager.selectFromWhichMatchToSend last now now').2 - first) maxElems
  | _, _ => []

/-- `inter_robot_matches_timer_callback`, with the clock readings of
`select_from_which_match_to_send` and `check_neighbors_in_range`; the messages are published in
order. -/
def interRobotMatchesTimerCallback (s : MatchSender) (maxElems : ℕ) (now now' now'' : ℕ → ℚ) :
    MatchSender × List InterRobotMatches :=
  match s.interRobotMatchesBuffer.firstKey?, s.interRobotMatchesBuffer.lastKey? with
  | some first, some last =>
    let sender :=
      { s with neighborManager := (s.neighborManager.selectFromWhichMatchToSend last now now').1 }
    let chunks := selectedChunks s maxElems now now'
    let neighborsInRange := (sender.neighborManager.checkNeighborsInRange now'').2
    let chunks :=
      if neighborsInRange.length = 2 then removeKnownMatches neighborsInRange chunks else chunks
    (sender.deleteUselessInterRobotMatches first last,
      chunks.map fun c => ⟨s.neighborManager.robotId, c.map edgeToMatch⟩)
  | _, _ => (s, [])

/-! ### One chunk -/

section Chunk

variable {neighborsInRange : List ℕ} {c : List EdgeInterRobot}

theorem eq_refl (edge : EdgeInterRobot) : edge.eq edge = true := by
  simp [EdgeInterRobot.eq]

/-- Equal matches are between the same robots. -/
theorem bothInRange_of_eq (edge other : EdgeInterRobot) (h : other.eq edge = true)
    (hedge : bothInRange neighborsInRange edge = true) :
    bothInRange neighborsInRange other = true := by
  simp only [EdgeInterRobot.eq, Bool.or_eq_true, Bool.and_eq_true, beq_iff_eq] at h
  simp only [bothInRange, Bool.and_eq_true, decide_eq_true_iff] at hedge ⊢
  rcases h with ⟨⟨⟨h0, -⟩, h1⟩, -⟩ | ⟨⟨⟨h0, -⟩, h1⟩, -⟩
  · exact ⟨h0 ▸ hedge.1, h1 ▸ hedge.2⟩
  · exact ⟨h0 ▸ hedge.2, h1 ▸ hedge.1⟩

/-- No two matches to remove stand beside each other. -/
def NoRun (neighborsInRange : List ℕ) (c : List EdgeInterRobot) : Prop :=
  c.IsChain fun m m' =>
    ¬ (bothInRange neighborsInRange m = true ∧ bothInRange neighborsInRange m' = true)

theorem skipsFinished_iff_noRun : SkipsFinished id (bothInRange neighborsInRange) c ↔
    NoRun neighborsInRange c := by
  refine List.IsChain.iff fun m m' => ?_
  simp [Finished]

theorem removeKnown_eq (h : NoRun neighborsInRange c) : removeKnown neighborsInRange c =
    c.filter fun m => !bothInRange neighborsInRange m := by
  have hwalk : removeKnown neighborsInRange c =
      [] ++ (c.map id).filter fun m => !bothInRange neighborsInRange m :=
    walk_eq eq_refl bothInRange_of_eq (fun _ hm => absurd hm List.not_mem_nil)
      (skipsFinished_iff_noRun.mpr h)
  rw [hwalk, List.map_id, List.nil_append]

theorem exists_bothInRange_of_not_noRun (h : ¬ NoRun neighborsInRange c) :
    ∃ m ∈ removeKnown neighborsInRange c, bothInRange neighborsInRange m = true := by
  have hleft : ∃ m ∈ removeKnown neighborsInRange c,
      ¬ Finished id (bothInRange neighborsInRange) m :=
    exists_not_finished eq_refl bothInRange_of_eq fun hskips =>
      h (skipsFinished_iff_noRun.mp hskips)
  obtain ⟨m, hm, hleft⟩ := hleft
  exact ⟨m, hm, by simpa [Finished] using hleft⟩

/-- The loop over a chunk removes all it has to if it leaves nothing to remove. -/
theorem noRun_iff : NoRun neighborsInRange c ↔
    ∀ m ∈ removeKnown neighborsInRange c, bothInRange neighborsInRange m = false := by
  constructor
  · intro h m hm
    rw [removeKnown_eq h] at hm
    simpa using (List.mem_filter.mp hm).2
  · intro h
    by_contra hno
    obtain ⟨m, hm, hboth⟩ := exists_bothInRange_of_not_noRun hno
    rw [h m hm] at hboth
    exact Bool.false_ne_true hboth

theorem removeKnown_of_forall (h : ∀ m ∈ c, bothInRange neighborsInRange m = false) :
    removeKnown neighborsInRange c = c := by
  have hrun : NoRun neighborsInRange c := by
    refine (List.Pairwise.imp_of_mem ?_ (List.pairwise_of_forall fun _ _ => trivial)).isChain
    rintro m m' hm - - ⟨hboth, -⟩
    rw [h m hm] at hboth
    exact Bool.false_ne_true hboth
  rw [removeKnown_eq hrun, List.filter_eq_self]
  intro m hm
  rw [h m hm]
  rfl

end Chunk

/-! ### All chunks -/

section Chunks

variable {neighborsInRange : List ℕ} {chunks : List (List EdgeInterRobot)}

theorem isEqv_refl (c : List EdgeInterRobot) : c.isEqv c EdgeInterRobot.eq = true := by
  induction c with
  | nil => rfl
  | cons m c ih => simp [List.isEqv, eq_refl, ih]

theorem length_of_isEqv (c other : List EdgeInterRobot)
    (h : other.isEqv c EdgeInterRobot.eq = true) (hc : decide (c.length ≤ 0) = true) :
    decide (other.length ≤ 0) = true := by
  cases c with
  | nil => cases other with
    | nil => rfl
    | cons m other => exact absurd h (by simp [List.isEqv])
  | cons m c => exact absurd hc (by simp)

/-- No two matches to remove stand beside each other in a chunk, and a chunk of such matches only
is not followed by one with such a match. -/
structure NoKnownMissed (neighborsInRange : List ℕ) (chunks : List (List EdgeInterRobot)) :
    Prop where
  within : ∀ c ∈ chunks, NoRun neighborsInRange c
  across : chunks.IsChain fun c d => (∀ m ∈ c, bothInRange neighborsInRange m = true) →
    ∀ m ∈ d, bothInRange neighborsInRange m = false

abbrev SkipsFinishedChunks (neighborsInRange : List ℕ) (chunks : List (List EdgeInterRobot)) :
    Prop :=
  SkipsFinished (removeKnown neighborsInRange) (fun c => c.length ≤ 0) chunks

theorem skipsFinishedChunks_iff (hne : ∀ c ∈ chunks, c ≠ [])
    (hwithin : ∀ c ∈ chunks, NoRun neighborsInRange c) :
    SkipsFinishedChunks neighborsInRange chunks ↔ chunks.IsChain fun c d =>
      (∀ m ∈ c, bothInRange neighborsInRange m = true) →
        ∀ m ∈ d, bothInRange neighborsInRange m = false := by
  refine List.IsChain.iff_of_mem_imp fun c d hc hd => ?_
  have hempty : decide ((removeKnown neighborsInRange c).length ≤ 0) = true ↔
      ∀ m ∈ c, bothInRange neighborsInRange m = true := by
    rw [removeKnown_eq (hwithin c hc)]
    simp [List.filter_eq_nil_iff]
  have hfinished : Finished (removeKnown neighborsInRange) (fun c => decide (c.length ≤ 0)) d ↔
      ∀ m ∈ d, bothInRange neighborsInRange m = false := by
    constructor
    · rintro ⟨hd', -⟩ m hm
      rw [← hd'] at hm
      exact noRun_iff.mp (hwithin d hd) m hm
    · intro h
      refine ⟨removeKnown_of_forall h, ?_⟩
      simp [hne d hd]
  rw [hempty, hfinished]

theorem removeKnownMatches_eq (h : SkipsFinishedChunks neighborsInRange chunks) :
    removeKnownMatches neighborsInRange chunks =
      (chunks.map (removeKnown neighborsInRange)).filter fun c => !decide (c.length ≤ 0) :=
  (walk_eq isEqv_refl length_of_isEqv (fun _ hm => absurd hm List.not_mem_nil) h).trans
    (List.nil_append _)

theorem flatten_filter_nonempty (l : List (List EdgeInterRobot)) :
    (l.filter fun c => !decide (c.length ≤ 0)).flatten = l.flatten := by
  induction l with
  | nil => rfl
  | cons c l ih =>
    cases c with
    | nil => simpa using ih
    | cons m c => simpa using ih

/-- The chunks without the matches to remove, and without empty ones. -/
def Removed (neighborsInRange : List ℕ) (chunks result : List (List EdgeInterRobot)) : Prop :=
  result.flatten = chunks.flatten.filter (fun m => !bothInRange neighborsInRange m) ∧
    ∀ c ∈ result, c ≠ []

/-- If a chunk is stepped over too early, it is left with a match to remove. -/
theorem skipsFinishedChunks_of_removed
    (h : Removed neighborsInRange chunks (removeKnownMatches neighborsInRange chunks)) :
    SkipsFinishedChunks neighborsInRange chunks := by
  by_contra hno
  obtain ⟨c, hc, hleft⟩ : ∃ c ∈ removeKnownMatches neighborsInRange chunks,
      ¬ Finished (removeKnown neighborsInRange) (fun c => decide (c.length ≤ 0)) c :=
    exists_not_finished isEqv_refl length_of_isEqv hno
  refine hleft ⟨removeKnown_of_forall fun m hm => ?_, ?_⟩
  · have hmem : m ∈ (removeKnownMatches neighborsInRange chunks).flatten :=
      List.mem_flatten_of_mem hc hm
    rw [h.1] at hmem
    simpa using (List.mem_filter.mp hmem).2
  · have hne := h.2 c hc
    simp [hne]

theorem removed_iff (hne : ∀ c ∈ chunks, c ≠ []) :
    Removed neighborsInRange chunks (removeKnownMatches neighborsInRange chunks) ↔
      NoKnownMissed neighborsInRange chunks := by
  constructor
  · intro h
    have hskips := skipsFinishedChunks_of_removed h
    have hflatten := h.1
    rw [removeKnownMatches_eq hskips, flatten_filter_nonempty] at hflatten
    have hwithin : ∀ c ∈ chunks, NoRun neighborsInRange c := by
      intro c hc
      refine noRun_iff.mpr fun m hm => ?_
      have hmem : m ∈ (chunks.map (removeKnown neighborsInRange)).flatten :=
        List.mem_flatten_of_mem (List.mem_map_of_mem hc) hm
      rw [hflatten] at hmem
      simpa using (List.mem_filter.mp hmem).2
    exact ⟨hwithin, (skipsFinishedChunks_iff hne hwithin).mp hskips⟩
  · rintro ⟨hwithin, hacross⟩
    have hskips := (skipsFinishedChunks_iff hne hwithin).mpr hacross
    have hmap : chunks.map (removeKnown neighborsInRange) =
        chunks.map fun c => c.filter fun m => !bothInRange neighborsInRange m :=
      List.map_congr_left fun c hc => removeKnown_eq (hwithin c hc)
    unfold Removed
    rw [removeKnownMatches_eq hskips, flatten_filter_nonempty, hmap, List.filter_flatten]
    refine ⟨rfl, fun c hc => ?_⟩
    simpa using (List.mem_filter.mp hc).2

end Chunks

/-! ### What is transmitted -/

/-- Exactly the selected matches that are not between two robots of `neighborsInRange` are
transmitted, each once and in order, and no message is empty. -/
def Transmits (neighborsInRange : List ℕ) (selected : List EdgeInterRobot)
    (msgs : List InterRobotMatches) : Prop :=
  msgs.flatMap InterRobotMatches.matches_ =
      (selected.filter fun m => !bothInRange neighborsInRange m).map edgeToMatch ∧
    ∀ msg ∈ msgs, msg.matches_ ≠ [] ∧
      ∀ m ∈ msg.matches_, ¬ (m.robot0Id ∈ neighborsInRange ∧ m.robot1Id ∈ neighborsInRange)

theorem selectedChunks_ne_nil (s : MatchSender) (maxElems : ℕ) (now now' : ℕ → ℚ) :
    ∀ c ∈ selectedChunks s maxElems now now', c ≠ [] := by
  unfold selectedChunks
  split
  · exact chunksFrom_ne_nil _ _ _ _
  · exact fun _ hc => absurd hc List.not_mem_nil

/-- With two robots in range the messages are what is left of the selected chunks. -/
theorem callback_messages {s : MatchSender} {maxElems : ℕ} {now now' now'' : ℕ → ℚ}
    (h : (s.neighborManager.checkNeighborsInRange now'').2.length = 2) :
    (interRobotMatchesTimerCallback s maxElems now now' now'').2 =
      (removeKnownMatches (s.neighborManager.checkNeighborsInRange now'').2
        (selectedChunks s maxElems now now')).map fun c =>
          ⟨s.neighborManager.robotId, c.map edgeToMatch⟩ := by
  unfold interRobotMatchesTimerCallback
  cases hfirst : s.interRobotMatchesBuffer.firstKey? with
  | none => simp [selectedChunks, hfirst, removeKnownMatches, walk]
  | some first =>
    cases hlast : s.interRobotMatchesBuffer.lastKey? with
    | none => simp [selectedChunks, hlast, removeKnownMatches, walk]
    | some last =>
      dsimp only
      rw [NeighborManager.checkNeighborsInRange_selectFromWhichMatchToSend, if_pos h]

theorem edgeToMatch_injective : Function.Injective edgeToMatch := by
  intro edge other h
  cases edge
  cases other
  simpa [edgeToMatch] using h

/-- The messages are the chunks. -/
theorem transmits_iff_removed {neighborsInRange : List ℕ}
    {chunks result : List (List EdgeInterRobot)} (robotId : ℕ) :
    Transmits neighborsInRange chunks.flatten
        (result.map fun c => ⟨robotId, c.map edgeToMatch⟩) ↔
      Removed neighborsInRange chunks result := by
  have hflatMap : (result.map fun c => (⟨robotId, c.map edgeToMatch⟩ : InterRobotMatches)).flatMap
      InterRobotMatches.matches_ = result.flatten.map edgeToMatch := by
    rw [List.flatMap_map, List.map_flatten]
    rfl
  unfold Transmits Removed
  rw [hflatMap, (List.map_injective_iff.mpr edgeToMatch_injective).eq_iff]
  constructor
  · rintro ⟨hflatten, hmsgs⟩
    refine ⟨hflatten, fun c hc hnil => (hmsgs _ (List.mem_map_of_mem hc)).1 ?_⟩
    rw [hnil]
    rfl
  · rintro ⟨hflatten, hne⟩
    refine ⟨hflatten, fun msg hmsg => ?_⟩
    obtain ⟨c, hc, rfl⟩ := List.mem_map.mp hmsg
    refine ⟨by simpa using hne c hc, fun m hm => ?_⟩
    obtain ⟨edge, hedge, rfl⟩ := List.mem_map.mp hm
    have hmem : edge ∈ result.flatten := List.mem_flatten_of_mem hc hedge
    rw [hflatten] at hmem
    simpa [bothInRange, edgeToMatch, imp_iff_not_or] using (List.mem_filter.mp hmem).2

/-- **What is transmitted**: with two robots in range, exactly the selected matches that are not
between them, if and only if no two matches between them stand beside each other in a chunk, and
none follows a chunk of such matches. -/
theorem transmits_iff (s : MatchSender) (maxElems : ℕ) (now now' now'' : ℕ → ℚ)
    (h : (s.neighborManager.checkNeighborsInRange now'').2.length = 2) :
    Transmits (s.neighborManager.checkNeighborsInRange now'').2
        (selectedChunks s maxElems now now').flatten
        (interRobotMatchesTimerCallback s maxElems now now' now'').2 ↔
      NoKnownMissed (s.neighborManager.checkNeighborsInRange now'').2
        (selectedChunks s maxElems now now') := by
  rw [callback_messages h, transmits_iff_removed]
  exact removed_iff (selectedChunks_ne_nil s maxElems now now')

/-- Robot 0 of three, with robot 1 alive from the second second on. -/
def besideRobot1 (entries : List EdgeInterRobot) : MatchSender where
  neighborManager :=
    { robotId := 0
      maxNbRobots := 3
      neighborsMonitors := fun rid =>
        { isEnabled := true
          originRobotId := rid
          initDelaySec := 0
          maxDelaySec := 10
          firstHeartbeatReceived := rid = 1
          initTime := 1
          latestTimeStamp := 1 } }
  interRobotMatchesBuffer :=
    (entries.zipIdx).foldl (fun d e => d.set e.2 e.1) ∅

/-- A match with robot 2 between two with robot 1. -/
def separated : MatchSender :=
  besideRobot1 [⟨0, 0, 1, 0, 1⟩, ⟨0, 1, 2, 1, 1⟩, ⟨0, 2, 1, 2, 1⟩]

theorem transmits_separated :
    Transmits (separated.neighborManager.checkNeighborsInRange fun _ => 2).2
      (selectedChunks separated 10 (fun _ => 2) (fun _ => 2)).flatten
      (interRobotMatchesTimerCallback separated 10 (fun _ => 2) (fun _ => 2) (fun _ => 2)).2 := by
  refine (transmits_iff separated 10 _ _ _ (by decide +kernel)).mpr ⟨?_, ?_⟩
  · unfold NoRun
    decide +kernel
  · decide +kernel

/-- Two matches with robot 1: the second one is transmitted. -/
theorem not_transmits :
    ¬ ∀ (s : MatchSender) (maxElems : ℕ) (now now' now'' : ℕ → ℚ),
      (s.neighborManager.checkNeighborsInRange now'').2.length = 2 →
      Transmits (s.neighborManager.checkNeighborsInRange now'').2
        (selectedChunks s maxElems now now').flatten
        (interRobotMatchesTimerCallback s maxElems now now' now'').2 := by
  intro h
  have hsent := (h (besideRobot1 [⟨0, 0, 1, 0, 1⟩, ⟨0, 1, 1, 1, 1⟩]) 10 (fun _ => 2) (fun _ => 2)
    (fun _ => 2) (by decide +kernel)).1
  revert hsent
  decide +kernel

end RoverSwarm.Exchange
